import SquirrelAnalyzer.Proofs.Plain.Lookup
import SquirrelAnalyzer.Resolve.Label

namespace SquirrelAnalyzer

theorem Resolve.ofOption_map_bind {α : Type} (o : Option SourceUnit) (f : SourceUnit → SourceUnit)
    (k : SourceUnit → Resolve α) :
    (ofOption (o.map f) >>= k) = ofOption o >>= fun u => k (f u) := by
  cases o <;> rfl

namespace Program.PlainOf

variable {q p : Program}

theorem instantiated (h : q.PlainOf p) : Value.instantiated q = Value.instantiated p := by
  funext v
  cases v with
  | node b i call => simp only [Value.instantiated, h.isClass]
  | nominal name => rfl

theorem membersOf (h : q.PlainOf p) : q.membersOf = p.membersOf := by
  funext levels
  simp only [Program.membersOf, h.ownMembers]

variable (ask : Ask)

theorem superclass (h : q.PlainOf p) : Resolve.superclass q ask = Resolve.superclass p ask := by
  funext cls
  simp only [Resolve.superclass, h.shape?, h.isClass]

theorem superclassesUpTo (h : q.PlainOf p) :
    Resolve.superclassesUpTo q ask = Resolve.superclassesUpTo p ask := by
  funext n
  induction n with
  | zero => rfl
  | succ n ih =>
    funext seen cls
    simp only [Resolve.superclassesUpTo, h.superclass, ih]

theorem superclasses (h : q.PlainOf p) :
    Resolve.superclasses q ask = Resolve.superclasses p ask := by
  funext cls
  simp only [Resolve.superclasses, h.superclassesUpTo, h.size]

theorem levels (h : q.PlainOf p) : Resolve.levels q ask = Resolve.levels p ask := by
  funext v
  simp only [Resolve.levels, h.superclasses, h.isClass]

theorem findMember (h : q.PlainOf p) : Resolve.findMember q ask = Resolve.findMember p ask := by
  funext name arity v
  simp only [Resolve.findMember, h.levels, h.ownMember?]

theorem members (h : q.PlainOf p) : Resolve.members q ask = Resolve.members p ask := by
  funext v
  simp only [Resolve.members, h.levels, h.membersOf]

theorem scopeAt (h : q.PlainOf p) : Resolve.scopeAt q = Resolve.scopeAt p := by
  funext b
  simp only [Resolve.scopeAt, h.unit, h.kind?]
  cases p.unit? b.unit <;> rfl

theorem bodyOwner (h : q.PlainOf p) : Resolve.bodyOwner q ask = Resolve.bodyOwner p ask := by
  funext outer inner
  simp only [Resolve.bodyOwner, h.shape?]

theorem nameAt (h : q.PlainOf p) : Resolve.nameAt q ask = Resolve.nameAt p ask := by
  funext name arity outer inner
  simp only [Resolve.nameAt, h.scoped?, h.scopeAt, h.bodyOwner, h.findMember]

theorem nameAmong (h : q.PlainOf p) : Resolve.nameAmong q ask = Resolve.nameAmong p ask := by
  funext unit name arity places
  induction places with
  | nil => simp only [Resolve.nameAmong, h.imported?]
  | cons place places ih => simp only [Resolve.nameAmong, h.nameAt, ih]

theorem lookupName (h : q.PlainOf p) : Resolve.lookupName q ask = Resolve.lookupName p ask := by
  funext b name arity
  simp only [Resolve.lookupName, h.unit, Option.isSome_map, h.nameAmong]

theorem typeRoot (h : q.PlainOf p) : Resolve.typeRoot q ask = Resolve.typeRoot p ask := by
  funext context name
  simp only [Resolve.typeRoot, h.lookupName, h.aliased?]

theorem memberValue (h : q.PlainOf p) : Resolve.memberValue q ask = Resolve.memberValue p ask := by
  funext v name
  simp only [Resolve.memberValue, h.findMember]

theorem lookupType (h : q.PlainOf p) : Resolve.lookupType q ask = Resolve.lookupType p ask := by
  funext context type
  simp only [Resolve.lookupType, h.typeRoot, h.memberValue, h.instantiated]

theorem thisAmong (h : q.PlainOf p) : Resolve.thisAmong q ask = Resolve.thisAmong p ask := by
  funext places
  induction places with
  | nil => rfl
  | cons place places ih => simp only [Resolve.thisAmong, h.shape?, h.instantiated, ih]

theorem thisValue (h : q.PlainOf p) : Resolve.thisValue q ask = Resolve.thisValue p ask := by
  funext b
  simp only [Resolve.thisValue, h.thisAmong]

theorem baseClass (h : q.PlainOf p) : Resolve.baseClass q ask = Resolve.baseClass p ask := by
  funext b
  simp only [Resolve.baseClass, h.thisValue, h.superclass]

theorem documentedValue (h : q.PlainOf p) :
    Resolve.documentedValue q ask = Resolve.documentedValue p ask := by
  funext b
  simp only [Resolve.documentedValue, h.unit, Option.bind_map, h.lookupType]
  rfl

theorem augmentedValue (h : q.PlainOf p) :
    Resolve.augmentedValue q ask = Resolve.augmentedValue p ask := by
  funext v
  unfold Resolve.augmentedValue
  simp only [h.augmented?]

theorem memberOf (h : q.PlainOf p) : Resolve.memberOf q ask = Resolve.memberOf p ask := by
  funext object name arity
  simp only [Resolve.memberOf, h.findMember, h.documentedValue, h.augmentedValue]

theorem nameDefinition (h : q.PlainOf p) :
    Resolve.nameDefinition q ask = Resolve.nameDefinition p ask := by
  funext b name
  simp only [Resolve.nameDefinition, h.shape?, h.lookupName, h.arity?]

theorem definitionStep (h : q.PlainOf p) :
    Resolve.definitionStep q ask = Resolve.definitionStep p ask := by
  funext b
  simp only [Resolve.definitionStep, h.unit, Resolve.ofOption_map_bind, h.nameDefinition,
    h.memberOf, h.arity?, h.rootName?, h.thisValue, h.baseClass]
  rfl

theorem returnValue (h : q.PlainOf p) : Resolve.returnValue q ask = Resolve.returnValue p ask := by
  funext function
  simp only [Resolve.returnValue, h.unit, Resolve.ofOption_map_bind, h.lookupType, h.config]
  rfl

theorem callValue (h : q.PlainOf p) : Resolve.callValue q ask = Resolve.callValue p ask := by
  funext b callee
  simp only [Resolve.callValue, h.kind?, h.returnValue]

theorem metaValue (h : q.PlainOf p) : Resolve.metaValue q ask = Resolve.metaValue p ask := by
  funext b
  simp only [Resolve.metaValue, h.unit, Resolve.ofOption_map_bind, h.returnValue]
  rfl

theorem valueStep (h : q.PlainOf p) : Resolve.valueStep q ask = Resolve.valueStep p ask := by
  funext b
  simp only [Resolve.valueStep, h.shape?, h.metaValue, h.thisValue, h.baseClass, h.callValue]

theorem documentedType? (h : q.PlainOf p) :
    Resolve.documentedType? q ask = Resolve.documentedType? p ask := by
  funext b
  simp only [Resolve.documentedType?, h.kind?, h.isClass, h.unit, Option.bind_map]
  rfl

theorem valueLabel (h : q.PlainOf p) : Resolve.valueLabel q = Resolve.valueLabel p := by
  funext infer v
  cases v with
  | nominal name => rfl
  | node b i call =>
    simp only [Resolve.valueLabel, h.unit]
    cases p.unit? b.unit <;> rfl

theorem labelWithin (h : q.PlainOf p) : Resolve.labelWithin q ask = Resolve.labelWithin p ask := by
  funext n
  induction n with
  | zero => rfl
  | succ n ih =>
    funext b
    simp only [Resolve.labelWithin, h.documentedType?, h.valueLabel, ih]

theorem frameCount (h : q.PlainOf p) : q.frameCount = p.frameCount := by
  simp only [Program.frameCount, h.size]

theorem label (h : q.PlainOf p) : Resolve.label q ask = Resolve.label p ask := by
  funext b
  simp only [Resolve.label, h.labelWithin, h.frameCount]

theorem subject (h : q.PlainOf p) : q.subject = p.subject := by
  funext query b
  cases query with
  | value => rfl
  | definition =>
    simp only [Program.subject, h.unit]
    cases p.unit? b.unit <;> rfl

theorem step (h : q.PlainOf p) : q.step = p.step := by
  funext ask query b
  cases query with
  | value => simp only [Program.step, h.valueStep, h.anchor]
  | definition => simp only [Program.step, h.definitionStep, h.anchor]

theorem answerWithin (h : q.PlainOf p) : q.answerWithin = p.answerWithin := by
  funext n
  induction n with
  | zero => rfl
  | succ n ih =>
    funext query b
    simp only [Program.answerWithin, h.subject, h.kind?, h.step, h.config, ih]

theorem answer (h : q.PlainOf p) : q.answer = p.answer := by
  simp only [Program.answer, h.answerWithin, h.frameCount]

end Program.PlainOf

end SquirrelAnalyzer
