import SquirrelAnalyzer.Unit.Build

/-!
What the documentation comments of a unit say. Each comment belongs to the first declaration that
starts behind it, and its attributes become facts about that declaration, its function, its class
or properties known from documentation alone.
-/

namespace SquirrelAnalyzer

namespace Arena

variable (a : Arena)

def documented? (n : Node) : Option NodeId :=
  match n.shape with
  | .variableDeclaration _ declarations => declarations.head?
  | .functionDeclaration .. | .classDeclaration .. | .enumDeclaration .. | .methodDefinition ..
  | .propertyDefinition .. | .enumMember .. => some n.id
  | .expressionStatement expression =>
    if a.kind? expression = some .assignmentExpression then some expression else none
  | _ => none

def startsFirst (x y : Node) : Bool :=
  x.location.startOffset < y.location.startOffset ||
    (x.location.startOffset = y.location.startOffset && y.id.index ≤ x.id.index)

def documentable : List (Nat × NodeId) :=
  let found := a.nodes.toList.filter fun n => (a.documented? n).isSome
  (sortBy startsFirst found).filterMap fun n =>
    (a.documented? n).map (n.location.startOffset, ·)

def valueOf? (id : NodeId) : Option NodeId :=
  match a.shape? id with
  | none => none
  | some (.methodDefinition _ _ _ value) => some value
  | some (.propertyDefinition _ _ _ value) => value
  | some (.variableDeclarator _ init) => init
  | some (.assignmentExpression _ _ right) => some right
  | some _ => some id

def functionOf? (id : NodeId) : Option NodeId :=
  (a.valueOf? id).filter fun v => ((a.kind? v).map Kind.isFunction).getD false

def classOf? (id : NodeId) : Option NodeId :=
  (a.valueOf? id).filter fun v => ((a.kind? v).map Kind.isClass).getD false

def enclosingClass? (id : NodeId) : Option NodeId := do
  let b ← a.branchTo id
  return (← b.endingAtAny a Kind.isClass).target

def parameterText? (param : NodeId) : Option String :=
  a.identifierName? (((a.shape? param).bind Shape.nameNode?).getD param)

def parameterNamed? (id : NodeId) (name : String) : Option NodeId := do
  let params ← (← a.shape? (← a.functionOf? id)).params?
  params.find? fun p => a.parameterText? p = some name

def propertyOwner? (config : Config) (id : NodeId) : Option NodeId :=
  (a.classOf? id).or do
    match ← a.shape? id with
    | .methodDefinition _ _ key _ =>
      let name ← a.identifierName? key
      if name = config.magicGetter ∨ name = config.magicSetter then a.enclosingClass? id else none
    | _ => none

end Arena

inductive AccessorKind
  | getter | setter
  deriving DecidableEq, Repr

namespace SourceUnit

def mapFacts (u : SourceUnit) (f : Facts → Facts) : SourceUnit := { u with facts := f u.facts }

def metaNamed? (u : SourceUnit) (cls : NodeId) (name : String) : Option NodeId :=
  ((u.facts.metas.get? cls).getD []).find? fun m =>
    (((u.arena.shape? m).bind Shape.nameNode?).bind u.arena.identifierName?) = some name

def addMeta (u : SourceUnit) (cls : NodeId) (name : String) (tag : Doc.Attribute)
    (location : Location) : NodeId × SourceUnit :=
  let (key, arena) := u.arena.add location (.identifier name)
  let (property, arena) := arena.add location (.metaProperty key)
  let symbol : Symbol := ⟨name, .property, location, location, property, none⟩
  let facts := { u.facts with
    declarations := u.facts.declarations.insert key ⟨property, .property⟩
    categories := u.facts.categories.insert key .property
    docs := u.facts.docs.insert property [tag]
    metas := u.facts.metas.append cls property }
  let outline := (u.outline.addUnder? cls (.node symbol [])).getD u.outline
  (property, { u with arena, facts, outline })

def typeMeta (property : NodeId) (type : Option String) (facts : Facts) : Facts :=
  match type with
  | some type =>
    if facts.typeOverrides.contains property then facts
    else { facts with typeOverrides := facts.typeOverrides.insert property type }
  | none => facts

def setAccessor (property method : NodeId) (kind : AccessorKind) (facts : Facts) : Facts :=
  let old := (facts.accessors.get? property).getD {}
  let new := match kind with
    | .getter => { old with getter := some method }
    | .setter => { old with setter := some method }
  { facts with accessors := facts.accessors.insert property new }

def recordMeta (u : SourceUnit) (cls : NodeId) (name : String) (tag : Doc.Attribute)
    (accessor : Option (AccessorKind × NodeId)) (location : Location) : SourceUnit :=
  let (property, u) := match u.metaNamed? cls name with
    | some property => (property, u)
    | none => u.addMeta cls name tag location
  let u := u.mapFacts (typeMeta property tag.type)
  match accessor with
  | some (kind, method) => u.mapFacts (setAccessor property method kind)
  | none => u

def overrideType (u : SourceUnit) (id : NodeId) (type : String) : SourceUnit :=
  u.mapFacts fun f => { f with typeOverrides := f.typeOverrides.insert id type }

def overrideReturn (u : SourceUnit) (function : NodeId) (type : String) : SourceUnit :=
  u.mapFacts fun f => { f with returnOverrides := f.returnOverrides.insert function type }

def applyType (u : SourceUnit) (target : NodeId) (type : String) : SourceUnit :=
  match u.arena.functionOf? target with
  | some function => u.overrideReturn function type
  | none => u.overrideType ((u.arena.classOf? target).getD target) type

def applyAccessor (u : SourceUnit) (target : NodeId) (tag : Doc.Attribute)
    (kind : AccessorKind) (location : Location) : SourceUnit :=
  if u.arena.kind? target = some .methodDefinition then
    match tag.name, u.arena.enclosingClass? target with
    | some name, some cls => u.recordMeta cls name tag (some (kind, target)) location
    | _, _ => u
  else u

def applyAttribute (config : Config) (target : NodeId) (location : Location) (u : SourceUnit)
    (tag : Doc.Attribute) : SourceUnit :=
  match tag.kind with
  | "deprecated" =>
    u.mapFacts fun f =>
      { f with deprecated := f.deprecated.insert target (tag.documentation.getD "") }
  | "type" =>
    match tag.type with
    | some type => u.applyType target type
    | none => u
  | "returns" | "return" =>
    match tag.type, u.arena.functionOf? target with
    | some type, some function => u.overrideReturn function type
    | _, _ => u
  | "param" =>
    match tag.type, tag.name.bind (u.arena.parameterNamed? target) with
    | some type, some param => u.overrideType param type
    | _, _ => u
  | "alias" =>
    match tag.name, u.arena.classOf? target with
    | some name, some cls =>
      u.mapFacts fun f => { f with aliases := f.aliases.insert cls name }
    | _, _ => u
  | "augments" =>
    match tag.name, (u.arena.classOf? target).or (u.arena.enclosingClass? target) with
    | some name, some cls =>
      u.mapFacts fun f => { f with augments := f.augments.insert cls name }
    | _, _ => u
  | "property" =>
    match tag.name, u.arena.propertyOwner? config target with
    | some name, some cls => u.recordMeta cls name tag none location
    | _, _ => u
  | "getter" => u.applyAccessor target tag .getter location
  | "setter" => u.applyAccessor target tag .setter location
  | _ => u

def documentedBy? (places : List (Nat × NodeId)) (c : Doc.Comment) : Option NodeId :=
  (places.find? fun p => c.location.endOffset ≤ p.1).map (·.2)

/-- Attaches a comment to a declaration; a later comment replaces the attributes of an earlier one
but not the facts drawn from them. -/
def attachTo (config : Config) (u : SourceUnit) (target : NodeId) (c : Doc.Comment) : SourceUnit :=
  c.attributes.foldl (applyAttribute config target c.location)
    (u.mapFacts fun f => { f with docs := f.docs.insert target c.attributes })

def attachComments (config : Config) (u : SourceUnit) : SourceUnit :=
  let places := u.arena.documentable
  u.arena.comments.foldl (fun u c =>
    match documentedBy? places c with
    | some target => attachTo config u target c
    | none => u) u

def build (config : Config) (id : UnitId) (a : Arena) : SourceUnit :=
  attachComments config (ofArena config { a with unit := id })

end SourceUnit

end SquirrelAnalyzer
