import Mathlib.Data.List.Find
import SquirrelAnalyzer.Program.Lookup
import SquirrelAnalyzer.Proofs.Closed
import SquirrelAnalyzer.Proofs.Declared
import SquirrelAnalyzer.Proofs.Extension
import SquirrelAnalyzer.Proofs.Grammar

namespace SquirrelAnalyzer

namespace Shape

variable {χ β : Type} {s s' : Shape χ} {key : χ}

inductive Bracketed (key : χ) : Shape χ → Shape χ → Prop
  | access (object : χ) :
      Bracketed key (.memberExpression object key false) (.memberExpression object key true)
  | slot (isStatic : Bool) (value : Option χ) : Bracketed key
      (.propertyDefinition isStatic false key value) (.propertyDefinition isStatic true key value)

def Even (f : Shape χ → β) : Prop := ∀ {key s s'}, Bracketed key s s' → f s = f s'

structure Blind (f : Shape χ → β) : Prop where
  even : Even f
  name : ∀ name, f (.identifier name) = f (.literal (.string name))

theorem Bracketed.kind_eq (h : Bracketed key s s') : s.kind = s'.kind := by
  cases h <;> rfl

theorem Bracketed.children_eq (h : Bracketed key s s') (table : FieldTable) :
    s.children table = s'.children table := by
  cases h <;> cases table <;> rfl

theorem Bracketed.mem_children (h : Bracketed key s s') : key ∈ s.children .full := by
  cases h <;> simp [children, kind, Kind.fields, field]

theorem Bracketed.operands_eq (h : Bracketed key s s') : s.operands = s'.operands := by
  cases h <;> rfl

theorem Bracketed.ne_identifier (h : Bracketed key s s') (name : String) :
    s ≠ .identifier name ∧ s' ≠ .identifier name := by
  cases h <;> exact ⟨nofun, nofun⟩

theorem mem_operands_of_nameNode {c : χ} (h : s.nameNode? = some c)
    (hk : s.kind ≠ .propertyDefinition) : c ∈ s.operands := by
  cases s with
  | propertyDefinition => exact absurd rfl hk
  | assignmentExpression operator left right =>
    cases operator <;> simp [nameNode?] at h
    simp [h, operands, children, kind, Kind.fields, field]
  | _ =>
    simp [nameNode?] at h
    try simp [h, operands, children, kind, Kind.fields, field]

theorem mem_operands_of_param {c : χ} {params : List χ} (h : s.params? = some params)
    (hc : c ∈ params) : c ∈ s.operands := by
  cases s <;> simp [params?] at h
  all_goals simp [h, hc, operands, children, kind, Kind.fields, field]

theorem even_of_kind (f : Kind → β) : Even fun s : Shape χ => f s.kind :=
  fun hb => congrArg f hb.kind_eq

theorem even_identifierName? : Even (identifierName? (χ := χ)) := fun h => by cases h <;> rfl

theorem even_literal? : Even (literal? (χ := χ)) := fun h => by cases h <;> rfl

theorem even_literalText? : Even (literalText? (χ := χ)) := fun h => by cases h <;> rfl

theorem blind_children (table : FieldTable) : Blind (children (χ := χ) table) :=
  ⟨fun h => h.children_eq table, fun _ => rfl⟩

theorem blind_isScope : Blind fun s : Shape χ => s.kind.isScope :=
  ⟨even_of_kind _, fun _ => rfl⟩

theorem blind_isClass : Blind fun s : Shape χ => s.kind.isClass := ⟨even_of_kind _, fun _ => rfl⟩

theorem blind_nameNode? : Blind (nameNode? (χ := χ)) := ⟨fun h => by cases h <;> rfl, fun _ => rfl⟩

theorem blind_params? : Blind (params? (χ := χ)) := ⟨fun h => by cases h <;> rfl, fun _ => rfl⟩

theorem blind_classParts? : Blind (classParts? (χ := χ)) :=
  ⟨fun h => by cases h <;> rfl, fun _ => rfl⟩

theorem blind_call? : Blind (call? (χ := χ)) := ⟨fun h => by cases h <;> rfl, fun _ => rfl⟩

theorem blind_plainAssignment? : Blind (plainAssignment? (χ := χ)) :=
  ⟨fun h => by cases h <;> rfl, fun _ => rfl⟩

end Shape

theorem Option.bind_congr_of_map {α β : Type} {f : α → Option β} {x y : Option α}
    (h : x.map f = y.map f) : x.bind f = y.bind f := by
  cases x <;> cases y <;> simp_all

namespace Arena

def Rewritten (a a' : Arena) (id : NodeId) : Prop :=
  ∃ name, a.shape? id = some (.identifier name) ∧ a'.shape? id = some (.literal (.string name))

def Bracketed (a a' : Arena) (key id : NodeId) : Prop :=
  ∃ s s', a.shape? id = some s ∧ a'.shape? id = some s' ∧ s.Bracketed key s'

def HoldsSlots (a : Arena) (id : NodeId) : Prop :=
  ∃ kind, a.kind? id = some kind ∧ kind.holdsSlots = true

inductive Rewrite (a a' : Arena) (id : NodeId) : Prop
  | same (hs : a.shape? id = a'.shape? id) (hc : ∀ c ∈ a.children .full id, ¬ a.Rewritten a' c)
  | name (h : a.Rewritten a' id)
  | bracket {key : NodeId} {s s' : Shape NodeId} (hs : a.shape? id = some s)
      (hs' : a'.shape? id = some s') (h : s.Bracketed key s') (hk : a.Rewritten a' key)
      (ho : ∀ c ∈ s.operands, ¬ a.Rewritten a' c)

structure Respelled (a a' : Arena) : Prop where
  unit : a'.unit = a.unit
  root : a'.root = a.root
  parsedSize : a'.parsedSize = a.parsedSize
  size : a'.size = a.size
  left : a.Rooted
  right : a'.Rooted
  node : ∀ id, a.Rewrite a' id
  slot : ∀ {key c id}, a.Bracketed a' key c → c ∈ a.children .full id →
    a.kind? c = some .propertyDefinition → a.HoldsSlots id

variable {a a' : Arena} {id : NodeId} {β : Type}

theorem not_rewritten_self (a : Arena) (id : NodeId) : ¬ a.Rewritten a id := by
  rintro ⟨name, hs, hs'⟩
  rw [hs] at hs'
  cases hs'

theorem Rooted.respelled (h : a.Rooted) : a.Respelled a where
  unit := rfl
  root := rfl
  parsedSize := rfl
  size := rfl
  left := h
  right := h
  node _ := .same rfl fun c _ => a.not_rewritten_self c
  slot hb := by
    obtain ⟨s, s', hs, hs', hb⟩ := hb
    obtain rfl := Option.some.inj (hs.symm.trans hs')
    cases hb

theorem not_rewritten_of_kind {kind : Kind} (hk : a.kind? id = some kind)
    (hne : kind ≠ .identifier) : ¬ a.Rewritten a' id := by
  rintro ⟨name, hs, -⟩
  obtain ⟨n, hn, hkind⟩ := Option.map_eq_some_iff.mp hk
  obtain ⟨m, hm, hshape⟩ := Option.map_eq_some_iff.mp hs
  obtain rfl := Option.some.inj (hn.symm.trans hm)
  rw [Node.kind, hshape] at hkind
  exact hne hkind.symm

theorem children_eq_map (a : Arena) (table : FieldTable) (id : NodeId) :
    a.children table id = ((a.shape? id).map (·.children table)).getD [] := by
  unfold children shape?
  cases a.get? id <;> rfl

theorem findIdx?_congr {α : Type} {xs : List α} {p q : α → Bool} (h : ∀ x ∈ xs, p x = q x) :
    xs.findIdx? p = xs.findIdx? q := by
  induction xs with
  | nil => rfl
  | cons x xs ih =>
    rw [List.findIdx?_cons, List.findIdx?_cons, h x List.mem_cons_self,
      ih fun y hy => h y (List.mem_cons_of_mem x hy)]

theorem exists_function_of_constructorParams? {cls : NodeId} {params : List NodeId}
    (h : a.constructorParams? cls = some params) :
    ∃ function s, a.shape? function = some s ∧ s.params? = some params := by
  simp only [constructorParams?, Option.bind_eq_bind, Option.bind_eq_some_iff] at h
  obtain ⟨-, -, -, -, function, -, s, hs, hparams⟩ := h
  exact ⟨function, s, hs, hparams⟩

namespace Respelled

variable (h : a.Respelled a')

include h

theorem map_shape? {f : Shape NodeId → β} (hf : Shape.Blind f) (id : NodeId) :
    (a.shape? id).map f = (a'.shape? id).map f := by
  cases h.node id with
  | same hs hc => rw [hs]
  | name hr =>
    obtain ⟨name, hs, hs'⟩ := hr
    rw [hs, hs', Option.map_some, Option.map_some, hf.name]
  | bracket hs hs' hb hk ho => rw [hs, hs', Option.map_some, Option.map_some, hf.even hb]

theorem bind_shape? {f : Shape NodeId → Option β} (hf : Shape.Blind f) (id : NodeId) :
    (a.shape? id).bind f = (a'.shape? id).bind f :=
  Option.bind_congr_of_map (h.map_shape? hf id)

theorem map_shape?_of_not {f : Shape NodeId → β} (hf : Shape.Even f) (hid : ¬ a.Rewritten a' id) :
    (a.shape? id).map f = (a'.shape? id).map f := by
  cases h.node id with
  | same hs hc => rw [hs]
  | name hr => exact absurd hr hid
  | bracket hs hs' hb hk ho => rw [hs, hs', Option.map_some, Option.map_some, hf hb]

theorem bind_shape?_of_not {f : Shape NodeId → Option β} (hf : Shape.Even f)
    (hid : ¬ a.Rewritten a' id) : (a.shape? id).bind f = (a'.shape? id).bind f :=
  Option.bind_congr_of_map (h.map_shape?_of_not hf hid)

theorem children (table : FieldTable) (id : NodeId) :
    a.children table id = a'.children table id := by
  rw [children_eq_map, children_eq_map, h.map_shape? (Shape.blind_children table)]

theorem map_kind? {f : Kind → β} (hf : f .identifier = f .literal) (id : NodeId) :
    (a.kind? id).map f = (a'.kind? id).map f := by
  rw [kind?_eq_map, kind?_eq_map, Option.map_map, Option.map_map]
  exact h.map_shape? ⟨Shape.even_of_kind f, fun _ => hf⟩ id

theorem kind? (hid : ¬ a.Rewritten a' id) : a.kind? id = a'.kind? id := by
  rw [kind?_eq_map, kind?_eq_map]
  exact h.map_shape?_of_not (Shape.even_of_kind fun kind => kind) hid

theorem kind?_eq_iff {k : Kind} (hi : k ≠ .identifier) (hl : k ≠ .literal) (id : NodeId) :
    a.kind? id = some k ↔ a'.kind? id = some k := by
  have hmap := h.map_kind? (f := fun kind => decide (kind = k)) (by simp [hi.symm, hl.symm]) id
  cases hk : a.kind? id <;> cases hk' : a'.kind? id <;> simp [hk, hk'] at hmap ⊢
  exact hmap

theorem identifierName? (hid : ¬ a.Rewritten a' id) :
    a.identifierName? id = a'.identifierName? id :=
  h.bind_shape?_of_not Shape.even_identifierName? hid

theorem literalText? (hid : ¬ a.Rewritten a' id) : a.literalText? id = a'.literalText? id :=
  h.bind_shape?_of_not Shape.even_literalText? hid

theorem not_rewritten_of_operand {s : Shape NodeId} {c : NodeId} (hs : a.shape? id = some s)
    (hc : c ∈ s.operands) : ¬ a.Rewritten a' c := by
  cases h.node id with
  | same _ hkept =>
    apply hkept c
    rw [children_eq_map, hs]
    exact Shape.mem_children_of_operand hc
  | name hr =>
    obtain ⟨name, hs', -⟩ := hr
    obtain rfl := Option.some.inj (hs.symm.trans hs')
    cases hc
  | bracket hs' _ _ _ ho =>
    obtain rfl := Option.some.inj (hs.symm.trans hs')
    exact ho c hc

theorem not_rewritten_of_nameNode {s : Shape NodeId} {c : NodeId} (hs : a.shape? id = some s)
    (hk : s.kind ≠ .propertyDefinition) (hc : s.nameNode? = some c) : ¬ a.Rewritten a' c :=
  h.not_rewritten_of_operand hs (Shape.mem_operands_of_nameNode hc hk)

theorem valueKinds (value : Option NodeId) : a.valueKinds value = a'.valueKinds value := by
  cases value with
  | none => rfl
  | some id =>
    have hf := h.map_kind? (f := Kind.isFunction) rfl id
    have hc := h.map_kind? (f := Kind.isClass) rfl id
    unfold Arena.valueKinds
    cases hk : a.kind? id <;> cases hk' : a'.kind? id <;> simp_all

theorem parameterText? {function param : NodeId} {s : Shape NodeId} {params : List NodeId}
    (hs : a.shape? function = some s) (hparams : s.params? = some params) (hp : param ∈ params) :
    a.parameterText? param = a'.parameterText? param := by
  have hoperand := Shape.mem_operands_of_param hparams hp
  rw [Arena.parameterText?, Arena.parameterText?, ← h.bind_shape? Shape.blind_nameNode?]
  apply h.identifierName?
  cases hn : (a.shape? param).bind Shape.nameNode? with
  | none => exact h.not_rewritten_of_operand hs hoperand
  | some name =>
    obtain ⟨t, ht, hname⟩ := Option.bind_eq_some_iff.mp hn
    cases h.node param with
    | same _ hc =>
      apply hc
      rw [children_eq_map, ht]
      exact Shape.mem_children_of_nameNode hname
    | name hr =>
      obtain ⟨text, htext, -⟩ := hr
      obtain rfl := Option.some.inj (ht.symm.trans htext)
      cases hname
    | bracket hb hb' hbracket _ _ =>
      obtain rfl := Option.some.inj (ht.symm.trans hb)
      cases hbracket with
      | access object => cases hname
      | slot isStatic value =>
        have hchild : param ∈ a.children .full function := by
          rw [children_eq_map, hs]
          exact Shape.mem_children_of_operand hoperand
        have hkind : a.kind? param = some .propertyDefinition := by
          rw [kind?_eq_map, hb]
          rfl
        obtain ⟨kind, hk, hholds⟩ := h.slot ⟨_, _, hb, hb', .slot isStatic value⟩ hchild hkind
        rw [kind?_eq_map, hs] at hk
        cases hk
        have hno : s.kind.holdsSlots = false := by
          cases s <;> first | rfl | cases hparams
        rw [hno] at hholds
        cases hholds

theorem findParameter? {function : NodeId} {s : Shape NodeId} {params : List NodeId}
    (hs : a.shape? function = some s) (hparams : s.params? = some params) (name : String) :
    (params.find? fun p => a.parameterText? p = some name) =
      params.find? fun p => a'.parameterText? p = some name :=
  List.find?_congr fun p hp => by rw [h.parameterText? hs hparams hp]

theorem callable? (id : NodeId) : a.callable? id = a'.callable? id := by
  unfold Arena.callable?
  cases h.node id with
  | same hs _ => rw [hs]
  | name hr =>
    obtain ⟨name, hs, hs'⟩ := hr
    rw [hs, hs']
  | bracket hs hs' hb _ _ =>
    rw [hs, hs']
    cases hb <;> rfl

theorem accepts (arguments : Nat) (id : NodeId) :
    a.accepts arguments id = a'.accepts arguments id := by
  have hrest : a.isRest = a'.isRest := by
    funext p
    exact Bool.eq_iff_iff.mpr (by
      simp only [isRest, decide_eq_true_eq]
      exact h.kind?_eq_iff (k := .restElement) nofun nofun p)
  have hparams : ((a.callable? id).bind a.shape?).bind Shape.params? =
      ((a'.callable? id).bind a'.shape?).bind Shape.params? := by
    rw [h.callable?]
    cases a'.callable? id with
    | none => rfl
    | some function => exact h.bind_shape? Shape.blind_params? function
  rw [Arena.accepts, Arena.accepts, hparams, hrest]

theorem constructorParams? (cls : NodeId) :
    a.constructorParams? cls = a'.constructorParams? cls := by
  have hparts := h.bind_shape? Shape.blind_classParts? cls
  unfold Arena.constructorParams?
  simp only [Option.bind_eq_bind, ← Option.bind_assoc, hparts]
  simp only [Option.bind_assoc, h.bind_shape? Shape.blind_params?, h.children]
  refine Option.bind_congr fun s _ => Option.bind_congr fun parts _ => ?_
  refine congrArg (Option.bind · _) (congrArg (List.findSome? · _) (funext fun member => ?_))
  cases h.node member with
  | same hs _ => rw [hs]
  | name hr =>
    obtain ⟨name, hs, hs'⟩ := hr
    rw [hs, hs']
  | bracket hs hs' hb _ _ =>
    rw [hs, hs']
    cases hb <;> rfl

theorem constructorPosition? (cls : NodeId) (param : String) :
    a.constructorPosition? cls param = a'.constructorPosition? cls param := by
  unfold Arena.constructorPosition?
  rw [← h.constructorParams?]
  cases hp : a.constructorParams? cls with
  | none => rfl
  | some params =>
    obtain ⟨function, s, hs, hparams⟩ := exists_function_of_constructorParams? hp
    exact findIdx?_congr fun p hp => by rw [h.parameterText? hs hparams hp]

theorem rootBranch : a'.rootBranch = a.rootBranch := by
  rw [Arena.rootBranch, Arena.rootBranch, h.unit, h.root]

theorem below {b b' : Branch} (hb : a.Below b b') : a'.Below b b' := by
  induction hb with
  | refl b => exact .refl b
  | child hc _ ih => exact .child (h.children .full _ ▸ hc) ih

theorem branchTo (id : NodeId) : a.branchTo id = a'.branchTo id := by
  by_cases hid : id.index < a.parsedSize
  · obtain ⟨b, -, -, hb, rfl, -⟩ := h.left.exists_below hid
    have hb' : a'.Below a'.rootBranch b := h.rootBranch ▸ h.below hb
    rw [h.left.branchTo_of_below hb, h.right.branchTo_of_below hb']
  · have hsyn : a.isSynthetic id = true := decide_eq_true (Nat.le_of_not_lt hid)
    have hsyn' : a'.isSynthetic id = true :=
      decide_eq_true (h.parsedSize ▸ Nat.le_of_not_lt hid)
    rw [branchTo_of_synthetic h.left hsyn, branchTo_of_synthetic h.right hsyn']

theorem isSyntactic_go (target : NodeId) (ancestors : List NodeId) :
    isSyntactic.go a target ancestors = isSyntactic.go a' target ancestors := by
  induction ancestors generalizing target with
  | nil => rw [isSyntactic.go, isSyntactic.go, h.root]
  | cons parent above ih => rw [isSyntactic.go, isSyntactic.go, h.children, ih]

theorem anchor (b : Branch) : a.anchor b = a'.anchor b := by
  rw [Arena.anchor, Arena.anchor, isSyntactic, isSyntactic, h.isSyntactic_go, h.branchTo]

theorem preorderUpTo (n : Nat) (b : Branch) : a.preorderUpTo n b = a'.preorderUpTo n b := by
  induction n generalizing b with
  | zero => rfl
  | succ n ih => simp only [Arena.preorderUpTo, h.children, ih]

theorem preorder : a.preorder a.rootBranch = a'.preorder a'.rootBranch := by
  rw [Arena.preorder, Arena.preorder, h.size, h.rootBranch, h.preorderUpTo]

theorem leftmostUpTo (n : Nat) (b : Branch) : a.leftmostUpTo n b = a'.leftmostUpTo n b := by
  induction n generalizing b with
  | zero => rfl
  | succ n ih =>
    simp only [Arena.leftmostUpTo, h.bind_shape? Shape.blind_plainAssignment?, ih]

theorem leftmost (b : Branch) : a.leftmost b = a'.leftmost b := by
  rw [Arena.leftmost, Arena.leftmost, h.size, h.leftmostUpTo]

theorem ownNodeUpTo {accept : Kind → Bool} (hi : accept .identifier = false)
    (hl : accept .literal = false) (n : Nat) (b : Branch) :
    a.ownNodeUpTo accept n b = a'.ownNodeUpTo accept n b := by
  induction n generalizing b with
  | zero => rfl
  | succ n ih =>
    unfold Arena.ownNodeUpTo
    by_cases hr : a.Rewritten a' b.target
    · -- a rewritten key is a leaf, and neither a name nor a string is looked for
      obtain ⟨name, hs, hs'⟩ := hr
      have hk : a.kind? b.target = some .identifier := by rw [kind?_eq_map, hs]; rfl
      have hk' : a'.kind? b.target = some .literal := by rw [kind?_eq_map, hs']; rfl
      have hc : a.children .full b.target = [] := by rw [children_eq_map, hs]; rfl
      have hc' : a'.children .full b.target = [] := by rw [← h.children, hc]
      simp [hk, hk', hc, hc', hi, hl, Kind.isFunction]
    · simp only [h.kind? hr, h.children, ih]

theorem ownNode? {accept : Kind → Bool} (hi : accept .identifier = false)
    (hl : accept .literal = false) (b : Branch) : a.ownNode? accept b = a'.ownNode? accept b := by
  rw [Arena.ownNode?, Arena.ownNode?, h.size, h.ownNodeUpTo hi hl]

end Respelled

end Arena

end SquirrelAnalyzer
