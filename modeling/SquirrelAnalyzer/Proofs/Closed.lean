import SquirrelAnalyzer.Proofs.Plan

namespace SquirrelAnalyzer

namespace Shape

variable {χ : Type} {s : Shape χ} {c : χ}

def operands : Shape χ → List χ
  | memberExpression object _ _ => [object]
  | propertyDefinition _ _ _ value => value.toList
  | s => s.children .full

theorem mem_children_of_operand (h : c ∈ s.operands) : c ∈ s.children .full := by
  cases s with
  | memberExpression object property computed =>
    rw [List.mem_singleton.mp h]
    simp [children, kind, Kind.fields, field]
  | propertyDefinition isStatic computed key value =>
    exact List.mem_cons_of_mem key (List.mem_append_left [] h)
  | _ => exact h

theorem mem_operands_of_superclass {body : χ} (h : s.classParts? = some (some c, body)) :
    c ∈ s.operands := by
  cases s <;> simp [classParts?] at h
  all_goals simp [h, operands, children, kind, Kind.fields, field]

theorem mem_children_of_classBody {superclass : Option χ} (h : s.classParts? = some (superclass, c)) :
    c ∈ s.children .full := by
  cases s <;> simp [classParts?] at h
  all_goals simp [h, children, kind, Kind.fields, field]

theorem mem_operands_of_functionBody (h : s.functionBody? = some c) : c ∈ s.operands := by
  cases s <;> simp [functionBody?] at h
  all_goals simp [h, operands, children, kind, Kind.fields, field]

theorem mem_operands_of_argument {callee : χ} {arguments : List χ}
    (h : s.call? = some (callee, arguments)) (hc : c ∈ arguments) : c ∈ s.operands := by
  cases s <;> simp [call?] at h
  simp [h, hc, operands, children, kind, Kind.fields, field]

theorem mem_operands_of_plainAssignment {right : χ} (h : s.plainAssignment? = some (c, right)) :
    c ∈ s.operands := by
  cases s with
  | assignmentExpression op left r =>
    cases op <;> simp [plainAssignment?] at h <;>
      simp [h.1, operands, children, kind, Kind.fields, field]
  | _ => simp [plainAssignment?] at h

end Shape

namespace Kind

def isKeyOrMember : Kind → Bool
  | identifier | literal | enumMember => true
  | _ => false

theorem isKeyOrMember_of_isScope {kind : Kind} (h : kind.isScope = true) :
    kind.isKeyOrMember = false := by
  cases kind <;> first | rfl | cases h

theorem isKeyOrMember_of_isClass {kind : Kind} (h : kind.isClass = true) :
    kind.isKeyOrMember = false := by
  cases kind <;> first | rfl | cases h

end Kind

def Program.Inner (p : Program) (b : Branch) : Prop :=
  ∃ kind, p.kind? b = some kind ∧ kind.isKeyOrMember = false

def Program.DeclaresIn (p : Program) (I : Branch → Prop) (b : Branch) : Prop :=
  ∀ u name d, p.unit? b.unit = some u → u.arena.shape? b.target = some (.identifier name) →
    Resolve.declared? u b = some (some d) → I d

structure Program.FullyClosed (p : Program) (I : Branch → Prop) : Prop where
  child : ∀ {b u c}, I b → p.unit? b.unit = some u → c ∈ u.arena.children .full b.target →
    I (b.child c)
  enclosing : ∀ {b e}, I b → e ∈ b.enclosing → I e.1
  branchTo : ∀ {b b' u id}, I b → p.unit? b.unit = some u → u.arena.branchTo id = some b' → I b'
  scope : ∀ {b u id s}, I b → p.unit? b.unit = some u → s ∈ u.scope id → I s.declaration
  imported : ∀ {b d name arity}, I b → p.imported? b.unit name arity = some d → I d
  ownMember : ∀ {b m}, I b → m ∈ p.ownMembers b → I m.2
  aliased : ∀ {b name}, p.aliased? name = some b → I b

structure Program.Closed (p : Program) (I : Branch → Prop) : Prop where
  childOf : ∀ {b s c}, I b → p.shape? b = some s → c ∈ s.operands → I (b.child c)
  own : ∀ {b b' u}, I b → p.unit? b.unit = some u →
    u.arena.ownNode? (· = .returnStatement) b = some b' → I b'
  enclosing : ∀ {b e}, I b → e ∈ b.enclosing → p.Inner e.1 → I e.1
  anchor : ∀ {b}, I b → I (p.anchor b)
  declared? : ∀ {b}, I b → p.DeclaresIn I (p.anchor b)
  getter : ∀ {b b' u method}, I b → p.unit? b.unit = some u →
    (u.facts.accessors.get? b.target).bind (·.getter) = some method →
    u.arena.branchTo method = some b' → I b'
  scope : ∀ {b u id s}, I b → p.unit? b.unit = some u → s ∈ u.scope id → I s.declaration
  imported : ∀ {b d name arity}, I b → p.imported? b.unit name arity = some d → I d
  ownMember : ∀ {b m}, I b → m ∈ p.ownMembers b → I m.2
  aliased : ∀ {b name}, p.aliased? name = some b → I b

namespace Program

variable {p : Program} {I : Branch → Prop}

theorem fullyClosed_true (p : Program) : p.FullyClosed fun _ => True := by
  constructor <;> intros <;> trivial

theorem unit_of_ownNodeUpTo {a : Arena} {accept : Kind → Bool} {n : Nat} {b found : Branch}
    (h : a.ownNodeUpTo accept n b = some found) : found.unit = b.unit := by
  induction n generalizing b with
  | zero => simp [Arena.ownNodeUpTo] at h
  | succ n ih =>
    simp only [Arena.ownNodeUpTo] at h
    split at h
    · simp at h
    · split at h
      · cases h
        rfl
      · split at h
        · simp at h
        · obtain ⟨c, -, h⟩ := List.exists_of_findSome?_eq_some h
          exact ih (b := b.child c) h

theorem unit?_of_shape? {b : Branch} {s : Shape NodeId} (h : p.shape? b = some s) :
    ∃ u, p.unit? b.unit = some u ∧ u.arena.shape? b.target = some s :=
  Option.bind_eq_some_iff.mp h

theorem shape?_of_unit? {u : SourceUnit} {b : Branch} {s : Shape NodeId}
    (hu : p.unit? b.unit = some u) (hs : u.arena.shape? b.target = some s) : p.shape? b = some s := by
  simp [Program.shape?, hu, hs]

theorem inner_of_shape? {b : Branch} {s : Shape NodeId} (hs : p.shape? b = some s)
    (hk : s.kind.isKeyOrMember = false) : p.Inner b :=
  ⟨s.kind, by rw [kind?, hs]; rfl, hk⟩

theorem inner_of_classParts {b : Branch} {s : Shape NodeId} {parts : Option NodeId × NodeId}
    (hs : p.shape? b = some s) (hparts : s.classParts? = some parts) : p.Inner b := by
  apply inner_of_shape? hs
  cases s <;> first | rfl | cases hparts

theorem inner_of_isScope {b : Branch} (h : ((p.kind? b).map Kind.isScope).getD false = true) :
    p.Inner b := by
  cases hk : p.kind? b with
  | none =>
    rw [hk] at h
    cases h
  | some kind =>
    rw [hk] at h
    exact ⟨kind, hk, Kind.isKeyOrMember_of_isScope h⟩

theorem inner_of_isPropertyOf {b : Branch} {s : Shape NodeId} {id : NodeId}
    (hs : p.shape? b = some s) (h : Resolve.isPropertyOf id s = true) : p.Inner b := by
  apply inner_of_shape? hs
  cases s <;> first | rfl | cases h

theorem mem_children_of_operand {b : Branch} {s : Shape NodeId} {c : NodeId}
    (hs : p.shape? b = some s) (hc : c ∈ s.operands) :
    ∃ u, p.unit? b.unit = some u ∧ c ∈ u.arena.children .full b.target := by
  obtain ⟨u, hu, hsu⟩ := unit?_of_shape? hs
  obtain ⟨n, hn, rfl⟩ := Option.map_eq_some_iff.mp hsu
  refine ⟨u, hu, ?_⟩
  simpa [Arena.children, Node.children, hn] using Shape.mem_children_of_operand hc

namespace FullyClosed

variable {u : SourceUnit} {b b' : Branch}

theorem upward (h : p.FullyClosed I) (hb : I b) (hc : b' ∈ b.upward) : I b' := by
  rcases List.mem_cons.mp hc with rfl | hc
  · exact hb
  · obtain ⟨e, he, rfl⟩ := List.mem_map.mp hc
    exact h.enclosing hb he

theorem anchor (h : p.FullyClosed I) (hb : I b) : I (p.anchor b) := by
  unfold Program.anchor
  split
  · next u hu =>
    unfold Arena.anchor
    split
    · exact hb
    · cases ht : u.arena.branchTo b.target with
      | none => exact hb
      | some b' => exact h.branchTo hb hu ht
  · exact hb

theorem ownNodeUpTo (h : p.FullyClosed I) {accept : Kind → Bool} {n : Nat} (hb : I b)
    (hu : p.unit? b.unit = some u) (hf : u.arena.ownNodeUpTo accept n b = some b') : I b' := by
  induction n generalizing b with
  | zero => simp [Arena.ownNodeUpTo] at hf
  | succ n ih =>
    simp only [Arena.ownNodeUpTo] at hf
    split at hf
    · simp at hf
    · split at hf
      · cases hf
        exact hb
      · split at hf
        · simp at hf
        · obtain ⟨c, hc, hf⟩ := List.exists_of_findSome?_eq_some hf
          exact ih (h.child hb hu hc) hu hf

theorem closed (h : p.FullyClosed I) : p.Closed I where
  childOf hb hs hc := by
    obtain ⟨u, hu, hc⟩ := mem_children_of_operand hs hc
    exact h.child hb hu hc
  own hb hu hf := h.ownNodeUpTo hb hu hf
  enclosing hb he _ := h.enclosing hb he
  anchor := h.anchor
  declared? hb u name d hu _ hd := by
    obtain ⟨id, -, hd⟩ := Option.map_eq_some_iff.mp hd
    rcases Option.or_eq_some_iff.mp hd with hd | ⟨-, hd⟩
    · exact h.upward (h.anchor hb) (List.mem_of_find?_eq_some hd)
    · exact h.branchTo (h.anchor hb) hu hd
  getter hb hu _ hd := h.branchTo hb hu hd
  scope := h.scope
  imported := h.imported
  ownMember := h.ownMember
  aliased := h.aliased

end FullyClosed

theorem closed_true (p : Program) : p.Closed fun _ => True := p.fullyClosed_true.closed

theorem mem_of_variation? {arity : Option Nat} {candidates : List Branch} {b : Branch}
    (h : p.variation? arity candidates = some b) : b ∈ candidates := by
  unfold variation? at h
  dsimp only at h
  rcases Option.or_eq_some_iff.mp h with h | ⟨-, h⟩
  · split at h
    · exact List.mem_of_find?_eq_some h
    · simp at h
  · exact List.mem_of_mem_head? h

theorem mem_of_scoped? {scope : List ScopedName} {name : String} {arity : Option Nat} {b : Branch}
    (h : p.scoped? scope name arity = some b) :
    ∃ s ∈ scope, s.name = name ∧ s.declaration = b := by
  obtain ⟨s, hs, rfl⟩ := List.mem_map.mp (mem_of_variation? h)
  obtain ⟨hs, hname⟩ := List.mem_filter.mp hs
  exact ⟨s, hs, of_decide_eq_true hname, rfl⟩

theorem Closed.ownMember? (h : p.Closed I) {owner b : Branch} {name : String} {arity : Option Nat}
    (ho : I owner) (hb : p.ownMember? name arity owner = some b) : I b := by
  obtain ⟨m, hm, rfl⟩ := List.mem_map.mp (mem_of_variation? hb)
  exact h.ownMember ho (List.mem_filter.mp hm).1

theorem Closed.augmented? (h : p.Closed I) {cls call b : Branch} (hcall : I call)
    (hb : p.augmented? cls call = some b) : I b := by
  simp only [Program.augmented?, Option.bind_eq_bind, Option.bind_eq_some_iff, Option.pure_def,
    Option.some.injEq] at hb
  obtain ⟨u, -, _, -, index, -, s, hs, ⟨callee, arguments⟩, hc, argument, ha, rfl⟩ := hb
  exact h.childOf hcall hs (Shape.mem_operands_of_argument hc (List.mem_of_getElem? ha))

theorem Closed.rootName? (h : p.Closed I) {b d : Branch} {name : String} (hb : I b)
    (hd : p.rootName? b.unit name = some d) : I d := by
  rcases Option.or_eq_some_iff.mp hd with hd | ⟨-, hd⟩
  · obtain ⟨u, hu, hd⟩ := Option.bind_eq_some_iff.mp hd
    obtain ⟨s, hs, -, rfl⟩ := mem_of_scoped? hd
    exact h.scope hb hu hs
  · exact h.imported hb hd

theorem mem_enclosing_of_parentBranch? {b parent : Branch} (hp : b.parentBranch? = some parent) :
    (parent, b.target) ∈ b.enclosing := by
  obtain ⟨unit, target, ancestors⟩ := b
  cases ancestors with
  | nil => simp [Branch.parentBranch?] at hp
  | cons a as =>
    obtain rfl : ⟨unit, a, as⟩ = parent := by simpa [Branch.parentBranch?] using hp
    simp [Branch.enclosing, Branch.enclosing.go]

theorem Closed.parentBranch? (h : p.Closed I) {b parent : Branch} (hb : I b)
    (hp : b.parentBranch? = some parent) (hi : p.Inner parent) : I parent :=
  h.enclosing (e := (parent, b.target)) hb (mem_enclosing_of_parentBranch? hp) hi

theorem Closed.leftmostUpTo (h : p.Closed I) {u : SourceUnit} {n : Nat} {b : Branch} (hb : I b)
    (hu : p.unit? b.unit = some u) : I (u.arena.leftmostUpTo n b) := by
  induction n generalizing b with
  | zero => exact hb
  | succ n ih =>
    simp only [Arena.leftmostUpTo]
    split
    · next left right hl =>
      obtain ⟨s, hs, hl⟩ := Option.bind_eq_some_iff.mp hl
      have hc := h.childOf hb (shape?_of_unit? hu hs) (Shape.mem_operands_of_plainAssignment hl)
      exact ih hc hu
    · exact hb

theorem Closed.subject (h : p.Closed I) {q : Query} {b : Branch} (hb : I b) : I (p.subject q b) := by
  cases q with
  | value => exact hb
  | definition =>
    simp only [Program.subject]
    split
    · next u hu => exact h.leftmostUpTo hb hu
    · exact hb

end Program

end SquirrelAnalyzer
