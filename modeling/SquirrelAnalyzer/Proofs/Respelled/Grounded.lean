import SquirrelAnalyzer.Proofs.Respelled.Declared

namespace SquirrelAnalyzer

theorem Shape.mem_operands_of_boundName {χ : Type} {s : Shape χ} {c : χ} (h : c ∈ s.boundNames) :
    c ∈ s.operands := by
  have hc := mem_children_of_boundName h
  cases s <;> first | exact hc | cases h

namespace Arena

variable {a a' : Arena} {id : NodeId}

def Stands (a : Arena) (id : NodeId) : Prop :=
  (∃ kind, a.kind? id = some kind ∧ kind ≠ .identifier) ∨
    ∃ parent s, a.shape? parent = some s ∧ id ∈ s.operands

theorem stands_of_shape? {s : Shape NodeId} (hs : a.shape? id = some s)
    (hk : s.kind ≠ .identifier) : a.Stands id := by
  refine .inl ⟨s.kind, ?_, hk⟩
  rw [kind?_eq_map, hs]
  rfl

theorem Respelled.not_rewritten_of_stands (h : a.Respelled a') (hs : a.Stands id) :
    ¬ a.Rewritten a' id := by
  rcases hs with ⟨kind, hk, hne⟩ | ⟨parent, s, hs, hc⟩
  · exact not_rewritten_of_kind hk hne
  · exact h.not_rewritten_of_operand hs hc

theorem Extends.stands (h : a.Extends a') (hs : a.Stands id) : a'.Stands id := by
  rcases hs with ⟨kind, hk, hne⟩ | ⟨parent, s, hs, hc⟩
  · exact .inl ⟨kind, h.kind?_eq hk, hne⟩
  · exact .inr ⟨parent, s, (h.shape?_eq (lt_size_of_shape? hs)).trans hs, hc⟩

end Arena

namespace Declared

variable {a : Arena} {b : Branch} {d d' : Declared}

structure Stands (a : Arena) (d : Declared) : Prop where
  bindings : ∀ x ∈ d.bindings, a.Stands x.declaration.declaring
  visible : ∀ x ∈ d.visible, a.Stands x.2.declaration.target

theorem stands_binds {s : Shape NodeId} {m : NodeId} (hs : a.shape? b.target = some s)
    (hm : m ∈ s.boundNames) (hd : Binds a b m d) : Stands a d := by
  have h : a.Stands m := .inr ⟨b.target, _, hs, Shape.mem_operands_of_boundName hm⟩
  cases hd with
  | nothing => exact ⟨nofun, nofun⟩
  | plain | defaulted =>
    refine ⟨fun x hx => ?_, fun x hx => ?_⟩
    · rw [List.mem_singleton.mp hx]
      exact h
    · rw [List.mem_singleton.mp hx]
      exact h

theorem stands_names {s : Shape NodeId} {key : NodeId} (hs : a.shape? b.target = some s)
    (hdeclaration : s.isDeclaration = true) (h : Names a b key d) : Stands a d := by
  have hb : a.Stands b.target := by
    refine Arena.stands_of_shape? hs fun hk => ?_
    cases s with
    | identifier => cases hdeclaration
    | _ => cases hk
  refine ⟨fun x hx => ?_, fun x hx => ?_⟩
  · rw [(h.binding_eq hx).2]
    exact hb
  · rw [h.declaration_eq hx]
    exact hb

theorem stands_parts (a : Arena) (b : Branch) : Parts a b (Stands a) where
  empty := ⟨nofun, nofun⟩
  join h h' := by
    refine ⟨fun x hx => ?_, fun x hx => ?_⟩
    · exact (List.mem_append.mp hx).elim (h.bindings x) (h'.bindings x)
    · exact (List.mem_append.mp hx).elim (h.visible x) (h'.visible x)
  own hs hdeclaration _ _ h := stands_names hs hdeclaration h
  below hs hdeclaration _ _ _ _ _ h := stands_names hs hdeclaration h
  parameter hs hp := stands_binds hs hp (binds_parameter ..)
  loopVariable hs hb := stands_binds hs hb (binds_loopVariable ..)

theorem stands_ofBranch (a : Arena) (b : Branch) : Stands a (ofBranch a b) := (stands_parts a b).ofBranch

end Declared

namespace SourceUnit

structure Grounded (u : SourceUnit) : Prop where
  nested : u.arena.Nested
  scopes : ∀ {id s}, s ∈ u.scope id →
    u.arena.Below u.arena.rootBranch s.declaration ∧ u.arena.Stands s.declaration.target
  declarations : ∀ {k m}, u.declaration? k = some m → u.arena.Stands m
  metas : ∀ {cls properties m}, u.facts.metas.get? cls = some properties → m ∈ properties →
    u.arena.kind? m = some .metaProperty
  getters : ∀ {id m}, (u.facts.accessors.get? id).bind (·.getter) = some m →
    u.arena.kind? m = some .methodDefinition
  aliases : ∀ {cls name}, u.facts.aliases.get? cls = some name → u.arena.Stands cls

theorem grounded_ofArena (config : Config) {a : Arena} (hn : a.Nested) :
    (ofArena config a).Grounded where
  nested := hn
  scopes {id s} hs := by
    obtain ⟨b, -, hd, hbelow⟩ := exists_visible hs
    exact ⟨hbelow, (Declared.stands_ofBranch a b).visible _ hd⟩
  declarations {k m} hk := by
    obtain ⟨b, -, x, hx, -, rfl⟩ := exists_binding hk
    exact (Declared.stands_ofBranch a b).bindings x hx
  metas h := by
    rw [show (ofArena config a).facts.metas = ∅ from rfl, NodeTable.get?_empty] at h
    cases h
  getters h := by
    rw [show (ofArena config a).facts.accessors = ∅ from rfl, NodeTable.get?_empty] at h
    cases h
  aliases h := by
    rw [show (ofArena config a).facts.aliases = ∅ from rfl, NodeTable.get?_empty] at h
    cases h

end SourceUnit

end SquirrelAnalyzer
