import SquirrelAnalyzer.Proofs.Reachable

namespace SquirrelAnalyzer

namespace Analysis

/-- What the loaded units and the memo hold leads to nodes of loaded units, and what is recorded
under an owner is a declaration of its unit, recorded once. -/
structure Coherent (a : Analysis) : Prop where
  owner : ∀ id u, a.unit? id = some u → ∀ e ∈ u.namespaces,
    ∃ v, a.unit? e.owner.unit = some v ∧ e.owner.node.index < v.arena.size
  declaration : ∀ id u, a.unit? id = some u → ∀ e ∈ u.namespaces,
    e.declaration ∈ u.pending ∧ e.declaration.unit = id ∧
      u.arena.isSyntactic e.declaration = true ∧ Declared.Qualified u.arena e.declaration
  once : ∀ id u, a.unit? id = some u → (u.namespaces.map (·.declaration.target)).Nodup
  scope : ∀ id u, a.unit? id = some u → ∀ node, ∀ s ∈ u.scope node,
    a.program.InBounds s.declaration
  definitions : ∀ id node b, (a.memo.definitions.ofUnit id).get? node = some (some b) →
    a.program.InBounds b
  values : ∀ id node b isInstance call,
    (a.memo.values.ofUnit id).get? node = some (some (.node b isInstance call)) →
    a.program.InBounds b ∧ ∀ c, call = some c → a.program.InBounds c

variable {a : Analysis}

theorem coherent (hp : a.program.Sound) (hm : a.memo.Holds a.program.InBounds) : a.Coherent where
  owner id u hu e he := hp.owner id u hu e he
  declaration id u hu e he := by
    obtain ⟨hid, hs⟩ := hp.unit id u hu
    have hmem := (hp.recorded id u hu).subset (List.mem_map_of_mem he)
    obtain ⟨hbelow, hq⟩ := hs.pending _ hmem
    refine ⟨hmem, ?_, Arena.isSyntactic_of_below u.arena.isSyntactic_root hbelow, hq⟩
    rw [hbelow.unit_eq, ← hid, ← hs.unit]
    rfl
  once id u hu := by
    have hsub := (hp.recorded id u hu).map (·.target)
    rw [List.map_map] at hsub
    exact hsub.nodup (hp.unit id u hu).2.nodup
  scope id u hu node s hs := hp.inBounds_of_scope hu hs
  definitions id node b hb := hm .definition ⟨id, node⟩ b hb
  values id node b isInstance call hv := hm .value ⟨id, node⟩ (.node b isInstance call) hv

/-- Nothing held outlives the nodes it leads to: every state is coherent, and an edit forgets all
answers. -/
theorem coherent_of_reachable (h : a.Reachable Program.InBounds) :
    a.Coherent ∧ ∀ (e : Edit) (a' : Analysis), e.apply a = .ok a' → a'.Coherent ∧
      ∀ id, a'.memo.definitions.ofUnit id = ∅ ∧ a'.memo.values.ofUnit id = ∅ := by
  refine ⟨coherent h.sound h.holds, fun e a' he => ?_⟩
  have ha' := h.edit he
  refine ⟨coherent ha'.sound ha'.holds, fun id => ?_⟩
  rw [(sound_apply h.sound h.within he).2]
  exact ⟨RefTable.ofUnit_empty id, RefTable.ofUnit_empty id⟩

theorem coherent_of_added_unit : ∃ a a',
    ofSources {} (Imports.ofList [(⟨1⟩, ⟨0⟩)]) ["class A {}", "function A::f() { return 1; }"] =
      .ok a ∧ (Edit.add "A.f();").apply a = .ok a' ∧
    (∃ u, a'.unit? ⟨1⟩ = some u ∧ u.namespaces.length = 1) ∧ a'.Coherent ∧
    ∀ (e : Edit) (a'' : Analysis), e.apply a' = .ok a'' → a''.Coherent ∧
      ∀ id, a''.memo.definitions.ofUnit id = ∅ ∧ a''.memo.values.ofUnit id = ∅ := by
  have hbuilt : (ofSources {} (Imports.ofList [(⟨1⟩, ⟨0⟩)])
      ["class A {}", "function A::f() { return 1; }"]).toOption.any
        (fun a => ((Edit.add "A.f();").apply a).toOption.any fun a' =>
          (a'.unit? ⟨1⟩).any (·.namespaces.length = 1)) = true := by decide +kernel
  obtain ⟨a, ha, hadded⟩ := exists_ok hbuilt
  obtain ⟨a', ha', hu⟩ := exists_ok hadded
  obtain ⟨u, hu, hn⟩ := (Option.any_eq_true _ _).mp hu
  exact ⟨a, a', ha, ha', ⟨u, hu, of_decide_eq_true hn⟩,
    coherent_of_reachable (.edit (.ofSources ha) ha')⟩

end Analysis

end SquirrelAnalyzer
