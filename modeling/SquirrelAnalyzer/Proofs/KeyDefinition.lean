import SquirrelAnalyzer.Proofs.Fixpoint
import SquirrelAnalyzer.Proofs.Owner

namespace SquirrelAnalyzer

namespace Shape

variable {χ : Type}

def plainName? : Shape χ → Option χ
  | variableDeclarator id _ | functionDeclaration _ id _ _ | classDeclaration _ id _ _
  | enumDeclaration id _ | enumMember id _ => some id
  | methodDefinition _ _ key _ | propertyDefinition _ false key _ => some key
  | memberExpression _ property false | rootExpression property => some property
  | _ => none

theorem plainName?_map {β : Type} (f : χ → β) (s : Shape χ) :
    (s.map f).plainName? = s.plainName?.map f := by
  cases s with
  | propertyDefinition _ computed | memberExpression _ _ computed => cases computed <;> rfl
  | _ => rfl

theorem mem_children_of_plainName {s : Shape χ} {key : χ} (h : s.plainName? = some key) :
    key ∈ s.children .full := by
  cases s with
  | propertyDefinition isStatic computed key value =>
    cases computed <;> cases h
    simp [children, kind, Kind.fields, field]
  | memberExpression object property computed =>
    cases computed <;> cases h
    simp [children, kind, Kind.fields, field]
  | _ =>
    cases h <;> simp [children, kind, Kind.fields, field]

end Shape

theorem Tree.Fits.kind_plainName {t : Tree} {r : Role} (h : t.Fits r) :
    ∀ key, t.shape.plainName? = some key → key.shape.kind = .identifier := by
  have hname {t : Tree} (h : t.Fits .name) : t.shape.kind = .identifier := by
    cases h
    rfl
  have hproperty {t : Tree} (h : t.Fits .property) : t.shape.kind = .identifier := by
    cases h with
    | propertyName h => exact hname h
    | keyword => rfl
  induction h with
  | ofBlock _ ih | ofVariables _ ih | ofExpression _ ih | initialVariables _ ih | ofName _ ih
  | propertyName _ ih | ownerName _ ih | identifier _ ih | function _ ih => exact ih
  | declarator h | functionDeclaration _ h | classDeclaration _ h | enumDeclaration h
  | enumMember h | classMethod h | slotMethod h | ownerMember _ h =>
    rintro _ ⟨⟩
    exact hname h
  | member _ h | root h =>
    rintro _ ⟨⟩
    exact hproperty h
  | constructor | classProperty | slotProperty =>
    rintro _ ⟨⟩
    rfl
  | _ => exact nofun

namespace Arena

variable {a : Arena} {m key : NodeId} {s : Shape NodeId}

theorem Grammatical.shape?_plainName (h : a.Grammatical) (hs : a.shape? m = some s)
    (hkey : s.plainName? = some key) : ∃ name, a.shape? key = some (.identifier name) := by
  have hk : a.kind? key = some .identifier := by
    rcases h.fits hs with ⟨body, rfl⟩ | ⟨r, hfits⟩
    · cases hkey
    · have hmem : key ∈ a.children .full m :=
        children_of_shape? hs .full ▸ Shape.mem_children_of_plainName hkey
      rw [h.kind?_tree (Nat.lt_trans (h.child_lt hmem) (lt_size_of_shape? hs)),
        hfits.kind_plainName (a.tree key)]
      rw [h.shape_tree hs, Shape.plainName?_map, hkey, Option.map_some]
  rw [a.kind?_eq_map] at hk
  obtain ⟨t, ht, hk⟩ := Option.map_eq_some_iff.mp hk
  cases t with
  | identifier name => exact ⟨name, ht⟩
  | _ => cases hk

def IsKey (a : Arena) (k : NodeId) : Prop :=
  (∃ name, a.shape? k = some (.identifier name)) ∨ ∃ text, a.literalText? k = some text

theorem isKey_of_not_opaque {computed : Bool} (h : ¬ a.isOpaqueKey computed key = true)
    (hplain : computed = false → ∃ name, a.shape? key = some (.identifier name)) : a.IsKey key := by
  cases computed with
  | false => exact .inl (hplain rfl)
  | true =>
    cases htext : a.literalText? key with
    | none => exact absurd (by simp [isOpaqueKey, htext]) h
    | some text => exact .inr ⟨text, htext⟩

end Arena

namespace Declared

variable {a : Arena} {b : Branch} {x : Binding} {ids : List NodeId}

theorem isKey_binds {m : NodeId} {d : Declared} (hd : Binds a b m d) (hx : x ∈ d.bindings) :
    a.IsKey x.key := by
  cases hd with
  | nothing => cases hx
  | plain hs =>
    rw [List.mem_singleton.mp hx]
    exact .inl ⟨_, hs⟩
  | defaulted _ hname =>
    rw [List.mem_singleton.mp hx]
    exact .inl ⟨_, Arena.shape?_of_identifierName? hname⟩

theorem isKey_joinAll {declare : NodeId → Declared} (hdeclare : ∀ m, Binds a b m (declare m))
    (hx : x ∈ (joinAll (ids.map declare)).bindings) : a.IsKey x.key := by
  rw [bindings_joinAll] at hx
  obtain ⟨d, hd, hx⟩ := List.mem_flatMap.mp hx
  obtain ⟨m, -, rfl⟩ := List.mem_map.mp hd
  exact isKey_binds (hdeclare m) hx

theorem isKey_ofBranch (h : a.Grammatical) (hx : x ∈ (ofBranch a b).bindings) :
    a.IsKey x.key := by
  unfold ofBranch at hx
  split at hx
  case h_2 => cases hx
  next s hs =>
  have hplain {m key : NodeId} {s : Shape NodeId} (hs : a.shape? m = some s)
      (hkey : s.plainName? = some key) : a.IsKey key := .inl (h.shape?_plainName hs hkey)
  cases s with
  | variableDeclarator | classDeclaration | enumDeclaration | enumMember | methodDefinition =>
    rw [List.mem_singleton.mp hx]
    exact hplain hs rfl
  | functionDeclaration qualifier id params body =>
    rcases List.mem_append.mp hx with hx | hx
    · exact isKey_joinAll (binds_parameter a b) hx
    · rw [List.mem_singleton.mp hx]
      exact hplain hs rfl
  | functionExpression | lambdaExpression => exact isKey_joinAll (binds_parameter a b) hx
  | foreachStatement => exact @isKey_joinAll _ _ _ (_ ++ [_]) _ (binds_loopVariable a b) hx
  | tryStatement => exact isKey_joinAll (binds_loopVariable a b) hx
  | propertyDefinition isStatic computed key value =>
    simp only [ofShape] at hx
    split at hx
    · cases hx
    · next hnamed =>
      rw [List.mem_singleton.mp hx]
      refine Arena.isKey_of_not_opaque hnamed fun hcomputed => ?_
      exact h.shape?_plainName hs (by rw [hcomputed]; rfl)
  | assignmentExpression operator left right =>
    cases operator with
    | newSlot =>
      simp only [ofShape, Arena.newSlot] at hx
      split at hx
      · next name hl =>
        rw [List.mem_singleton.mp hx]
        exact .inl ⟨name, hl⟩
      · next property hl =>
        rw [List.mem_singleton.mp hx]
        exact hplain hl rfl
      · next object property computed hl =>
        split at hx
        · cases hx
        · next hnamed =>
          rw [List.mem_singleton.mp hx]
          refine Arena.isKey_of_not_opaque hnamed fun hcomputed => ?_
          exact h.shape?_plainName hl (by rw [hcomputed]; rfl)
      · cases hx
    | _ => cases hx
  | _ => cases hx

end Declared

namespace SourceUnit

variable {u : SourceUnit} {config : Config} {a : Arena} {k d : NodeId}

theorem declarations_build (config : Config) (id : UnitId) (a : Arena) (hk : k.index < a.size) :
    (build config id a).facts.declarations.get? k =
      (ofArena config { a with unit := id }).facts.declarations.get? k := by
  have h : a.size ≤ (build config id a).arena.size ∧
      (build config id a).facts.declarations.get? k =
        (ofArena config { a with unit := id }).facts.declarations.get? k := by
    refine attachComments_induction (motive := fun u => a.size ≤ u.arena.size ∧
      u.facts.declarations.get? k =
        (ofArena config { a with unit := id }).facts.declarations.get? k) ?_ ?_ ?_ config
    · rintro u f ⟨hsize, hu⟩ hnames
      refine ⟨hsize, ?_⟩
      rw [mapFacts, hnames.declarations, hu]
    · rintro u cls name tag location ⟨hsize, hu⟩
      refine ⟨Nat.le_trans hsize (u.extends_addMeta cls name tag location).size, ?_⟩
      have hne : k ≠ ⟨u.arena.size⟩ := by
        rintro rfl
        exact Nat.not_lt_of_le hsize hk
      rw [← hu]
      exact (NodeTable.get?_insert ..).trans (if_neg hne)
    · exact ⟨Nat.le_refl _, rfl⟩
  exact h.2

theorem declaration?_build (config : Config) (id : UnitId) (a : Arena) (hk : k.index < a.size) :
    (build config id a).declaration? k = (ofArena config { a with unit := id }).declaration? k := by
  rw [declaration?, declaration?, declarations_build config id a hk]

theorem isKey_of_declaration? (h : a.Grammatical)
    (hd : (ofArena config a).declaration? k = some d) : a.IsKey k ∧ d.index < a.size := by
  have hspells := spells_of_declaration? hd
  obtain ⟨b, -, x, hx, rfl, rfl⟩ := exists_binding hd
  have hkey := Declared.isKey_ofBranch h hx
  refine ⟨hkey, ?_⟩
  rcases hspells with he | hchild | ⟨c, hc, -⟩
  · rw [← he]
    rcases hkey with ⟨name, hs⟩ | ⟨text, htext⟩
    · exact Arena.lt_size_of_shape? hs
    · obtain ⟨s, hs, -⟩ := Option.bind_eq_some_iff.mp htext
      exact Arena.lt_size_of_shape? hs
  · exact Arena.index_lt_of_children hchild
  · exact Arena.index_lt_of_children hc

end SourceUnit

namespace Program

variable {p : Program} {u : SourceUnit} {b c : Branch}

theorem Sound.exists_branchTo (hp : p.Sound) {id : UnitId} (hu : p.unit? id = some u) {k : NodeId}
    (hk : k.index < u.arena.parsedSize) : ∃ b, u.arena.branchTo k = some b ∧ b.target = k ∧
      u.arena.Below u.arena.rootBranch b ∧ p.unit? b.unit = some u ∧ p.anchor b = b := by
  obtain ⟨hid, hsound⟩ := hp.unit id u hu
  obtain ⟨b, -, -, hb, rfl, -⟩ := hsound.rooted.exists_below hk
  have hunit : p.unit? b.unit = some u := by
    rw [hb.unit_eq]
    show p.unit? u.arena.unit = some u
    rw [hsound.unit, hid, hu]
  refine ⟨b, hsound.rooted.branchTo_of_below hb, rfl, hb, hunit, ?_⟩
  rw [anchor_of_unit hunit]
  exact if_pos (Arena.isSyntactic_of_below u.arena.isSyntactic_root hb)

theorem Sound.declared?_eq (hp : p.Sound) {id : UnitId} (hu : p.unit? id = some u)
    (hb : u.arena.Below u.arena.rootBranch b) (hd : u.declaration? b.target = some c.target)
    (hc : u.arena.branchTo c.target = some c) : Resolve.declared? u b = some (some c) := by
  have hsyntactic := Arena.isSyntactic_of_below u.arena.isSyntactic_root hb
  simp only [Resolve.declared?, hd, Option.map_some, hc]
  cases hfind : b.upward.find? (·.target = c.target) with
  | none => rfl
  | some e =>
    have hmem := List.mem_of_find?_eq_some hfind
    have htarget : e.target = c.target := by simpa using List.find?_some hfind
    have hunit : e.unit = u.arena.unit := (Branch.unit_of_mem_upward hmem).trans hb.unit_eq
    have he : u.arena.branchTo e.target = some e :=
      (hp.unit id u hu).2.rooted.branchTo_of_below
        (Arena.Rooted.below_of_syntactic hunit (Arena.isSyntactic_of_mem_upward hsyntactic hmem))
    rw [htarget, hc] at he
    rw [Option.some_or, he]

end Program

namespace Analysis

variable {asked : Program → Branch → Prop} {a : Analysis} {u : SourceUnit} {k d : NodeId}

theorem Reachable.written_of_declaration? (h : a.Reachable asked) {id : UnitId}
    (hu : a.unit? id = some u) (hd : u.declaration? k = some d)
    (hk : u.arena.isSynthetic k = false) :
    u.arena.IsKey k ∧ k.index < u.arena.parsedSize ∧ d.index < u.arena.parsedSize := by
  obtain ⟨source, base, ha, namespaces, outline, rfl⟩ := h.assembled.exists_build hu
  have hr := SourceUnit.readFrom_build ha a.program.config id namespaces outline
  have hext := hr.unit.arena
  have hparsed : _ = base.size := hext.parsedSize.trans hr.parsed.whole
  have hklt : k.index < base.size := hparsed ▸ Nat.lt_of_not_le (of_decide_eq_false hk)
  have hd : (SourceUnit.build a.program.config id base).declaration? k = some d := hd
  rw [SourceUnit.declaration?_build _ _ _ hklt] at hd
  obtain ⟨hkey, hdlt⟩ := SourceUnit.isKey_of_declaration? hr.grammatical hd
  refine ⟨?_, hparsed ▸ hklt, hparsed ▸ hdlt⟩
  have hshape : (SourceUnit.build a.program.config id base).arena.shape? k = base.shape? k :=
    hext.shape?_eq hklt
  unfold Arena.IsKey Arena.literalText?
  rw [hshape]
  exact hkey

/-- The name of a declaration is defined by the declaration if it is a plain name. A name that is
written as a string has no definition, although it is declared like a plain one. -/
theorem definition_key (h : a.Reachable asked) (hdepth : 0 < a.program.config.maxDepth)
    {id : UnitId} (hu : a.unit? id = some u) (hd : u.declaration? k = some d)
    (hk : u.arena.isSynthetic k = false) :
    ∃ b c, u.arena.branchTo k = some b ∧ u.arena.branchTo d = some c ∧
      ((∃ name, u.arena.shape? k = some (.identifier name)) ∧ ((definition b).run a).1 = some c ∨
        (∃ text, u.arena.literalText? k = some text) ∧ ((definition b).run a).1 = none) := by
  obtain ⟨hkey, hkparsed, hdparsed⟩ := h.written_of_declaration? hu hd hk
  obtain ⟨b, hb, rfl, hbelow, hunit, hanchor⟩ := h.sound.exists_branchTo hu hkparsed
  obtain ⟨c, hc, rfl, -⟩ := h.sound.exists_branchTo hu hdparsed
  refine ⟨b, c, hb, hc, ?_⟩
  rcases hkey with ⟨name, hs⟩ | ⟨text, htext⟩
  · refine .inl ⟨⟨name, hs⟩, ?_⟩
    have hslot : a.program.HasSlot .definition b :=
      ⟨.identifier, by rw [Program.kind?, Program.shape?_of_unit? hunit hs]; rfl, rfl⟩
    refine Program.run_answer_immediate (P := fun o => o = some c) h.grown hslot hdepth
      fun b' href => ⟨some c, rfl, fun ask => ?_⟩
    have hpath : a.program.anchor b' = b :=
      (Program.anchor_of_written h.sound hunit href hk).trans hanchor
    show Resolve.definitionStep a.program ask (a.program.anchor b') = _
    rw [hpath, Resolve.definitionStep, hunit, Resolve.bind_ofOption_some, hs,
      Resolve.bind_ofOption_some]
    simp only [h.sound.declared?_eq hu hbelow hd hc]
  · refine .inr ⟨⟨text, htext⟩, ?_⟩
    obtain ⟨s, hs, htext⟩ := Option.bind_eq_some_iff.mp htext
    have hkind : a.program.kind? b = some .literal := by
      rw [Program.kind?, Program.shape?_of_unit? hunit hs]
      cases s with
      | literal => rfl
      | _ => cases htext
    have hready : a.program.ready? .definition b = some none := by
      rw [Program.ready?, Program.subject_of_kind_ne hkind (by decide), hkind]
      rfl
    show ((a.program.answer .definition b).run.run ⟨{}, a.memo⟩).1 = none
    rw [Program.answer, Program.answerWithin_of_ready hready]
    rfl

theorem definition_key_plain : ∃ a u,
    ofSources {} Imports.none ["local t = \x7b x = 1, \"y\": 2 \x7d;"] = .ok a ∧
    0 < a.program.config.maxDepth ∧ a.unit? ⟨0⟩ = some u ∧ u.declaration? ⟨1⟩ = some ⟨3⟩ ∧
    u.arena.isSynthetic ⟨1⟩ = false ∧
    ∃ b c, u.arena.branchTo ⟨1⟩ = some b ∧ u.arena.branchTo ⟨3⟩ = some c ∧
      ((∃ name, u.arena.shape? ⟨1⟩ = some (.identifier name)) ∧ ((definition b).run a).1 = some c ∨
        (∃ text, u.arena.literalText? ⟨1⟩ = some text) ∧ ((definition b).run a).1 = none) := by
  have hbuilt : (ofSources {} Imports.none ["local t = \x7b x = 1, \"y\": 2 \x7d;"]).toOption.any
      (fun a => (a.unit? ⟨0⟩).any fun u => decide (0 < a.program.config.maxDepth ∧
        u.declaration? ⟨1⟩ = some ⟨3⟩ ∧ u.arena.isSynthetic ⟨1⟩ = false)) = true := by
    decide +kernel
  obtain ⟨a, ha, h⟩ := exists_ok hbuilt
  obtain ⟨u, hu, h⟩ := (Option.any_eq_true _ _).mp h
  obtain ⟨hdepth, hd, hk⟩ := of_decide_eq_true h
  have hreachable : a.Reachable fun _ _ => True := .ofSources ha
  exact ⟨a, u, ha, hdepth, hu, hd, hk, definition_key hreachable hdepth hu hd hk⟩

theorem definition_key_string : ∃ a u b c,
    ofSources {} Imports.none ["local t = \x7b x = 1, \"y\": 2 \x7d;"] = .ok a ∧
    0 < a.program.config.maxDepth ∧ a.unit? ⟨0⟩ = some u ∧ u.declaration? ⟨4⟩ = some ⟨6⟩ ∧
    u.arena.isSynthetic ⟨4⟩ = false ∧ u.arena.branchTo ⟨4⟩ = some b ∧
    u.arena.branchTo ⟨6⟩ = some c ∧ ((definition b).run a).1 ≠ some c := by
  let b : Branch := ⟨⟨0⟩, ⟨4⟩, [⟨6⟩, ⟨7⟩, ⟨8⟩, ⟨9⟩, ⟨10⟩]⟩
  let c : Branch := ⟨⟨0⟩, ⟨6⟩, [⟨7⟩, ⟨8⟩, ⟨9⟩, ⟨10⟩]⟩
  have hbuilt : (ofSources {} Imports.none ["local t = \x7b x = 1, \"y\": 2 \x7d;"]).toOption.any
      (fun a => (a.unit? ⟨0⟩).any fun u => decide (0 < a.program.config.maxDepth ∧
        u.declaration? ⟨4⟩ = some ⟨6⟩ ∧ u.arena.isSynthetic ⟨4⟩ = false ∧
        u.arena.branchTo ⟨4⟩ = some b ∧ u.arena.branchTo ⟨6⟩ = some c ∧
        ((definition b).run a).1 ≠ some c)) = true := by decide +kernel
  obtain ⟨a, ha, h⟩ := exists_ok hbuilt
  obtain ⟨u, hu, h⟩ := (Option.any_eq_true _ _).mp h
  obtain ⟨hdepth, hd, hk, hb, hc, hnone⟩ := of_decide_eq_true h
  exact ⟨a, u, b, c, ha, hdepth, hu, hd, hk, hb, hc, hnone⟩

end Analysis

end SquirrelAnalyzer
