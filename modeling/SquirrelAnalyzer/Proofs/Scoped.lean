import SquirrelAnalyzer.Proofs.Filed
import SquirrelAnalyzer.Proofs.Keyed
import SquirrelAnalyzer.Proofs.Owner

namespace SquirrelAnalyzer

namespace Shape

variable {χ : Type} {s : Shape χ}

theorem boundNames_sublist (s : Shape χ) : s.boundNames.Sublist (s.children .full) := by
  cases s with
  | functionDeclaration qualifier id params body =>
    have hparams : params.Sublist ([id] ++ (params ++ [body])) :=
      (List.sublist_append_left params [body]).trans (List.sublist_append_right _ _)
    simpa [boundNames, children, kind, Kind.fields, field] using
      hparams.trans (List.sublist_append_right qualifier.toList _)
  | functionExpression | lambdaExpression | foreachStatement | tryStatement =>
    simp [boundNames, children, kind, Kind.fields, field]
  | _ => exact List.nil_sublist _

def isQualified : Shape χ → Bool
  | functionDeclaration (some _) .. | classDeclaration (some _) .. => true
  | _ => false

theorem not_isQualified_of_isNamedAround (h : s.isNamedAround = true) :
    s.isQualified = false ∧ s.isSlot = false := by
  cases s with
  | functionDeclaration qualifier | classDeclaration qualifier =>
    cases qualifier with
    | none => exact ⟨rfl, rfl⟩
    | some qualifier => cases h
  | variableDeclarator | enumDeclaration => exact ⟨rfl, rfl⟩
  | _ => cases h

end Shape

theorem map_flatMap_sublist {α β γ : Type} {f : α → List β} {g : β → γ} {h : α → γ} {l : List α}
    (hf : ∀ x ∈ l, ((f x).map g).Sublist [h x]) : ((l.flatMap f).map g).Sublist (l.map h) := by
  induction l with
  | nil => exact .slnil
  | cons x l ih =>
    obtain ⟨hx, hl⟩ := List.forall_mem_cons.mp hf
    rw [List.flatMap_cons, List.map_append, List.map_cons]
    exact hx.append (ih hl)

theorem filter_eq_of_nodup {α β : Type} [DecidableEq β] {f : α → β} {l : List α} {x : α}
    (h : (l.map f).Nodup) (hx : x ∈ l) : l.filter (fun y => f y = f x) = [x] := by
  induction l with
  | nil => cases hx
  | cons y l ih =>
    obtain ⟨hy, hl⟩ := List.nodup_cons.mp h
    rcases List.mem_cons.mp hx with rfl | hx
    · rw [List.filter_cons_of_pos (by simp), List.filter_eq_nil_iff.mpr]
      intro z hz he
      exact hy (of_decide_eq_true he ▸ List.mem_map_of_mem hz)
    · rw [List.filter_cons_of_neg, ih hl hx]
      intro he
      exact hy (of_decide_eq_true he ▸ List.mem_map_of_mem hx)

namespace Arena

variable {a : Arena} {b : Branch} {k d m scope : NodeId}

theorem Parsed.nodup_boundNames (ha : a.Parsed) : (a.boundNames m).Nodup := by
  cases hs : a.shape? m with
  | none => simp [boundNames, hs]
  | some s =>
    rw [boundNames_of_shape? hs]
    exact (ha.nodup_children hs).sublist s.boundNames_sublist

inductive IsScoped (a : Arena) (m : NodeId) : Prop
  | named {s : Shape NodeId} (hs : a.shape? m = some s) (hnamed : s.isNamedAround = true)
  | newSlot {left right : NodeId}
    (hs : a.shape? m = some (.assignmentExpression .newSlot left right))
    (hleft : a.kind? left = some .identifier ∨ a.kind? left = some .rootExpression)
  | bound {parent : NodeId} {s : Shape NodeId} (hs : a.shape? parent = some s)
    (hbound : m ∈ s.boundNames)

inductive IsOwned (a : Arena) (m : NodeId) : Prop
  | qualified {s : Shape NodeId} (hs : a.shape? m = some s) (hqualified : s.isQualified = true)
  | member {s : Shape NodeId} (hs : a.shape? m = some s) (hslot : s.isSlot = true)
  | newSlot {left right : NodeId}
    (hs : a.shape? m = some (.assignmentExpression .newSlot left right))
    (hleft : a.kind? left = some .memberExpression)
  | documented {key : NodeId} (hs : a.shape? m = some (.metaProperty key))

theorem IsOwned.kind_ne (h : a.IsOwned m) {kind : Kind} (hk : a.kind? m = some kind) :
    kind.isBindable = false ∧ kind ≠ .restElement := by
  rw [kind?_eq_map] at hk
  cases h with
  | @qualified s hs h | @member s hs h =>
    rw [hs] at hk
    cases hk
    cases s with
    | identifier | assignmentPattern | restElement => cases h
    | _ => exact ⟨rfl, nofun⟩
  | newSlot hs | documented hs =>
    rw [hs] at hk
    cases hk
    exact ⟨rfl, nofun⟩

theorem IsScoped.not_isOwned (ha : a.Grammatical) (h : a.IsScoped m) : ¬ a.IsOwned m := by
  intro howned
  cases h with
  | named hs hnamed =>
    obtain ⟨hqualified, hslot⟩ := Shape.not_isQualified_of_isNamedAround hnamed
    cases howned with
    | qualified hs' h =>
      obtain rfl := Option.some.inj (hs.symm.trans hs')
      simp [hqualified] at h
    | member hs' h =>
      obtain rfl := Option.some.inj (hs.symm.trans hs')
      simp [hslot] at h
    | newSlot hs' | documented hs' =>
      obtain rfl := Option.some.inj (hs.symm.trans hs')
      cases hnamed
  | newSlot hs hleft =>
    cases howned with
    | qualified hs' h | member hs' h =>
      obtain rfl := Option.some.inj (hs.symm.trans hs')
      cases h
    | newSlot hs' hleft' =>
      cases Option.some.inj (hs.symm.trans hs')
      simp [hleft'] at hleft
    | documented hs' => cases Option.some.inj (hs.symm.trans hs')
  | bound hs hbound =>
    obtain ⟨kind, hk, hkind⟩ := ha.kind_boundName hs hbound
    obtain ⟨hbindable, hrest⟩ := howned.kind_ne hk
    simp [hbindable, hrest] at hkind

theorem isScoped_or_isOwned (h : a.declaredName? m = some k) : a.IsScoped m ∨ a.IsOwned m := by
  unfold declaredName? at h
  cases hs : a.shape? m with
  | none =>
    rw [hs] at h
    cases h
  | some s =>
    rw [hs] at h
    cases s with
    | variableDeclarator | enumDeclaration => exact .inl (.named hs rfl)
    | functionDeclaration qualifier | classDeclaration qualifier =>
      cases qualifier with
      | none => exact .inl (.named hs rfl)
      | some qualifier => exact .inr (.qualified hs rfl)
    | enumMember | methodDefinition | propertyDefinition => exact .inr (.member hs rfl)
    | assignmentExpression operator left right =>
      cases operator with
      | newSlot =>
        dsimp only [slotKey?] at h
        cases hl : a.shape? left with
        | none =>
          rw [hl] at h
          cases h
        | some l =>
          rw [hl] at h
          have hkind : a.kind? left = some l.kind := by rw [kind?_eq_map, hl, Option.map_some]
          cases l with
          | identifier => exact .inl (.newSlot hs (.inl hkind))
          | rootExpression => exact .inl (.newSlot hs (.inr hkind))
          | memberExpression => exact .inr (.newSlot hs hkind)
          | _ => cases h
      | _ => cases h
    | _ => cases h

theorem Keyed.scoped_or_owned (h : a.Keyed k m) : a.IsScoped m ∨ a.IsOwned m := by
  cases h with
  | own h => exact isScoped_or_isOwned h
  | bound hbound =>
    obtain ⟨s, hs, hm⟩ := exists_shape?_of_boundNames hbound
    exact .inl (.bound hs hm)

theorem isScoped_of_ownScope? (h : a.ownScope? b = some scope) : a.IsScoped b.target := by
  unfold ownScope? at h
  split at h
  · next left right hs =>
    split at h
    · next hleft => exact .newSlot hs (.inl hleft)
    · next hleft => exact .newSlot hs (.inr hleft)
    · cases h
  · next s hs =>
    split at h
    · next hnamed => exact .named hs hnamed
    · cases h
  · cases h

theorem Grammatical.exists_ownScope (ha : a.Grammatical) (hm : a.IsScoped b.target)
    (hk : a.declaredName? b.target = some k) :
    ∃ scope name, a.ownScope? b = some scope ∧ a.identifierName? k = some name := by
  have hplain {m key : NodeId} {s : Shape NodeId} (hs : a.shape? m = some s)
      (hkey : s.plainName? = some key) : ∃ name, a.identifierName? key = some name := by
    obtain ⟨name, hname⟩ := ha.shape?_plainName hs hkey
    exact ⟨name, by rw [identifierName?, hname]; rfl⟩
  unfold declaredName? at hk
  unfold ownScope?
  cases hm with
  | @named s hs hnamed =>
    have hname : s.plainName? = some k := by
      rw [hs] at hk
      cases s with
      | variableDeclarator | functionDeclaration | classDeclaration | enumDeclaration => exact hk
      | _ => cases hnamed
    obtain ⟨name, hname⟩ := hplain hs hname
    refine ⟨a.scopeAround b, name, ?_, hname⟩
    rw [hs]
    cases s with
    | assignmentExpression => cases hnamed
    | _ => exact if_pos hnamed
  | @newSlot left right hs hleft =>
    rw [hs] at hk ⊢
    dsimp only [slotKey?] at hk ⊢
    rw [kind?_eq_map] at hleft ⊢
    cases hl : a.shape? left with
    | none => simp [hl] at hleft
    | some l =>
      rw [hl] at hk hleft
      cases l with
      | identifier name =>
        cases hk
        exact ⟨a.root, name, rfl, by rw [identifierName?, hl]; rfl⟩
      | rootExpression property =>
        cases hk
        obtain ⟨name, hname⟩ := hplain hl rfl
        exact ⟨a.root, name, rfl, hname⟩
      | _ => simp [Shape.kind] at hleft
  | bound hs hbound =>
    obtain ⟨kind, hkind, hcases⟩ := ha.kind_boundName hs hbound
    rw [kind?_eq_map] at hkind
    obtain ⟨t, ht, rfl⟩ := Option.map_eq_some_iff.mp hkind
    rw [ht] at hk
    cases t with
    | identifier | assignmentPattern | restElement => cases hk
    | _ => rcases hcases with hcases | hcases <;> cases hcases

end Arena

namespace Declared

variable {a : Arena} {b b' : Branch} {x : NodeId × ScopedName} {k k' d : NodeId}

theorem mem_pairs (ha : a.Grammatical) : (k, d) ∈ (ofBranch a b).pairs ↔
    (d ∈ a.boundNames b.target ∧ a.boundKey? d = some k) ∨
      d = b.target ∧ a.declaredName? d = some k := by
  rw [(ofBranch_eq ha b).1, List.mem_append]
  simp only [Arena.boundPairs, List.mem_flatMap, List.mem_map, Option.mem_toList, Prod.mk.injEq]
  constructor
  · rintro (⟨c, hc, key, hkey, rfl, rfl⟩ | ⟨key, hkey, rfl, rfl⟩)
    · exact .inl ⟨hc, hkey⟩
    · exact .inr ⟨rfl, hkey⟩
  · rintro (⟨hc, hkey⟩ | ⟨rfl, hkey⟩)
    · exact .inl ⟨d, hc, k, hkey, rfl, rfl⟩
    · exact .inr ⟨k, hkey, rfl, rfl⟩

theorem keyed_of_mem_pairs (ha : a.Grammatical) (h : (k, d) ∈ (ofBranch a b).pairs) :
    a.Keyed k d := by
  rcases (mem_pairs ha).mp h with ⟨hbound, hkey⟩ | ⟨-, hkey⟩
  · exact .bound hbound hkey
  · exact .own hkey

theorem target_eq_of_mem_pairs (ha : a.Grammatical) (h : (k, d) ∈ (ofBranch a b).pairs)
    (h' : (k', d) ∈ (ofBranch a b').pairs) : b.target = b'.target := by
  rcases (mem_pairs ha).mp h with ⟨hbound, hkey⟩ | ⟨rfl, hkey⟩ <;>
    rcases (mem_pairs ha).mp h' with ⟨hbound', hkey'⟩ | ⟨he, hkey'⟩
  · exact ha.parent_unique (Arena.mem_children_of_boundNames hbound')
      (Arena.mem_children_of_boundNames hbound)
  · rw [Arena.boundKey?_of_declaredName? hkey'] at hkey
    cases hkey
  · rw [Arena.boundKey?_of_declaredName? hkey] at hkey'
    cases hkey'
  · exact he

theorem mem_visible (ha : a.Grammatical) : x ∈ (ofBranch a b).visible ↔
    (∃ c ∈ a.boundNames b.target, ∃ key, a.boundKey? c = some key ∧
        x ∈ a.scopedAt b.target key (b.child c)) ∨
      ∃ scope key, a.ownScope? b = some scope ∧ a.declaredName? b.target = some key ∧
        x ∈ a.scopedAt scope key b := by
  rw [(ofBranch_eq ha b).2, List.mem_append]
  simp only [Arena.boundVisible, Arena.ownVisible, List.mem_flatMap, Option.mem_toList]
  simp only [exists_and_left]

theorem exists_pair_of_visible (ha : a.Grammatical) (hx : x ∈ (ofBranch a b).visible) :
    ∃ key, a.identifierName? key = some x.2.name ∧
      (key, x.2.declaration.target) ∈ (ofBranch a b).pairs := by
  rcases (mem_visible ha).mp hx with ⟨c, hc, key, hkey, hx⟩ | ⟨scope, key, -, hkey, hx⟩
  · obtain ⟨hname, -, hd⟩ := of_mem_scopedAt hx
    exact ⟨key, hname, (mem_pairs ha).mpr (.inl (hd ▸ ⟨hc, hkey⟩))⟩
  · obtain ⟨hname, -, hd⟩ := of_mem_scopedAt hx
    exact ⟨key, hname, (mem_pairs ha).mpr (.inr ⟨by rw [hd], by rw [hd, hkey]⟩)⟩

theorem nodup_visible (ha : a.Grammatical) :
    ((ofBranch a b).visible.map (·.2.declaration.target)).Nodup := by
  have hscoped (scope key : NodeId) (d : Branch) :
      ((a.scopedAt scope key d).map (·.2.declaration.target)).Sublist [d.target] := by
    unfold Arena.scopedAt
    split
    · exact .refl _
    · exact List.nil_sublist _
  have hbound : ∀ c ∈ a.boundNames b.target,
      ((a.boundVisible b c).map (·.2.declaration.target)).Sublist [c] := by
    intro c _
    unfold Arena.boundVisible
    cases a.boundKey? c with
    | none => exact List.nil_sublist _
    | some key => simpa using hscoped b.target key (b.child c)
  have hown : ((a.ownVisible b).map (·.2.declaration.target)).Sublist [b.target] := by
    unfold Arena.ownVisible
    cases a.ownScope? b with
    | none => exact List.nil_sublist _
    | some scope =>
      cases a.declaredName? b.target with
      | none => exact List.nil_sublist _
      | some key => simpa using hscoped scope key b
  rw [(ofBranch_eq ha b).2, List.map_append]
  refine List.Nodup.sublist ((map_flatMap_sublist (h := id) hbound).append hown) ?_
  rw [List.map_id]
  refine List.nodup_append.mpr ⟨ha.nodup_boundNames, List.nodup_singleton _, ?_⟩
  intro c hc t ht he
  obtain rfl := List.mem_singleton.mp ht
  exact absurd (ha.child_lt (Arena.mem_children_of_boundNames hc)) (by simp [he])

end Declared

namespace Arena

variable {a : Arena} {k d m scope : NodeId} {x : NodeId × ScopedName}

def entries (a : Arena) : List (NodeId × ScopedName) :=
  (a.preorder a.rootBranch).flatMap fun b => (Declared.ofBranch a b).visible

theorem Grammatical.exists_pair (ha : a.Grammatical) (h : a.Keyed k d) :
    ∃ b ∈ a.preorder a.rootBranch, (k, d) ∈ (Declared.ofBranch a b).pairs := by
  cases h with
  | own h =>
    obtain ⟨s, hs, -⟩ := declaredName?_cases h
    obtain ⟨b, hb, rfl⟩ := ha.exists_mem_preorder (lt_size_of_shape? hs)
    exact ⟨b, hb, (Declared.mem_pairs ha).mpr (.inr ⟨rfl, h⟩)⟩
  | bound hbound hkey =>
    obtain ⟨s, hs, -⟩ := exists_shape?_of_boundNames hbound
    obtain ⟨b, hb, rfl⟩ := ha.exists_mem_preorder (lt_size_of_shape? hs)
    exact ⟨b, hb, (Declared.mem_pairs ha).mpr (.inl ⟨hbound, hkey⟩)⟩

theorem Grammatical.nodup_entries (ha : a.Grammatical) :
    (a.entries.map (·.2.declaration.target)).Nodup := by
  rw [entries, List.map_flatMap, List.nodup_flatMap]
  refine ⟨fun b _ => Declared.nodup_visible ha, ?_⟩
  refine List.Pairwise.imp ?_ (List.pairwise_map.mp ha.nodup_preorder)
  intro b b' hne d hd hd'
  obtain ⟨x, hx, rfl⟩ := List.mem_map.mp hd
  obtain ⟨x', hx', he⟩ := List.mem_map.mp hd'
  obtain ⟨key, -, hpair⟩ := Declared.exists_pair_of_visible ha hx
  obtain ⟨key', -, hpair'⟩ := Declared.exists_pair_of_visible ha hx'
  exact hne (Declared.target_eq_of_mem_pairs ha hpair (he ▸ hpair'))

theorem Grammatical.isScoped_of_entry (ha : a.Grammatical) (hx : x ∈ a.entries) :
    a.IsScoped x.2.declaration.target := by
  obtain ⟨b, -, hx⟩ := List.mem_flatMap.mp hx
  rcases (Declared.mem_visible ha).mp hx with ⟨c, hc, key, -, hx⟩ | ⟨scope, key, hscope, -, hx⟩
  · obtain ⟨-, -, hd⟩ := Declared.of_mem_scopedAt hx
    obtain ⟨s, hs, hc⟩ := exists_shape?_of_boundNames hc
    exact hd ▸ .bound hs hc
  · obtain ⟨-, -, hd⟩ := Declared.of_mem_scopedAt hx
    exact hd ▸ isScoped_of_ownScope? hscope

theorem Grammatical.exists_entry (ha : a.Grammatical) (h : a.Keyed k m) (hm : a.IsScoped m) :
    ∃ x ∈ a.entries, x.2.declaration.target = m := by
  have hscoped {name : String} (hname : a.identifierName? k = some name) (scope : NodeId)
      (d : Branch) : (scope, ⟨name, d⟩) ∈ a.scopedAt scope k d := by
    rw [scopedAt, hname]
    exact List.mem_singleton_self _
  obtain ⟨b, hb, hpair⟩ := ha.exists_pair h
  have hentry {x : NodeId × ScopedName} (hx : x ∈ (Declared.ofBranch a b).visible) :
      x ∈ a.entries := List.mem_flatMap.mpr ⟨b, hb, hx⟩
  rcases (Declared.mem_pairs ha).mp hpair with ⟨hbound, hkey⟩ | ⟨rfl, hkey⟩
  · obtain ⟨name, hname⟩ := Option.isSome_iff_exists.mp (Option.filter_eq_some_iff.mp hkey).2
    refine ⟨(b.target, ⟨name, b.child m⟩), hentry ((Declared.mem_visible ha).mpr (.inl ?_)), rfl⟩
    exact ⟨m, hbound, k, hkey, hscoped hname _ _⟩
  · obtain ⟨scope, name, hscope, hname⟩ := ha.exists_ownScope hm hkey
    refine ⟨(scope, ⟨name, b⟩), hentry ((Declared.mem_visible ha).mpr (.inr ?_)), rfl⟩
    exact ⟨scope, k, hscope, hkey, hscoped hname _ _⟩

end Arena

end SquirrelAnalyzer
