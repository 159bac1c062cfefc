import SquirrelAnalyzer.Proofs.Ranges
import SquirrelAnalyzer.Proofs.Sequel
import SquirrelAnalyzer.Proofs.Slots

namespace SquirrelAnalyzer

namespace Member

variable {e : Member} {ms : List Member}

theorem mem_nearest_iff : e ∈ nearest ms ↔ ms.find? (·.name = e.name) = some e := by
  induction ms with
  | nil => simp [nearest]
  | cons m ms ih =>
    rw [nearest, List.mem_cons, List.mem_filter, ih, List.find?_cons]
    by_cases hm : m.name = e.name
    · simp [hm, eq_comm]
    · have hne : e ≠ m := fun he => hm (he ▸ rfl)
      simp [hm, hne, Ne.symm hm]

theorem nearest_sublist (ms : List Member) : (nearest ms).Sublist ms := by
  induction ms with
  | nil => exact .slnil
  | cons m ms ih => exact (List.filter_sublist.trans ih).cons_cons m

theorem nearest_names (ms : List Member) : (nearest ms).Pairwise fun x y => x.name ≠ y.name := by
  induction ms with
  | nil => exact .nil
  | cons m ms ih =>
    refine List.pairwise_cons.mpr ⟨fun x hx => ?_, ih.filter _⟩
    exact Ne.symm (of_decide_eq_true (List.mem_filter.mp hx).2)

end Member

namespace Program

variable {p : Program} {levels : List Branch} {e : Member} {name : String}

theorem ownMember?_none (p : Program) (name : String) (owner : Branch) :
    p.ownMember? name none owner = ((p.ownMembers owner).find? (·.1 = name)).map (·.2) := by
  simp [ownMember?, variation?, List.head?_filter]

def nearest? (p : Program) (name : String) (levels : List (Branch × Nat)) : Option Member :=
  levels.findSome? fun x => ((p.ownMembers x.1).find? (·.1 = name)).map fun m => ⟨m.1, m.2, x.2⟩

theorem find?_membersOf (p : Program) (name : String) (levels : List Branch) :
    (p.membersOf levels).find? (·.name = name) = p.nearest? name levels.zipIdx := by
  rw [membersOf, List.find?_flatMap]
  simp only [List.find?_map, Function.comp_def]
  rfl

theorem branch_nearest? (p : Program) (name : String) (levels : List Branch) (k : Nat) :
    (p.nearest? name (levels.zipIdx k)).map (·.branch) =
      levels.findSome? (p.ownMember? name none) := by
  induction levels generalizing k with
  | nil => rfl
  | cons owner levels ih =>
    rw [List.zipIdx_cons, nearest?, List.findSome?_cons, List.findSome?_cons, ownMember?_none]
    cases hfound : (p.ownMembers owner).find? (·.1 = name) with
    | none => exact ih (k + 1)
    | some m => simp

theorem nearest?_eq_some_iff {k : Nat} : p.nearest? name (levels.zipIdx k) = some e ↔
    ∃ i owner, e.level = k + i ∧ levels[i]? = some owner ∧
      (p.ownMembers owner).find? (·.1 = name) = some (e.name, e.branch) ∧
      ∀ j < i, ∀ o, levels[j]? = some o → (p.ownMembers o).find? (·.1 = name) = none := by
  induction levels generalizing k with
  | nil => simp [nearest?]
  | cons first levels ih =>
    rw [List.zipIdx_cons, nearest?, List.findSome?_cons]
    cases hfound : (p.ownMembers first).find? (·.1 = name) with
    | some m =>
      constructor
      · rintro ⟨⟩
        exact ⟨0, first, rfl, rfl, hfound, nofun⟩
      · rintro ⟨i, owner, hlevel, howner, hfind, hbefore⟩
        cases i with
        | zero =>
          cases howner
          cases hfound.symm.trans hfind
          exact congrArg some (congrArg (Member.mk _ _) hlevel.symm)
        | succ i =>
          rw [hbefore 0 (Nat.succ_pos i) first rfl] at hfound
          cases hfound
    | none =>
      refine ih.trans ⟨?_, ?_⟩
      · rintro ⟨i, owner, hlevel, howner, hfind, hbefore⟩
        refine ⟨i + 1, owner, by omega, howner, hfind, fun j hj o ho => ?_⟩
        cases j with
        | zero => exact Option.some.inj ho ▸ hfound
        | succ j => exact hbefore j (Nat.lt_of_succ_lt_succ hj) o ho
      · rintro ⟨i, owner, hlevel, howner, hfind, hbefore⟩
        cases i with
        | zero =>
          cases howner
          rw [hfound] at hfind
          cases hfind
        | succ i =>
          exact ⟨i, owner, by omega, howner, hfind, fun j hj o ho =>
            hbefore (j + 1) (Nat.succ_lt_succ hj) o ho⟩

theorem membersOf_levels (p : Program) (levels : List Branch) :
    (p.membersOf levels).Pairwise fun x y => x.level ≤ y.level := by
  have hlevels : levels.zipIdx.Pairwise fun x y => x.2 < y.2 := by
    rw [← List.pairwise_map (f := Prod.snd), List.zipIdx_map_snd]
    exact List.pairwise_lt_range'
  refine List.pairwise_flatMap.mpr ⟨fun x _ => ?_, hlevels.imp fun {x y} hlt e he e' he' => ?_⟩
  · exact List.pairwise_map.mpr (List.pairwise_of_forall fun _ _ => Nat.le_refl _)
  · obtain ⟨m, -, rfl⟩ := List.mem_map.mp he
    obtain ⟨m', -, rfl⟩ := List.mem_map.mp he'
    exact Nat.le_of_lt hlt

/-- The member is declared at the first level that lists its name, and comes first there. -/
structure Nearest (p : Program) (levels : List Branch) (e : Member) : Prop where
  first : ∃ owner, levels[e.level]? = some owner ∧
    (p.ownMembers owner).find? (·.1 = e.name) = some (e.name, e.branch)
  unlisted : ∀ k < e.level, ∀ owner, levels[k]? = some owner →
    ∀ m ∈ p.ownMembers owner, m.1 ≠ e.name

theorem nearest?_zipIdx_iff : p.nearest? e.name levels.zipIdx = some e ↔ p.Nearest levels e := by
  rw [nearest?_eq_some_iff]
  constructor
  · rintro ⟨i, owner, hlevel, howner, hfind, hbefore⟩
    obtain rfl : e.level = i := by rw [hlevel, Nat.zero_add]
    refine ⟨⟨owner, howner, hfind⟩, fun k hk o ho m hm hname => ?_⟩
    have hnone := List.find?_eq_none.mp (hbefore k hk o ho) m hm
    exact hnone (decide_eq_true hname)
  · rintro ⟨⟨owner, howner, hfind⟩, hbefore⟩
    refine ⟨e.level, owner, (Nat.zero_add _).symm, howner, hfind, fun j hj o ho => ?_⟩
    refine List.find?_eq_none.mpr fun m hm hname => ?_
    exact hbefore j hj o ho m hm (of_decide_eq_true hname)

theorem mem_nearest_membersOf :
    e ∈ Member.nearest (p.membersOf levels) ↔ p.Nearest levels e := by
  rw [Member.mem_nearest_iff, find?_membersOf, nearest?_zipIdx_iff]

theorem findSome?_ownMember? (p : Program) (name : String) (levels : List Branch) (m : Branch) :
    levels.findSome? (p.ownMember? name none) = some m ↔
      ∃ e ∈ Member.nearest (p.membersOf levels), e.name = name ∧ e.branch = m := by
  rw [← branch_nearest? p name levels 0, Option.map_eq_some_iff]
  constructor
  · rintro ⟨e, he, rfl⟩
    have hname : e.name = name := by
      rw [← find?_membersOf] at he
      have hfound := List.find?_some he
      exact of_decide_eq_true hfound
    refine ⟨e, ?_, hname, rfl⟩
    rw [mem_nearest_membersOf, ← nearest?_zipIdx_iff, hname]
    exact he
  · rintro ⟨e, he, rfl, rfl⟩
    exact ⟨e, nearest?_zipIdx_iff.mpr (mem_nearest_membersOf.mp he), rfl⟩

end Program

namespace Resolve

variable {p : Program}

theorem superclasses_of_not_class (ask : Ask) {b : Branch} (h : p.isClass b = false) :
    superclasses p ask b = pure [] := by
  have hparts : (p.shape? b).bind Shape.classParts? = none := by
    unfold Program.isClass Program.kind? at h
    cases hs : p.shape? b with
    | none => rfl
    | some s =>
      rw [hs] at h
      cases s with
      | classDeclaration | classExpression => cases h
      | _ => rfl
  unfold superclasses
  cases p.size with
  | zero => rfl
  | succ n =>
    unfold superclassesUpTo superclass
    rw [hparts]
    rfl

theorem levels_of_branch? (ask : Ask) {v : Value} {b : Branch} (h : v.branch? = some b) :
    levels p ask v = (b :: ·) <$> superclasses p ask b := by
  unfold levels
  rw [h]
  dsimp only
  split
  · rfl
  · next hclass => rw [superclasses_of_not_class ask (Bool.not_eq_true _ ▸ hclass)]; rfl

theorem run_superclasses (p : Program) (b : Branch) {s : Progress} (hv : s.walk.visited = [])
    (hd : s.walk.depth = 0) : ((superclasses p p.answer b).run s).1 =
      ((superclasses p p.answer b).run { memo := s.memo }).1 := by
  have hfollows : Follows (fun _ => True) True (fun ask => superclasses p ask b) _ :=
    superclasses_follows p.closed_true fun _ => trivial
  obtain ⟨t, ht, -⟩ := hfollows
  obtain ⟨⟨visited, depth, aborted⟩, memo⟩ := s
  cases hv
  cases hd
  have hrun := ht p.answer
  dsimp only at hrun
  obtain ⟨aborted', hmarked⟩ := t.run_answer_marked p ⟨{}, memo⟩ aborted
  have hfound := congrArg Prod.fst hmarked
  rw [hrun]
  exact hfound

end Resolve

namespace Analysis

variable {asked : Program → Branch → Prop} {a : Analysis}

def lineage (b : Branch) : Asking (List Branch) := do
  match (← value b).bind Value.branch? with
  | none => return []
  | some owner => return owner :: (← superclasses owner)

variable {b : Branch} {v : Option Value} {s : Progress}

theorem run_lineage (hs : (a.program.answer .value b).run.run { memo := a.memo } = (v, s)) :
    ((lineage b).run a).1 =
      ((v.elim (pure []) (Resolve.levels a.program a.program.answer)).run s).1 := by
  obtain ⟨walks, hruns⟩ := a.program.runs_answer .value b { memo := a.memo }
  rw [hs] at hruns
  obtain ⟨hvisited, hdepth, -⟩ := hruns.restores
  have hvalue : (value b).run a = (v, { a with memo := s.memo }) := by rw [value, run_walk, hs]
  rw [lineage, StateT.run_bind, hvalue]
  match v with
  | none | some (.nominal name) => rfl
  | some (.node owner i call) =>
    rw [Option.elim_some, Resolve.levels_of_branch? _ rfl, StateT.run_map]
    exact congrArg (owner :: ·) (Resolve.run_superclasses a.program owner hvisited hdepth).symm

theorem run_members (a : Analysis) (b : Branch) :
    ((members b).run a).1 = Member.nearest (a.program.membersOf ((lineage b).run a).1) := by
  cases hs : (a.program.answer .value b).run.run { memo := a.memo } with | mk v s
  rw [run_lineage hs, members, run_walk]
  simp only [StateT.run_bind, hs]
  cases v <;> rfl

theorem run_findMember (a : Analysis) (b : Branch) (name : String) :
    ((findMember b name).run a).1 =
      ((lineage b).run a).1.findSome? (a.program.ownMember? name none) := by
  cases hs : (a.program.answer .value b).run.run { memo := a.memo } with | mk v s
  have hfind (v : Value) : (Resolve.findMember a.program a.program.answer name none v).run =
      (·.findSome? (a.program.ownMember? name none)) <$>
        Resolve.levels a.program a.program.answer v := by
    unfold Resolve.findMember
    simp [Resolve.ofOption]
  rw [run_lineage hs, findMember, run_walk, OptionT.run_bind, Option.elimM]
  simp only [StateT.run_bind, hs]
  cases v with
  | none => rfl
  | some v =>
    show ((Resolve.findMember a.program a.program.answer name none v).run.run s).1 = _
    rw [hfind, StateT.run_map]
    rfl

end Analysis

namespace Arena

variable {a : Arena} {id : NodeId}

theorem Ranged.slots {source : String} {tokens : List Token} (h : a.Ranged source tokens)
    (id : NodeId) : (a.slots id).Pairwise fun c d => ∀ m m', a.get? c = some m →
      a.get? d = some m' → m.location.endOffset ≤ m'.location.startOffset := by
  have hchildren (id : NodeId) : (a.children .full id).Pairwise fun c d => ∀ m m',
      a.get? c = some m → a.get? d = some m' →
        m.location.endOffset ≤ m'.location.startOffset := by
    unfold children
    cases hn : a.get? id with
    | none => exact .nil
    | some n => exact h.apart id n hn
  unfold Arena.slots
  cases hs : a.shape? id with
  | none => exact .nil
  | some s =>
    have hown := hchildren id
    rw [children_of_shape? hs] at hown
    dsimp only
    split
    · exact hchildren _
    · simpa [Shape.children, Shape.kind, Kind.fields, Shape.field] using hown
    · simp only [Shape.children, Shape.kind, Kind.fields, Shape.field, List.flatMap_cons,
        List.flatMap_nil, List.append_nil] at hown
      exact (List.pairwise_append.mp hown).2.1
    · exact .nil

end Arena

namespace SourceUnit

def bodyBranch (u : SourceUnit) (owner : Branch) : Branch :=
  match (u.arena.shape? owner.target).bind Shape.classParts? with
  | some (_, body) => owner.child body
  | none => owner

def written (u : SourceUnit) (owner : Branch) : List (String × Branch) :=
  u.namedBelow (u.bodyBranch owner) (u.arena.slots owner.target)

def documented (u : SourceUnit) (owner : Branch) : List (String × Branch) :=
  match (u.arena.shape? owner.target).bind Shape.classParts? with
  | some _ => u.namedBelow owner ((u.facts.metas.get? owner.target).getD [])
  | none => []

theorem membersAt_eq (u : SourceUnit) (owner : Branch) :
    u.membersAt owner = u.written owner ++ u.documented owner := by
  unfold membersAt written documented bodyBranch Arena.slots
  cases u.arena.shape? owner.target with
  | none => rfl
  | some s =>
    rw [Option.bind_some]
    dsimp only
    split
    · next hparts => rw [hparts]
    · next hparts => rw [hparts, List.append_nil]
    · next hparts => rw [hparts, List.append_nil]
    · next hparts => simp [namedBelow, hparts]

def InSourceOrder (u : SourceUnit) (members : List (String × Branch)) : Prop :=
  members.Pairwise fun x y => ∃ l m, u.arena.location? x.2.target = some l ∧
    u.arena.location? y.2.target = some m ∧ l.endOffset ≤ m.startOffset

theorem inSourceOrder_namedBelow {u : SourceUnit} {members : List NodeId} (b : Branch)
    (h : members.Pairwise fun c d => ∃ l m, u.arena.location? c = some l ∧
      u.arena.location? d = some m ∧ l.endOffset ≤ m.startOffset) :
    u.InSourceOrder (u.namedBelow b members) := by
  refine List.pairwise_filterMap.mpr (h.imp fun {c d} hcd x hx y hy => ?_)
  obtain ⟨n, -, rfl⟩ := Option.map_eq_some_iff.mp hx
  obtain ⟨n', -, rfl⟩ := Option.map_eq_some_iff.mp hy
  exact hcd

theorem ReadFrom.inSourceOrder {u : SourceUnit} {config : Config} {a : Arena} {source : String}
    {tokens : List Token} (h : u.ReadFrom config a) (ha : a.Ranged source tokens)
    (owner : Branch) : u.InSourceOrder (u.written owner) := by
  apply inSourceOrder_namedBelow
  have hnode {m : NodeId} (hm : m ∈ u.arena.slots owner.target) : ∃ n, a.get? m = some n ∧
      u.arena.location? m = some n.location := by
    obtain ⟨s, -, hs, -, -⟩ := h.exists_slot hm
    obtain ⟨n, hn, -⟩ := Option.map_eq_some_iff.mp hs
    refine ⟨n, hn, ?_⟩
    rw [Arena.location?, h.unit.arena.kept m (Arena.lt_size_of_get? hn)]
    exact congrArg (Option.map Node.location) hn
  cases hslots : u.arena.slots owner.target with
  | nil => exact .nil
  | cons first rest =>
    have hsame := h.slots_eq (hslots ▸ List.mem_cons_self)
    rw [← hslots]
    refine List.Pairwise.imp_of_mem (fun {c d} hc hd hcd => ?_) (hsame ▸ ha.slots owner.target)
    obtain ⟨n, hn, hl⟩ := hnode hc
    obtain ⟨n', hn', hl'⟩ := hnode hd
    exact ⟨_, _, hl, hl', hcd n n' hn hn'⟩

end SourceUnit

namespace Program

variable {p : Program} {u : SourceUnit} {owner : Branch} {s : Shape NodeId}

theorem ownMembers_eq (hu : p.unit? owner.unit = some u)
    (hs : u.arena.shape? owner.target = some s) :
    p.ownMembers owner = u.written owner ++ u.documented owner ++ p.recordedMembers owner := by
  rw [ownMembers, hu, Option.filter_some, hs, ← u.membersAt_eq]
  rfl

end Program

namespace Analysis

variable {asked : Program → Branch → Prop} {a : Analysis}

theorem Reachable.inSourceOrder (h : a.Reachable asked) {id : UnitId} {u : SourceUnit}
    (hu : a.unit? id = some u) (owner : Branch) : u.InSourceOrder (u.written owner) := by
  obtain ⟨source, arena, ha, namespaces, outline, rfl⟩ := h.assembled.exists_build hu
  have hread := SourceUnit.readFrom_build ha a.program.config id namespaces outline
  obtain ⟨tokens, body, hreads⟩ := reads_parseArena ha
  exact hread.inSourceOrder (hreads.ranged.withUnit id) owner

/-- A name is completed to the member that it is looked up to, and each member once. Members are
those of the value and of its superclasses, and a name is taken from the nearest that lists it:
from its first slot in the source, else from its documentation, else from what is recorded under
it. -/
theorem members_findMember (h : a.Reachable asked) (b : Branch) :
    (∀ name m, ((findMember b name).run a).1 = some m ↔
      ∃ e ∈ ((members b).run a).1, e.name = name ∧ e.branch = m) ∧
    (((members b).run a).1.Pairwise fun e f => e.name ≠ f.name ∧ e.level ≤ f.level) ∧
    (∀ e, e ∈ ((members b).run a).1 ↔ a.program.Nearest ((lineage b).run a).1 e) ∧
    ∀ owner ∈ ((lineage b).run a).1, ∀ u s, a.unit? owner.unit = some u →
      u.arena.shape? owner.target = some s → u.InSourceOrder (u.written owner) ∧
        a.program.ownMembers owner =
          u.written owner ++ u.documented owner ++ a.program.recordedMembers owner := by
  rw [run_members]
  refine ⟨fun name m => ?_, ?_, fun e => Program.mem_nearest_membersOf, fun owner _ u s hu hs => ?_⟩
  · rw [run_findMember]
    exact Program.findSome?_ownMember? a.program name _ m
  · refine List.pairwise_and_iff.mpr ⟨Member.nearest_names _, ?_⟩
    exact (Program.membersOf_levels a.program _).sublist (Member.nearest_sublist _)
  · exact ⟨h.inSourceOrder hu owner, Program.ownMembers_eq hu hs⟩

theorem members_findMember_subclass : ∃ a b, ofSources {} Imports.none
      ["/** @property {integer} p */ class A \x7b x = 1 function m() \x7b\x7d \x7d function A::n() \x7b\x7d class B extends A \x7b x = 2 \x7d local b = B(); b;"] =
        .ok a ∧
    ((members b).run a).1.map (fun e => (e.name, e.level, e.branch.target)) =
      [("x", 0, ⟨18⟩), ("m", 1, ⟨7⟩), ("p", 1, ⟨30⟩), ("n", 1, ⟨13⟩)] ∧
    ∀ name, ((findMember b name).run a).1.isSome ↔ name ∈ ["x", "m", "p", "n"] := by
  let b : Branch := ⟨⟨0⟩, ⟨26⟩, [⟨27⟩, ⟨28⟩]⟩
  have hbuilt : (ofSources {} Imports.none
      ["/** @property {integer} p */ class A \x7b x = 1 function m() \x7b\x7d \x7d function A::n() \x7b\x7d class B extends A \x7b x = 2 \x7d local b = B(); b;"]).toOption.any
        (fun a => decide (((members b).run a).1.map (fun e => (e.name, e.level, e.branch.target)) =
          [("x", 0, ⟨18⟩), ("m", 1, ⟨7⟩), ("p", 1, ⟨30⟩), ("n", 1, ⟨13⟩)])) = true := by
    decide +kernel
  obtain ⟨a, ha, h⟩ := exists_ok hbuilt
  have hlist := of_decide_eq_true h
  have hreachable : a.Reachable fun _ _ => True := .ofSources ha
  refine ⟨a, b, ha, hlist, fun name => ?_⟩
  have hnames : ((members b).run a).1.map (·.name) = ["x", "m", "p", "n"] := by
    have hfirst := congrArg (List.map Prod.fst) hlist
    rw [List.map_map] at hfirst
    exact hfirst
  rw [← hnames, List.mem_map, Option.isSome_iff_exists]
  constructor
  · rintro ⟨m, hm⟩
    obtain ⟨e, he, hname, -⟩ := ((members_findMember hreachable b).1 name m).mp hm
    exact ⟨e, he, hname⟩
  · rintro ⟨e, he, rfl⟩
    exact ⟨e.branch, ((members_findMember hreachable b).1 e.name e.branch).mpr ⟨e, he, rfl, rfl⟩⟩

end Analysis

end SquirrelAnalyzer
