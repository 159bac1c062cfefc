import SquirrelAnalyzer.Proofs.DocumentOrder
import SquirrelAnalyzer.Proofs.Positions
import SquirrelAnalyzer.Proofs.Termination

/-!
The search for the first node of some kinds in a function's body. It leaves out what is nested in
other functions, and what it finds comes before everything else it could have found.
-/

namespace SquirrelAnalyzer

namespace Arena

variable {a : Arena} {accept : Kind → Bool} {body b x : Branch} {c d : NodeId} {r : Option Branch}
  {stack : List Branch}

def Own (a : Arena) (body b : Branch) : Prop :=
  a.Below body b ∧ ∀ f, a.Below body f → a.Under f b →
    ∀ kind, a.kind? f.target = some kind → kind.isFunction = false

def Accepts (a : Arena) (accept : Kind → Bool) (b : Branch) : Prop :=
  ∃ kind, a.kind? b.target = some kind ∧ accept kind = true

structure FirstOwn (a : Arena) (accept : Kind → Bool) (body b : Branch) : Prop where
  own : a.Own body b
  accepted : a.Accepts accept b
  first : ∀ x, a.Own body x → a.Accepts accept x → x = b ∨ a.Precedes b x

inductive Searches (a : Arena) (accept : Kind → Bool) : List Branch → Option Branch → Prop
  | done : Searches a accept [] none
  | unknown {b : Branch} {stack : List Branch} {r : Option Branch} (hk : a.kind? b.target = none)
      (rest : Searches a accept stack r) : Searches a accept (b :: stack) r
  | found {b : Branch} {stack : List Branch} {kind : Kind} (hk : a.kind? b.target = some kind)
      (haccept : accept kind = true) : Searches a accept (b :: stack) (some b)
  | skip {b : Branch} {stack : List Branch} {r : Option Branch} {kind : Kind}
      (hk : a.kind? b.target = some kind) (haccept : accept kind = false)
      (hfunction : kind.isFunction = true) (rest : Searches a accept stack r) :
      Searches a accept (b :: stack) r
  | enter {b : Branch} {stack : List Branch} {r : Option Branch} {kind : Kind}
      (hk : a.kind? b.target = some kind) (haccept : accept kind = false)
      (hfunction : kind.isFunction = false)
      (rest : Searches a accept ((a.children .full b.target).map b.child ++ stack) r) :
      Searches a accept (b :: stack) r

theorem Under.length_lt (h : a.Under b x) : b.path.length < x.path.length := by
  obtain ⟨c, -, h⟩ := h
  have hle := h.path_prefix.length_le
  rw [Branch.path_child, List.length_append] at hle
  exact hle

theorem Below.child_eq (h : a.Below (b.child c) x) (h' : a.Below (b.child d) x) : c = d := by
  have hlength : (b.child c).path.length = (b.child d).path.length := by simp
  have hprefix := List.prefix_of_prefix_length_le h.path_prefix h'.path_prefix
    (Nat.le_of_eq hlength)
  simpa using hprefix.eq_of_length hlength

theorem own_self (a : Arena) (b : Branch) : a.Own b b :=
  ⟨.refl b, fun _ hf hunder =>
    absurd hunder.length_lt (Nat.not_lt_of_le hf.path_prefix.length_le)⟩

theorem own_child_iff {kind : Kind} (hk : a.kind? b.target = some kind)
    (hc : c ∈ a.children .full b.target) (hx : a.Below (b.child c) x) :
    a.Own b x ↔ kind.isFunction = false ∧ a.Own (b.child c) x := by
  constructor
  · rintro ⟨-, hown⟩
    exact ⟨hown b (.refl b) ⟨c, hc, hx⟩ kind hk, hx, fun f hf => hown f (.child hc hf)⟩
  · rintro ⟨hfunction, -, hown⟩
    refine ⟨.child hc hx, fun f hf hunder => ?_⟩
    cases hf with
    | refl =>
      rintro kind' hk'
      obtain rfl := Option.some.inj (hk.symm.trans hk')
      exact hfunction
    | child hd hf =>
      obtain rfl := hx.child_eq (hf.trans hunder.below)
      exact hown f hf hunder

theorem Own.eq_or_child {kind : Kind} (h : a.Own b x) (hk : a.kind? b.target = some kind) :
    x = b ∨ kind.isFunction = false ∧ ∃ c ∈ a.children .full b.target, a.Own (b.child c) x := by
  rcases h.1.eq_or_under with rfl | ⟨c, hc, hx⟩
  · exact .inl rfl
  · obtain ⟨hfunction, hown⟩ := (own_child_iff hk hc hx).mp h
    exact .inr ⟨hfunction, c, hc, hown⟩

theorem not_accepts {kind : Kind} (hk : a.kind? b.target = some kind) (h : ¬ accept kind = true) :
    ¬ a.Accepts accept b := by
  rintro ⟨kind', hk', haccept⟩
  obtain rfl := Option.some.inj (hk.symm.trans hk')
  exact h haccept

theorem not_accepts_of_unknown (hk : a.kind? b.target = none) (h : a.Below b x) :
    ¬ a.Accepts accept x := by
  have hn : a.get? b.target = none := Option.map_eq_none_iff.mp hk
  obtain rfl := h.eq_of_leaf (by rw [children, hn])
  rintro ⟨kind, hk', -⟩
  rw [hk] at hk'
  cases hk'

theorem Ascending.induction (ha : a.Ascending) {motive : Branch → Prop}
    (h : ∀ b, (∀ c ∈ a.children .full b.target, motive (b.child c)) → motive b) (b : Branch) :
    motive b := by
  induction hi : b.target.index using Nat.strongRecOn generalizing b with
  | ind i ih =>
    subst hi
    exact h b fun c hc => ih c.index (ha b.target c hc) (b.child c) rfl

theorem Ascending.ownNode?_eq (ha : a.Ascending) (accept : Kind → Bool) (b : Branch) :
    a.ownNode? accept b =
      match a.kind? b.target with
      | none => none
      | some kind =>
        if accept kind then some b
        else if kind.isFunction then none
        else (a.children .full b.target).findSome? fun c => a.ownNode? accept (b.child c) :=
  (ha.ownNodeUpTo_add (fun h => h) 1).symm

theorem FirstOwn.of_child {kind : Kind} {front rest : List NodeId}
    (h : a.FirstOwn accept (body.child c) b) (hk : a.kind? body.target = some kind)
    (hreject : ¬ accept kind = true) (hfunction : kind.isFunction = false)
    (hchildren : a.children .full body.target = front ++ c :: rest)
    (hbefore : ∀ d ∈ front, ∀ x, a.Own (body.child d) x → ¬ a.Accepts accept x) :
    a.FirstOwn accept body b where
  own := by
    have hc : c ∈ a.children .full body.target := by simp [hchildren]
    exact (own_child_iff hk hc h.own.1).mpr ⟨hfunction, h.own⟩
  accepted := h.accepted
  first x hx haccepted := by
    rcases hx.eq_or_child hk with rfl | ⟨-, d, hd, hown⟩
    · exact absurd haccepted (not_accepts hk hreject)
    rw [hchildren] at hd
    rcases List.mem_append.mp hd with hd | hd
    · exact absurd haccepted (hbefore d hd x hown)
    rcases List.mem_cons.mp hd with rfl | hd
    · exact h.first x hown haccepted
    · have hcd : [c, d].Sublist (a.children .full body.target) := by
        rw [hchildren]
        exact ((List.singleton_sublist.mpr hd).cons_cons c).trans
          (List.sublist_append_right front (c :: rest))
      exact .inr (.apart hcd h.own.1 hown.1)

theorem Ascending.firstOwn (ha : a.Ascending) (accept : Kind → Bool) (body : Branch) :
    (∀ b, a.ownNode? accept body = some b → a.FirstOwn accept body b) ∧
      (a.ownNode? accept body = none → ∀ b, a.Own body b → ¬ a.Accepts accept b) := by
  induction body using ha.induction with | _ body ih
  rw [ha.ownNode?_eq accept body]
  split
  · next hk => exact ⟨nofun, fun _ x hx => not_accepts_of_unknown hk hx.1⟩
  next kind hk =>
  split
  · next haccept =>
    refine ⟨?_, nofun⟩
    rintro _ ⟨⟩
    exact ⟨own_self a body, ⟨kind, hk, haccept⟩, fun x hx _ => hx.1.eq_or_under.imp_right .under⟩
  next hreject =>
  split
  · next hfunction =>
    refine ⟨nofun, fun _ x hx => ?_⟩
    rcases hx.eq_or_child hk with rfl | ⟨hplain, -⟩
    · exact not_accepts hk hreject
    · rw [hfunction] at hplain
      cases hplain
  next hfunction =>
  refine ⟨fun b hb => ?_, fun hnone x hx => ?_⟩
  · obtain ⟨front, c, rest, hchildren, hfound, hbefore⟩ := List.findSome?_eq_some_iff.mp hb
    have hmem (d : NodeId) (hd : d ∈ front ++ c :: rest) : d ∈ a.children .full body.target :=
      hchildren ▸ hd
    refine ((ih c (hmem c (by simp))).1 b hfound).of_child hk hreject (by simpa using hfunction)
      hchildren fun d hd => ?_
    exact (ih d (hmem d (List.mem_append_left _ hd))).2 (hbefore d hd)
  · rcases hx.eq_or_child hk with rfl | ⟨-, d, hd, hown⟩
    · exact not_accepts hk hreject
    · exact (ih d hd).2 (List.findSome?_eq_none_iff.mp hnone d hd) x hown

theorem Sequential.ownNode?_eq_some_iff (ha : a.Sequential) :
    a.ownNode? accept body = some b ↔ a.FirstOwn accept body b := by
  obtain ⟨hsome, hnone⟩ := ha.ascending.firstOwn accept body
  constructor
  · exact hsome b
  · intro hb
    cases hfound : a.ownNode? accept body with
    | none => exact absurd hb.accepted (hnone hfound b hb.own)
    | some x =>
      have hx := hsome x hfound
      rcases hb.first x hx.own hx.accepted with rfl | hbx
      · rfl
      rcases hx.first b hb.own hb.accepted with rfl | hxb
      · rfl
      · exact absurd hxb (ha.not_precedes hbx)

theorem Ascending.ownNode?_eq_none_iff (ha : a.Ascending) :
    a.ownNode? accept body = none ↔ ∀ b, a.Own body b → ¬ a.Accepts accept b := by
  obtain ⟨hsome, hnone⟩ := ha.firstOwn accept body
  constructor
  · exact hnone
  · intro hmissing
    cases hfound : a.ownNode? accept body with
    | none => rfl
    | some b =>
      have hb := hsome b hfound
      exact absurd hb.accepted (hmissing b hb.own)

theorem Searches.eq_findSome? (h : a.Searches accept stack r) (ha : a.Ascending) :
    r = stack.findSome? (a.ownNode? accept) := by
  induction h with
  | done => rfl
  | @unknown b stack r hk rest ih =>
    simp [ha.ownNode?_eq accept b, hk, ih]
  | @found b stack kind hk haccept =>
    simp [ha.ownNode?_eq accept b, hk, haccept]
  | @skip b stack r kind hk haccept hfunction rest ih =>
    simp [ha.ownNode?_eq accept b, hk, haccept, hfunction, ih]
  | @enter b stack r kind hk haccept hfunction rest ih =>
    rw [ih, List.findSome?_append, List.findSome?_map, List.findSome?_cons,
      ha.ownNode?_eq accept b]
    simp only [hk, haccept, hfunction, Bool.false_eq_true, if_false, Function.comp_def]
    cases (a.children .full b.target).findSome? fun c => a.ownNode? accept (b.child c) <;> rfl

theorem Ascending.searches_cons (ha : a.Ascending) (accept : Kind → Bool) (b : Branch) :
    ∀ {stack : List Branch} {r : Option Branch}, a.Searches accept stack r →
      ∃ r', a.Searches accept (b :: stack) r' := by
  induction b using ha.induction with | _ b ih
  intro stack r hstack
  cases hk : a.kind? b.target with
  | none => exact ⟨r, .unknown hk hstack⟩
  | some kind =>
    cases haccept : accept kind with
    | true => exact ⟨some b, .found hk haccept⟩
    | false =>
      cases hfunction : kind.isFunction with
      | true => exact ⟨r, .skip hk haccept hfunction hstack⟩
      | false =>
        suffices hchildren : ∀ cs ⊆ a.children .full b.target,
            ∃ r', a.Searches accept (cs.map b.child ++ stack) r' by
          obtain ⟨r', hr'⟩ := hchildren _ (List.Subset.refl _)
          exact ⟨r', .enter hk haccept hfunction hr'⟩
        intro cs hcs
        induction cs with
        | nil => exact ⟨r, hstack⟩
        | cons c cs ihcs =>
          obtain ⟨hc, hcs⟩ := List.cons_subset.mp hcs
          obtain ⟨r', hr'⟩ := ihcs hcs
          exact ih c hc hr'

theorem Ascending.searches_iff (ha : a.Ascending) :
    a.Searches accept [body] r ↔ r = a.ownNode? accept body := by
  have hfound {r : Option Branch} (h : a.Searches accept [body] r) :
      r = a.ownNode? accept body := by
    rw [h.eq_findSome? ha, List.findSome?_singleton]
  constructor
  · exact hfound
  · rintro rfl
    obtain ⟨r, hr⟩ := ha.searches_cons accept body .done
    exact hfound hr ▸ hr

/-- The loop always ends, and what it finds is the first node of an accepted kind in the body that
belongs to no other function, if there is one. -/
structure FindsOwn (a : Arena) : Prop where
  loop : ∀ accept body r, a.Searches accept [body] r ↔ r = a.ownNode? accept body
  found : ∀ accept body b, a.ownNode? accept body = some b ↔ a.FirstOwn accept body b
  missing : ∀ accept body,
    a.ownNode? accept body = none ↔ ∀ b, a.Own body b → ¬ a.Accepts accept b

theorem Sequential.findsOwn (ha : a.Sequential) : a.FindsOwn where
  loop _ _ _ := ha.ascending.searches_iff
  found _ _ _ := ha.ownNode?_eq_some_iff
  missing _ _ := ha.ascending.ownNode?_eq_none_iff

end Arena

end SquirrelAnalyzer
