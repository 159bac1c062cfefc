import SquirrelAnalyzer.Proofs.Retokenize
import SquirrelAnalyzer.Proofs.Tree

namespace SquirrelAnalyzer

def Tree.bare (t : Tree) : Tree := t.fold fun _ shape => .node ⟨0, 0⟩ shape

theorem Tree.bare_node (s : Span) (shape : Shape Tree) :
    (Tree.node s shape).bare = .node ⟨0, 0⟩ (shape.map Tree.bare) := Tree.fold_node _ s shape

def Tree.Alike (t u : Tree) : Prop := u.bare = t.bare

theorem Tree.alike_node {s s' : Span} {shape shape' : Shape Tree}
    (h : shape'.map Tree.bare = shape.map Tree.bare) : (node s shape).Alike (node s' shape') := by
  rw [Alike, bare_node, bare_node, h]

def Cursor.Shows (c : Cursor) (ks : List Token.Kind) : Prop := Token.OneLine ks (c.next :: c.later)

namespace Cursor.Shows

variable {c : Cursor} {k k' : Token.Kind} {ks : List Token.Kind}

theorem next (h : c.Shows (k :: ks)) : c.next.kind = k ∧ c.next.newlineBefore = false := by
  simpa using (List.cons.inj h).1

theorem advance (h : c.Shows (k :: k' :: ks)) : c.advance.Shows (k' :: ks) := by
  obtain ⟨next, later, lastEnd⟩ := c
  cases later with
  | nil => simp [Shows, Token.OneLine] at h
  | cons t later => exact (List.cons.inj h).2

theorem length_later (h : c.Shows ks) : ks.length = c.later.length + 1 := by
  have hlength := congrArg List.length h
  simpa using hlength.symm

end Cursor.Shows

namespace Parser

variable {α β : Type}

def Reads (m : Parser α) (ks : List Token.Kind) (P : Token.Kind → Prop) (F : α → Prop) : Prop :=
  ∀ c k rest, P k → c.Shows (ks ++ k :: rest) →
    ∃ a c', m.run c = .ok (a, c') ∧ F a ∧ c'.Shows (k :: rest)

def Heads (P : Token.Kind → Prop) : List Token.Kind → Token.Kind → Prop
  | [], k => P k
  | k' :: _, _ => P k'

theorem Heads.ne_nil {P : Token.Kind → Prop} {ks : List Token.Kind} (h : ∀ k, Heads P ks k)
    {k : Token.Kind} (hk : ¬ P k) : ks ≠ [] := by
  rintro rfl
  exact hk (h k)

theorem Heads.append {P : Token.Kind → Prop} {ks : List Token.Kind} (h : ∀ k, Heads P ks k)
    (ks' : List Token.Kind) (k : Token.Kind) : Heads P (ks ++ ks') k := by
  cases ks with
  | nil =>
    cases ks' with
    | nil => exact h k
    | cons k' ks' => exact h k'
  | cons k' ks => exact h k

theorem Heads.imp {P Q : Token.Kind → Prop} {ks : List Token.Kind} {k : Token.Kind}
    (h : Heads P ks k) (hPQ : ∀ k, P k → Q k) : Heads Q ks k := by
  cases ks with
  | nil => exact hPQ k h
  | cons k' ks => exact hPQ k' h

theorem Heads.next {P : Token.Kind → Prop} {c : Cursor} {ks rest : List Token.Kind} {k : Token.Kind}
    (h : Heads P ks k) (hc : c.Shows (ks ++ k :: rest)) :
    P c.next.kind ∧ c.next.newlineBefore = false := by
  cases ks with
  | nil => exact ⟨(Cursor.Shows.next hc).1 ▸ h, (Cursor.Shows.next hc).2⟩
  | cons k' ks => exact ⟨(Cursor.Shows.next hc).1 ▸ h, (Cursor.Shows.next hc).2⟩

namespace Reads

variable {m : Parser α} {f : α → Parser β} {ks ks' : List Token.Kind} {k k' : Token.Kind}
  {P Q : Token.Kind → Prop} {F F' : α → Prop} {G : β → Prop}

theorem mono (h : Reads m ks P F) (hP : ∀ k, Q k → P k) (hF : ∀ a, F a → F' a) :
    Reads m ks Q F' := by
  intro c k rest hk hc
  obtain ⟨a, c', hr, ha, hc'⟩ := h c k rest (hP k hk) hc
  exact ⟨a, c', hr, hF a ha, hc'⟩

theorem pure {a : α} (h : F a) : Reads (Pure.pure a) [] P F :=
  fun c _ _ _ hc => ⟨a, c, rfl, h, hc⟩

theorem bind (hm : Reads m ks Q F) (hf : ∀ a, F a → Reads (f a) ks' P G)
    (hP : ∀ k, P k → Heads Q ks' k) : Reads (m >>= f) (ks ++ ks') P G := by
  intro c k rest hk hc
  rw [List.append_assoc] at hc
  have hfirst : ∃ a c₁, m.run c = .ok (a, c₁) ∧ F a ∧ c₁.Shows (ks' ++ k :: rest) := by
    cases ks' with
    | nil => exact hm c k rest (hP k hk) hc
    | cons k' ks' => exact hm c k' (ks' ++ k :: rest) (hP k hk) hc
  obtain ⟨a, c₁, hr, ha, hc₁⟩ := hfirst
  obtain ⟨b, c₂, hr', hb, hc₂⟩ := hf a ha c₁ k rest hk hc₁
  refine ⟨b, c₂, ?_, hb, hc₂⟩
  rw [StateT.run_bind, hr]
  exact hr'

theorem bind_any (hm : Reads m ks (fun _ => True) F) (hf : ∀ a, F a → Reads (f a) ks' P G) :
    Reads (m >>= f) (ks ++ ks') P G :=
  hm.bind hf fun _ _ => by cases ks' <;> trivial

theorem bind_last (hm : Reads m ks P F) (hf : ∀ a, F a → Reads (f a) [] P G) :
    Reads (m >>= f) ks P G := by
  have hbind := hm.bind hf fun _ hk => hk
  rwa [List.append_nil] at hbind

theorem map {g : α → β} (h : Reads m ks P fun a => G (g a)) : Reads (g <$> m) ks P G := by
  rw [← bind_pure_comp]
  exact h.bind_last fun _ ha => pure ha

theorem peek {f : Token → Parser β} (h : ∀ t, Reads (f t) ks P G) :
    Reads (Parser.peek >>= f) ks P G := fun c k rest hk hc => h c.next c k rest hk hc

theorem peek_heads {Q : Token.Kind → Prop} {f : Token → Parser β} (hQ : ∀ k, P k → Heads Q ks k)
    (h : ∀ t, Q t.kind → Reads (f t) ks P G) : Reads (Parser.peek >>= f) ks P G :=
  fun c k rest hk hc => h c.next ((hQ k hk).next hc).1 c k rest hk hc

theorem peek_cons {f : Token → Parser β} (h : ∀ t, t.kind = k → Reads (f t) (k :: ks) P G) :
    Reads (Parser.peek >>= f) (k :: ks) P G :=
  peek_heads (Q := (· = k)) (fun _ _ => rfl) h

theorem peek_line {f : Token → Parser β}
    (h : ∀ t, t.kind = k → t.newlineBefore = false → Reads (f t) (k :: ks) P G) :
    Reads (Parser.peek >>= f) (k :: ks) P G := fun c k' rest hk hc =>
  h c.next hc.next.1 hc.next.2 c k' rest hk hc

theorem peek_nil {f : Token → Parser β}
    (h : ∀ t, P t.kind → Reads (f t) [] (· = t.kind) G) :
    Reads (Parser.peek >>= f) [] P G := by
  intro c k' rest hk hc
  obtain ⟨hkind, -⟩ := Cursor.Shows.next hc
  exact h c.next (hkind ▸ hk) c k' rest hkind.symm hc

theorem peekSecond {Q : Token.Kind → Prop} {f : Option Token → Parser β}
    (hQ : ∀ k', P k' → Heads Q ks k')
    (h : ∀ o, (∀ t ∈ o, Q t.kind) → Reads (f o) (k :: ks) P G) :
    Reads (Parser.peekSecond >>= f) (k :: ks) P G := by
  intro c k' rest hk hc
  refine h c.later.head? (fun t ht => ?_) c k' rest hk hc
  obtain ⟨next, later, lastEnd⟩ := c
  cases later with
  | nil => cases ht
  | cons t' later =>
    cases ht
    have hnext : (⟨t, later, lastEnd⟩ : Cursor).Shows (ks ++ k' :: rest) := (List.cons.inj hc).2
    exact ((hQ k' hk).next hnext).1

theorem advance {f : Token → Parser β} (h : ∀ t, t.kind = k → Reads (f t) ks P G) :
    Reads (Parser.advance >>= f) (k :: ks) P G := by
  intro c k' rest hk hc
  have hnext : c.advance.Shows (ks ++ k' :: rest) := by
    cases ks with
    | nil => exact Cursor.Shows.advance hc
    | cons k'' ks => exact Cursor.Shows.advance hc
  exact h c.next hc.next.1 c.advance k' rest hk hnext

theorem at_true {f : Bool → Parser β} (heq : ∀ k', P k' → Heads (· = k) ks k')
    (h : Reads (f true) ks P G) : Reads (at? k >>= f) ks P G := by
  intro c k' rest hk hc
  obtain ⟨b, c', hr, hb⟩ := h c k' rest hk hc
  refine ⟨b, c', ?_, hb⟩
  have hat : (at? k : Parser Bool).run c = .ok (true, c) := by
    show Except.ok (decide (c.next.kind = k), c) = _
    rw [decide_eq_true ((heq k' hk).next hc).1]
  rw [StateT.run_bind, hat]
  exact hr

theorem at_false {f : Bool → Parser β} (hne : ∀ k', P k' → Heads (· ≠ k) ks k')
    (h : Reads (f false) ks P G) : Reads (at? k >>= f) ks P G := by
  intro c k' rest hk hc
  obtain ⟨b, c', hr, hb⟩ := h c k' rest hk hc
  refine ⟨b, c', ?_, hb⟩
  have hat : (at? k : Parser Bool).run c = .ok (false, c) := by
    show Except.ok (decide (c.next.kind = k), c) = _
    rw [decide_eq_false ((hne k' hk).next hc).1]
  rw [StateT.run_bind, hat]
  exact hr

theorem eat_eq {f : Bool → Parser β} (h : Reads (f true) ks P G) :
    Reads (eat k >>= f) (k :: ks) P G := by
  unfold eat
  rw [bind_assoc]
  refine at_true (fun _ _ => rfl) ?_
  simp only [if_true, bind_assoc, pure_bind]
  exact advance fun _ _ => h

theorem eat_ne {f : Bool → Parser β} (hne : ∀ k', P k' → Heads (· ≠ k) ks k')
    (h : Reads (f false) ks P G) : Reads (eat k >>= f) ks P G := by
  unfold eat
  rw [bind_assoc]
  refine at_false hne ?_
  simpa using h

theorem expectPunct {p : Punct} {f : Token → Parser β} (h : ∀ t, Reads (f t) ks P G) :
    Reads (Parser.expectPunct p >>= f) (.punct p :: ks) P G := by
  unfold Parser.expectPunct atPunct
  rw [bind_assoc]
  refine at_true (fun _ _ => rfl) ?_
  exact advance fun t _ => h t

theorem expectKeyword {k : Keyword} {f : Token → Parser β} (h : ∀ t, Reads (f t) ks P G) :
    Reads (Parser.expectKeyword k >>= f) (.keyword k :: ks) P G := by
  unfold Parser.expectKeyword
  rw [bind_assoc]
  refine at_true (fun _ _ => rfl) ?_
  exact advance fun t _ => h t

theorem start {t : Tree} {f : Nat → Parser β} (h : Reads (f t.start) ks P G) :
    Reads (Sink.start t >>= f) ks P G := h

theorem node_bind {start : Nat} {shape : Shape Tree} {f : Tree → Parser β}
    (h : ∀ s, Reads (f (.node s shape)) ks P G) : Reads (node start shape >>= f) ks P G :=
  fun c k rest hk hc => h _ c k rest hk hc

theorem node {start : Nat} {shape : Shape Tree} {F : Tree → Prop} (h : ∀ s, F (.node s shape)) :
    Reads (Parser.node start shape) [] P F := fun c _ _ _ hc => ⟨_, c, rfl, h _, hc⟩

theorem skip_none {ps : List Punct} {f : Unit → Parser β}
    (hne : ∀ k, P k → Heads (fun k => ∀ p ∈ ps, k ≠ .punct p) ks k) (h : Reads (f ()) ks P G) :
    Reads (skip ps >>= f) ks P G := by
  intro c k rest hk hc
  have hnext := ((hne k hk).next hc).1
  have hskip : (skip ps : Parser Unit).run c = .ok ((), c) := by
    obtain ⟨next, later, lastEnd⟩ := c
    have hreject : ps.any (fun p => decide (Token.Kind.punct p = next.kind)) = false := by
      rw [List.any_eq_false]
      exact fun p hp he => hnext p hp (of_decide_eq_true he).symm
    show Except.ok ((), Cursor.skipWhile _ next lastEnd later) = _
    cases later with
    | nil => rfl
    | cons t later => simp [Cursor.skipWhile, hreject]
  obtain ⟨b, c', hr, hb⟩ := h c k rest hk hc
  refine ⟨b, c', ?_, hb⟩
  rw [StateT.run_bind, hskip]
  exact hr

theorem skip_cons {ps : List Punct} {p : Punct} (hp : p ∈ ps) {f : Unit → Parser β}
    (h : Reads (skip ps >>= f) ks P G) : Reads (skip ps >>= f) (.punct p :: ks) P G := by
  intro c k rest hk hc
  have hlater : ∃ t later, c.later = t :: later := by
    cases hl : c.later with
    | nil =>
      have hlength := hc.length_later
      rw [hl] at hlength
      simp at hlength
    | cons t later => exact ⟨t, later, rfl⟩
  obtain ⟨t, later, hlater⟩ := hlater
  have hadvance : c.advance.Shows (ks ++ k :: rest) := by
    cases ks with
    | nil => exact Cursor.Shows.advance hc
    | cons k' ks => exact Cursor.Shows.advance hc
  obtain ⟨b, c', hr, hb⟩ := h c.advance k rest hk hadvance
  refine ⟨b, c', ?_, hb⟩
  have haccept : ps.any (fun p => decide (Token.Kind.punct p = c.next.kind)) = true := by
    rw [List.any_eq_true]
    exact ⟨p, hp, decide_eq_true (Cursor.Shows.next hc).1.symm⟩
  have hskip : (skip ps : Parser Unit).run c = (skip ps : Parser Unit).run c.advance := by
    obtain ⟨next, _, lastEnd⟩ := c
    subst hlater
    show Except.ok ((), Cursor.skipWhile _ next lastEnd (t :: later)) = _
    rw [Cursor.skipWhile, if_pos haccept]
    rfl
  rw [StateT.run_bind, hskip]
  exact hr

theorem skip_lead {ps : List Punct} {p : Punct} (hp : p ∈ ps) {f : Unit → Parser β}
    {lead : List Token.Kind} (hlead : lead = [] ∨ lead = [.punct p])
    (hne : ∀ k, P k → Heads (fun k => ∀ p ∈ ps, k ≠ .punct p) ks k) (h : Reads (f ()) ks P G) :
    Reads (skip ps >>= f) (lead ++ ks) P G := by
  rcases hlead with rfl | rfl
  · exact skip_none hne h
  · exact skip_cons hp (skip_none hne h)

theorem atTerminator {f : Bool → Parser β} {b : Bool}
    (hb : ∀ k, P k → Heads (fun k => [.endOfFile, .punct .semicolon, .punct .braceClose,
      .punct .parenClose].contains k = b) ks k) (h : Reads (f b) ks P G) :
    Reads (Parser.atTerminator >>= f) ks P G := by
  intro c k rest hk hc
  obtain ⟨x, c', hr, hx⟩ := h c k rest hk hc
  refine ⟨x, c', ?_, hx⟩
  have hnext := (hb k hk).next hc
  have hat : (Parser.atTerminator : Parser Bool).run c = .ok (b, c) := by
    show Except.ok (c.next.newlineBefore || List.contains _ c.next.kind, c) = _
    rw [hnext.1, hnext.2, Bool.false_or]
  rw [StateT.run_bind, hat]
  exact hr

end Reads

section

variable {step : α → Parser (Option α)} {a : α} {ks ks' : List Token.Kind}
  {P Q : Token.Kind → Prop} {F R : α → Prop}

def ReadsLoop (step : α → Parser (Option α)) (a : α) (ks : List Token.Kind) (P : Token.Kind → Prop)
    (F : α → Prop) : Prop := ∀ n, ks.length < n → Reads (iterateUpTo step n a) ks P F

theorem ReadsLoop.iterate (h : ReadsLoop step a ks P F) : Reads (iterate step a) ks P F := by
  intro c k rest hk hc
  have hlength := hc.length_later
  simp only [List.length_append, List.length_cons] at hlength
  exact h (c.later.length + 1) (by omega) c k rest hk hc

theorem ReadsLoop.stop (h : Reads (step a) [] P (· = none)) (ha : F a) :
    ReadsLoop step a [] P F := by
  intro n hn
  obtain ⟨n, rfl⟩ := Nat.exists_eq_succ_of_ne_zero (Nat.ne_of_gt hn)
  refine Reads.bind_last h ?_
  rintro _ rfl
  exact Reads.pure ha

theorem ReadsLoop.once (hks : ks ≠ []) (h : Reads (step a) ks P fun o => ∃ b, o = some b ∧ F b)
    (hstop : ∀ b, F b → Reads (step b) [] P (· = none)) : ReadsLoop step a ks P F := by
  intro n hn
  obtain ⟨n, rfl⟩ := Nat.exists_eq_succ_of_ne_zero (Nat.ne_of_gt (Nat.zero_lt_of_lt hn))
  have hpos := List.length_pos_iff.mpr hks
  refine Reads.bind_last h ?_
  rintro _ ⟨b, rfl, hb⟩
  exact ReadsLoop.stop (hstop b hb) hb n (Nat.lt_of_lt_of_le hpos (Nat.le_of_lt_succ hn))

end

section

variable {ts : List Tree} {w : Tree → List Token.Kind} {P Q : Token.Kind → Prop}

def AllAlike (ts us : List Tree) : Prop := us.map Tree.bare = ts.map Tree.bare

theorem AllAlike.cons {t u : Tree} {us : List Tree} (h : t.Alike u) (hs : AllAlike ts us) :
    AllAlike (t :: ts) (u :: us) := by
  simp only [AllAlike, List.map_cons]
  rw [h, hs]

theorem write_mem {t : Tree} (h : t ∈ ts) (r : Tree.Role) :
    t.write r ∈ (ts.map Tree.write).map (· r) :=
  List.mem_map.mpr ⟨t.write, List.mem_map_of_mem h, rfl⟩

theorem length_lt_enclosed (ks : List Token.Kind) : ks.length < (Shape.enclosed ks).length := by
  simp only [Shape.enclosed, List.length_cons, List.length_append]
  omega

theorem length_lt_braced (separator : List Token.Kind) {items : List (List Token.Kind)}
    {l : List Token.Kind} (h : l ∈ items) : l.length < (Shape.braced separator items).length := by
  obtain ⟨before, behind, rfl⟩ := List.append_of_mem h
  simp only [Shape.braced, List.flatMap_append, List.flatMap_cons, List.length_append,
    List.length_cons]
  omega

theorem Reads.manyUpTo {item : Parser (Option Tree)} {separator last lead : List Token.Kind}
    (hitem : ∀ t ∈ ts, ∀ lead, lead = [] ∨ lead = separator →
      Reads item (lead ++ w t) Q fun o => ∃ u, o = some u ∧ t.Alike u)
    (hlast : ∀ lead, lead = [] ∨ lead = separator → Reads item (lead ++ last) P (· = none))
    (hnext : ∀ t ∈ ts, ∀ k, Heads Q (separator ++ w t) k)
    (hend : ∀ k, P k → Heads Q (separator ++ last) k) (hlead : lead = [] ∨ lead = separator)
    {n : Nat} (hn : ts.length < n) :
    Reads (Parser.manyUpTo item n) (lead ++ (ts.flatMap (fun t => w t ++ separator) ++ last)) P
      (AllAlike ts) := by
  induction ts generalizing lead n with
  | nil =>
    obtain ⟨n, rfl⟩ := Nat.exists_eq_succ_of_ne_zero (Nat.ne_of_gt hn)
    refine Reads.bind_last (hlast lead hlead) ?_
    rintro _ rfl
    exact Reads.pure rfl
  | cons t ts ih =>
    obtain ⟨n, rfl⟩ := Nat.exists_eq_succ_of_ne_zero (Nat.ne_of_gt (Nat.zero_lt_of_lt hn))
    obtain ⟨hfirst, hitem⟩ := List.forall_mem_cons.mp hitem
    obtain ⟨-, hnext⟩ := List.forall_mem_cons.mp hnext
    have hrest := ih hitem hnext (.inr rfl) (Nat.lt_of_succ_lt_succ hn)
    have hsplit : lead ++ ((t :: ts).flatMap (fun t => w t ++ separator) ++ last) =
        (lead ++ w t) ++ (separator ++ (ts.flatMap (fun t => w t ++ separator) ++ last)) := by simp
    rw [hsplit]
    refine Reads.bind (hfirst lead hlead) ?_ ?_
    · rintro _ ⟨u, rfl, hu⟩
      exact Reads.bind_last hrest fun us hus => Reads.pure (AllAlike.cons hu hus)
    · intro k hk
      cases ts with
      | nil => exact hend k hk
      | cons t' ts =>
        have hheads := Heads.append (hnext t' List.mem_cons_self)
          (separator ++ (ts.flatMap (fun t => w t ++ separator) ++ last)) k
        simpa using hheads

theorem Reads.many {item : Parser (Option Tree)} {separator last : List Token.Kind}
    (hitem : ∀ t ∈ ts, ∀ lead, lead = [] ∨ lead = separator →
      Reads item (lead ++ w t) Q fun o => ∃ u, o = some u ∧ t.Alike u)
    (hlast : ∀ lead, lead = [] ∨ lead = separator → Reads item (lead ++ last) P (· = none))
    (hnext : ∀ t ∈ ts, ∀ k, Heads Q (separator ++ w t) k)
    (hend : ∀ k, P k → Heads Q (separator ++ last) k) (hne : ∀ t ∈ ts, w t ≠ []) :
    Reads (Parser.many item) (ts.flatMap (fun t => w t ++ separator) ++ last) P (AllAlike ts) := by
  intro c k rest hk hc
  have hlength := hc.length_later
  have hcount : ts.length ≤ (ts.flatMap fun t => w t ++ separator).length := by
    clear hitem hnext hc hlength
    induction ts with
    | nil => exact Nat.zero_le _
    | cons t ts ih =>
      obtain ⟨ht, hne⟩ := List.forall_mem_cons.mp hne
      have hpos := List.length_pos_iff.mpr ht
      have hrest := ih hne
      simp only [List.flatMap_cons, List.length_append, List.length_cons]
      omega
  simp only [List.length_append, List.length_cons] at hlength
  exact Reads.manyUpTo hitem hlast hnext hend (.inl rfl) (n := c.later.length + 1) (by omega)
    c k rest hk hc

def StartsItem (k : Token.Kind) : Prop :=
  k ∉ [.punct .braceClose, .punct .comma, .punct .semicolon, .endOfFile]

theorem Reads.braced {separators : List Punct} {item : Parser Tree} {p : Punct}
    (hseparators : ∀ q ∈ separators, q ∈ [Punct.comma, .semicolon]) (hp : p ∈ separators)
    (hitem : ∀ t ∈ ts, Reads item (w t) (· = .punct p) t.Alike)
    (hheads : ∀ t ∈ ts, ∀ k, Heads StartsItem (w t) k) :
    Reads (Parser.braced separators item)
      (ts.flatMap (fun t => w t ++ [.punct p]) ++ [.punct .braceClose]) P (AllAlike ts) := by
  have hnone {k : Token.Kind} (hk : StartsItem k) (q : Punct) (hq : q ∈ separators) :
      k ≠ .punct q := by
    rintro rfl
    have hmem := hseparators q hq
    exact hk (by simp_all)
  refine Reads.many (Q := (· = .punct p)) ?_ ?_ (fun _ _ _ => rfl) (fun _ _ => rfl) ?_
  · intro t ht lead hlead
    refine skip_lead hp hlead (fun k _ => (hheads t ht k).imp fun _ hk => hnone hk) ?_
    refine eat_ne (fun k _ => (hheads t ht k).imp fun _ hk he => hk (by simp [he])) ?_
    exact (hitem t ht).bind_last fun u hu => Reads.pure ⟨u, rfl, hu⟩
  · intro lead hlead
    refine skip_lead hp hlead (fun k _ q hq he => ?_) (eat_eq (Reads.pure rfl))
    cases he
    have hmem := hseparators _ hq
    simp at hmem
  · exact fun t ht => Heads.ne_nil (hheads t ht) (k := .endOfFile) (by simp [StartsItem])

theorem Reads.separatedUpTo {stop : Parser Bool} {item : Parser Tree}
    (hstop : ∀ t ∈ ts, ∀ ks (f : Bool → Parser (List Tree)) G, Reads (f false) (w t ++ ks) P G →
      Reads (stop >>= f) (w t ++ ks) P G)
    (hnil : ts = [] → ∀ (f : Bool → Parser (List Tree)) G, Reads (f true) [] P G →
      Reads (stop >>= f) [] P G)
    (hitem : ∀ t ∈ ts, Reads item (w t) Q t.Alike) (hcomma : Q (.punct .comma))
    (hP : ∀ k, P k → Q k ∧ k ≠ .punct .comma) {n : Nat} (hn : ts.length < n) :
    Reads (Parser.separatedUpTo stop item n) (Shape.commas (ts.map w)) P (AllAlike ts) := by
  induction ts generalizing n with
  | nil =>
    obtain ⟨n, rfl⟩ := Nat.exists_eq_succ_of_ne_zero (Nat.ne_of_gt hn)
    exact hnil rfl _ _ (Reads.pure rfl)
  | cons t ts ih =>
    obtain ⟨n, rfl⟩ := Nat.exists_eq_succ_of_ne_zero (Nat.ne_of_gt (Nat.zero_lt_of_lt hn))
    obtain ⟨hstopFirst, hstop⟩ := List.forall_mem_cons.mp hstop
    obtain ⟨hfirst, hitem⟩ := List.forall_mem_cons.mp hitem
    cases ts with
    | nil =>
      have hcommas : Shape.commas ([t].map w) = w t ++ [] := by
        simp [Shape.commas, List.intercalate]
      rw [hcommas]
      refine hstopFirst [] _ _ ?_
      refine Reads.bind hfirst (fun u hu => ?_) fun k hk => (hP k hk).1
      refine Reads.eat_ne (fun k hk => (hP k hk).2) ?_
      exact Reads.pure (AllAlike.cons hu rfl)
    | cons t' ts =>
      have hrest := ih hstop (by simp) hitem (Nat.lt_of_succ_lt_succ hn)
      rw [List.map_cons, List.map_cons, Shape.commas_cons_cons]
      refine hstopFirst _ _ _ ?_
      refine Reads.bind hfirst (fun u hu => ?_) fun _ _ => hcomma
      refine Reads.eat_eq ?_
      exact Reads.bind_last hrest fun us hus => Reads.pure (AllAlike.cons hu hus)

theorem length_le_commas (hne : ∀ t ∈ ts, w t ≠ []) :
    ts.length ≤ (Shape.commas (ts.map w)).length := by
  induction ts with
  | nil => exact Nat.zero_le _
  | cons t ts ih =>
    obtain ⟨ht, hne⟩ := List.forall_mem_cons.mp hne
    have hpos := List.length_pos_iff.mpr ht
    cases ts with
    | nil => simpa [Shape.commas, List.intercalate] using Nat.succ_le_of_lt hpos
    | cons t' ts =>
      have hrest := ih hne
      rw [List.map_cons] at hrest
      rw [List.map_cons, List.map_cons, Shape.commas_cons_cons]
      simp only [List.length_append, List.length_cons] at hrest ⊢
      omega

theorem heads_commas {l : List Token.Kind} (h : ∀ k, Heads P l k) (ls : List (List Token.Kind))
    (ks : List Token.Kind) (k : Token.Kind) : Heads P (Shape.commas (l :: ls) ++ ks) k := by
  cases ls with
  | nil =>
    have hcommas : Shape.commas [l] = l := by simp [Shape.commas, List.intercalate]
    rw [hcommas]
    exact Heads.append h ks k
  | cons l' ls =>
    rw [Shape.commas_cons_cons, List.append_assoc]
    exact Heads.append h _ k

theorem length_le_commas_of_mem {ls : List (List Token.Kind)} {l : List Token.Kind} (h : l ∈ ls) :
    l.length ≤ (Shape.commas ls).length := by
  induction ls with
  | nil => cases h
  | cons l' ls ih =>
    cases ls with
    | nil =>
      obtain rfl := List.mem_singleton.mp h
      simp [Shape.commas, List.intercalate]
    | cons l'' ls =>
      rw [Shape.commas_cons_cons]
      simp only [List.length_append, List.length_cons]
      rcases List.mem_cons.mp h with rfl | h
      · omega
      · have hrest := ih h
        omega

theorem Reads.separated {stop : Parser Bool} {item : Parser Tree}
    (hstop : ∀ t ∈ ts, ∀ ks (f : Bool → Parser (List Tree)) G, Reads (f false) (w t ++ ks) P G →
      Reads (stop >>= f) (w t ++ ks) P G)
    (hnil : ts = [] → ∀ (f : Bool → Parser (List Tree)) G, Reads (f true) [] P G →
      Reads (stop >>= f) [] P G)
    (hitem : ∀ t ∈ ts, Reads item (w t) Q t.Alike) (hcomma : Q (.punct .comma))
    (hP : ∀ k, P k → Q k ∧ k ≠ .punct .comma) (hne : ∀ t ∈ ts, w t ≠ []) :
    Reads (Parser.separated stop item) (Shape.commas (ts.map w)) P (AllAlike ts) := by
  intro c k rest hk hc
  have hlength := hc.length_later
  have hcount := length_le_commas hne
  simp only [List.length_append, List.length_cons] at hlength
  exact Reads.separatedUpTo hstop hnil hitem hcomma hP (n := c.later.length + 1) (by omega)
    c k rest hk hc

theorem Reads.listUntil {close : Punct} {item : Parser Tree}
    (hitem : ∀ t ∈ ts, Reads item (w t) Q t.Alike) (hcomma : Q (.punct .comma))
    (hclose : Q (.punct close)) (hne : close ≠ .comma)
    (hheads : ∀ t ∈ ts, w t ≠ [] ∧ ∀ k, Heads (· ≠ .punct close) (w t) k) :
    Reads (Parser.listUntil close item) (Shape.commas (ts.map w) ++ [.punct close]) P
      (AllAlike ts) := by
  refine Reads.bind (Q := (· = .punct close)) (Reads.separated ?_ ?_ hitem hcomma ?_ ?_) ?_ ?_
  · intro t ht ks f G h
    exact Reads.at_false (fun k _ => Heads.append (hheads t ht).2 ks k) h
  · exact fun _ f G h => Reads.at_true (fun _ hk => hk) h
  · rintro _ rfl
    exact ⟨hclose, by simpa using hne⟩
  · exact fun t ht => (hheads t ht).1
  · exact fun us hus => Reads.expectPunct fun _ => Reads.pure hus
  · exact fun _ _ => rfl

end

theorem Reads.identifier {name : String} {P : Token.Kind → Prop} :
    Reads Parser.identifier [.identifier name] P fun t => ∃ s, t = .node s (.identifier name) := by
  refine Reads.peek_cons fun t ht => ?_
  split
  · next name' hk =>
    cases ht.symm.trans hk
    exact Reads.advance fun _ _ => Reads.node fun s => ⟨s, rfl⟩
  · next hk => exact absurd ht (hk name)

theorem Reads.propertyName {k : Keyword} {P : Token.Kind → Prop} :
    Reads Parser.propertyName [.keyword k] P fun t => ∃ s, t = .node s (.identifier k.text) := by
  refine Reads.peek_cons fun t ht => ?_
  split
  · next k' hk =>
    cases ht.symm.trans hk
    exact Reads.advance fun _ _ => Reads.node fun s => ⟨s, rfl⟩
  · next hk => exact absurd ht (hk k)

end Parser

end SquirrelAnalyzer
