import SquirrelAnalyzer.Proofs.Parser.Cursor
import SquirrelAnalyzer.Proofs.Tree

namespace SquirrelAnalyzer

def Tree.Settled (t : Tree) (c : Cursor) : Prop := t.EndsBefore c.next.kind

structure Grammar.Sound (tokens : List Token) (g : Grammar) : Prop where
  statement : Parser.Produces tokens .statement g.statement
  settled : Parser.Ensures (fun _ => True) g.statement Tree.Settled
  assignment : Parser.Produces tokens .expression g.assignment
  binary : ∀ least, Parser.Produces tokens .expression (g.binary least)
  unary : Parser.Produces tokens .expression g.unary

namespace Parser

open Cursor

variable {tokens : List Token} {lo : Nat} {ts : List Tree} {g : Grammar}

theorem parameter_produces (hg : g.Sound tokens) : Produces tokens .parameter (parameter g) := by
  intro lo
  refine Ensures.bind Ensures.at? fun b => ?_
  cases b with
  | true =>
    refine Ensures.bind_fact (F := fun t => t.span.start = lo) (Q := fun _ => At tokens lo []) ?_ ?_
    · rintro c _ _ ⟨hk, hc⟩ ⟨⟩
      exact ⟨hc.start, hc.from.advance (by rw [hk.mp rfl]; nofun)⟩
    · rintro t rfl
      exact node_at rfl fun _ => .rest
  | false =>
    refine Ensures.bind_fact ((identifier_produces lo).of_imp fun c hc => hc.2) fun left hleft => ?_
    refine Ensures.shift (f := fun x => x) (Ensures.bind eatPunct_at fun b => ?_)
    cases b with
    | false => exact Ensures.pure fun _ hc => ⟨.ofName hleft, hc⟩
    | true =>
      refine Ensures.bind_fact hg.assignment.ensures_at fun right hright => ?_
      exact node_at rfl fun _ => .default hleft hright

theorem parameters_from (hg : g.Sound tokens) :
    Ensures (From tokens lo ts) (parameters g) fun l c =>
      (∀ t ∈ l, t.Fits .parameter) ∧ c.At tokens lo (l.reverse ++ ts) :=
  Ensures.bind expectPunct_from fun _ => listUntil_at (parameter_produces hg)

theorem parameters_at (hg : g.Sound tokens) :
    Ensures (At tokens lo ts) (parameters g) fun l c =>
      (∀ t ∈ l, t.Fits .parameter) ∧ c.At tokens lo (l.reverse ++ ts) :=
  (parameters_from hg).of_imp fun _ hc => hc.toFrom

theorem block_produces (hg : g.Sound tokens) : Produces tokens .block (block g) := by
  refine Produces.expectPunct fun t => ?_
  refine Ensures.bind_fact (many_ensures (F := Tree.Fits .statement) (I := At tokens t.span.start)
    fun ts => ?_) fun body hbody => node_at ?_ fun _ => .block hbody
  · refine Ensures.bind skip_at fun _ => Ensures.bind eatPunct_at fun b => ?_
    cases b with
    | true => exact Ensures.pure fun _ hc => ⟨nofun, hc⟩
    | false =>
      refine Ensures.bind Ensures.at? fun b => ?_
      cases b with
      | true => exact Ensures.fail
      | false =>
        refine Ensures.bind_fact (hg.statement.ensures_at.of_imp fun _ hc => hc.2) fun t ht => ?_
        exact Ensures.pure fun _ hc => ⟨fun x hx => Option.mem_some.mp hx ▸ ht, hc⟩
  · simp [Shape.children, Shape.kind, Kind.fields, Shape.field]

theorem functionValue_produces (hg : g.Sound tokens) :
    Produces tokens .method (functionValue g) := by
  refine Produces.peek fun t _ => ?_
  refine Ensures.bind_fact ((parameters_from hg).of_imp fun c hc => hc.2.from) fun params hps => ?_
  refine Ensures.bind_fact (block_produces hg).ensures_at fun body hbody => node_at ?_ fun _ => ?_
  · simp [Shape.children, Shape.kind, Kind.fields, Shape.field]
  · exact .method hps hbody

def IsKey (excluded : List Keyword) (x : Tree × Bool) : Prop :=
  (x.2 = true ∧ x.1.Fits .expression) ∨
    (x.2 = false ∧ x.1.Fits .property ∧ ∃ s name, x.1 = .node s (.identifier name) ∧
      ∀ k ∈ excluded, name ≠ k.text)

theorem slotKey_from (hg : g.Sound tokens) (lo : Nat) (ts : List Tree) (excluded : List Keyword) :
    Ensures (fun c => c.From tokens lo ts ∧ ∀ k ∈ excluded, c.next.kind ≠ .keyword k) (slotKey g)
      fun x c => IsKey excluded x ∧ c.At tokens lo (x.1 :: ts) := by
  refine Ensures.bind (Q := fun b c => (b = true → c.At tokens lo ts) ∧ (b = false →
    c.From tokens lo ts ∧ ∀ k ∈ excluded, c.next.kind ≠ .keyword k)) ?_ fun b => ?_
  · refine eat_cases ((advance_from (k := .punct .bracketOpen) nofun).mono
      (fun _ hc => ⟨hc.1, hc.2.1⟩) ?_) ?_
    · exact fun _ _ hc => ⟨fun _ => hc, nofun⟩
    · exact fun _ _ hc => ⟨nofun, fun _ => hc⟩
  cases b with
  | true =>
    refine Ensures.bind_fact (hg.assignment.ensures_at.of_imp fun c hc => hc.1 rfl) fun key hkey => ?_
    exact Ensures.bind expectPunct_at fun _ => Ensures.pure fun _ hc => ⟨.inl ⟨rfl, hkey⟩, hc⟩
  | false =>
    refine Ensures.bind Ensures.peek fun t => ?_
    split
    · next text hk =>
      refine (leaf_from (k := .string text) nofun rfl fun s hread => ?_).of_imp
        fun c hc => ⟨hc.1 ▸ hk, (hc.2.2 rfl).1⟩
      exact Ensures.pure fun _ hc => ⟨.inl ⟨rfl, .literal hread rfl⟩, hc⟩
    · refine Ensures.bind_fact ((propertyName_from excluded).of_imp fun c hc => hc.2.2 rfl)
        fun key hkey => ?_
      exact Ensures.pure fun _ hc => ⟨.inr ⟨rfl, hkey⟩, hc⟩

theorem method_at (hg : g.Sound tokens) {r : Tree.Role} {kind : MethodKind} {isStatic : Bool}
    {key : Tree} (hfits : ∀ s value, value.Fits .method →
      (Tree.node s (.methodDefinition kind isStatic key value)).Fits r) :
    Ensures (At tokens lo [key]) (do
      let value ← functionValue g
      node lo (.methodDefinition kind isStatic key value)) fun x c =>
        x.Fits r ∧ c.At tokens lo [x] := by
  refine Ensures.bind_fact (functionValue_produces hg).ensures_at fun value hvalue => ?_
  exact node_at rfl fun s => hfits s value hvalue

theorem property_at (hg : g.Sound tokens) {r : Tree.Role} {isStatic computed : Bool} {key : Tree}
    (hfits : ∀ s value, value.Fits .expression →
      (Tree.node s (.propertyDefinition isStatic computed key (some value))).Fits r) :
    Ensures (At tokens lo [key]) (do
      let value ← g.assignment
      node lo (.propertyDefinition isStatic computed key (some value))) fun x c =>
        x.Fits r ∧ c.At tokens lo [x] := by
  refine Ensures.bind_fact hg.assignment.ensures_at fun value hvalue => ?_
  exact node_at rfl fun s => hfits s value hvalue

theorem fits_slot {key value : Tree} {computed : Bool} {s : Span}
    (hkey : IsKey [.functionKw] (key, computed)) (hvalue : value.Fits .expression) :
    (Tree.node s (.propertyDefinition false computed key (some value))).Fits .slot := by
  rcases hkey with ⟨rfl, hkey⟩ | ⟨rfl, hkey, s', name, rfl, hname⟩
  · exact .slotComputed hkey hvalue
  · exact .slotProperty hkey (hname _ List.mem_cons_self) hvalue

theorem tableSlot_produces (hg : g.Sound tokens) : Produces tokens .slot (tableSlot g) := by
  refine Produces.peek fun t _ => ?_
  refine Ensures.bind (eatKeyword_from.of_imp fun c hc => hc.2.from) fun b => ?_
  cases b with
  | true =>
    refine Ensures.bind_fact (identifier_produces.ensures_at.of_imp fun c hc => hc.2.1 rfl)
      fun key hkey => ?_
    exact method_at hg fun _ _ hvalue => .slotMethod hkey hvalue
  | false =>
    refine Ensures.bind_fact ((slotKey_from hg t.span.start [] [.functionKw]).of_imp
      fun c hc => ⟨hc.1, List.forall_mem_singleton.mpr (hc.2.2 rfl)⟩) ?_
    rintro ⟨key, computed⟩ hkey
    refine Ensures.bind eatPunct_at fun b => ?_
    cases b with
    | true => exact property_at hg fun _ _ => fits_slot hkey
    | false => exact Ensures.bind expectPunct_at fun _ => property_at hg fun _ _ => fits_slot hkey

theorem table_produces (hg : g.Sound tokens) : Produces tokens .expression (table g) := by
  refine Produces.expectPunct fun t => ?_
  refine Ensures.bind_fact (braced_at (tableSlot_produces hg)) fun properties h =>
    node_at ?_ fun _ => .table h
  simp [Shape.children, Shape.kind, Kind.fields, Shape.field]

def reservedIn (isStatic : Bool) : List Keyword :=
  if isStatic then [.constructorKw, .functionKw] else [.constructorKw, .functionKw, .staticKw]

theorem fits_classMember {key value : Tree} {isStatic computed : Bool} {s : Span}
    (hkey : IsKey (reservedIn isStatic) (key, computed)) (hvalue : value.Fits .expression) :
    (Tree.node s (.propertyDefinition isStatic computed key (some value))).Fits .classMember := by
  rcases hkey with ⟨rfl, hkey⟩ | ⟨rfl, hkey, s', name, rfl, hname⟩
  · exact .classComputed hkey hvalue
  · refine .classProperty hkey (hname _ ?_) (hname _ ?_) (fun hstatic => hname _ ?_) hvalue
    · cases isStatic <;> simp [reservedIn]
    · cases isStatic <;> simp [reservedIn]
    · simp [reservedIn, hstatic]

theorem classMember_produces (hg : g.Sound tokens) :
    Produces tokens .classMember (classMember g) := by
  refine Produces.peek fun t _ => ?_
  refine Ensures.bind (eatKeyword_from.of_imp fun c hc => hc.2.from) fun isStatic => ?_
  refine Ensures.bind Ensures.at? fun b => ?_
  cases b with
  | true =>
    refine (leaf_from (k := .keyword .constructorKw) nofun rfl fun s _ => ?_).of_imp
      fun c hc => ⟨hc.1.mp rfl, hc.2.1⟩
    exact method_at hg fun _ _ => .constructor
  | false =>
    refine Ensures.bind (Q := fun b c => (b = true → c.At tokens t.span.start []) ∧
      (b = false → c.From tokens t.span.start [] ∧
        ∀ k ∈ reservedIn isStatic, c.next.kind ≠ .keyword k)) ?_ fun b => ?_
    · refine eat_cases ((advance_from (k := .keyword .functionKw) nofun).mono
        (fun _ hc => ⟨hc.1, hc.2.2.1⟩) fun _ _ hc => ⟨fun _ => hc, nofun⟩) ?_
      rintro c hfunction ⟨hconstructor, hfrom, -, hstatic⟩
      refine ⟨nofun, fun _ => ⟨hfrom, ?_⟩⟩
      have hconstructor : c.next.kind ≠ .keyword .constructorKw :=
        fun h => nomatch hconstructor.mpr h
      cases isStatic with
      | true => simp [reservedIn, hconstructor, hfunction]
      | false => simp [reservedIn, hconstructor, hfunction, hstatic]
    cases b with
    | true =>
      refine Ensures.bind_fact (identifier_produces.ensures_at.of_imp fun c hc => hc.1 rfl)
        fun key hkey => ?_
      exact method_at hg fun _ _ => .classMethod hkey
    | false =>
      refine Ensures.bind_fact ((slotKey_from hg t.span.start [] (reservedIn isStatic)).of_imp
        fun c hc => hc.2 rfl) ?_
      rintro ⟨key, computed⟩ hkey
      exact Ensures.bind expectPunct_at fun _ => property_at hg fun _ _ => fits_classMember hkey

theorem classBody_produces (hg : g.Sound tokens) : Produces tokens .classBody (classBody g) := by
  refine Produces.expectPunct fun t => ?_
  refine Ensures.bind_fact (braced_at (classMember_produces hg)) fun body h =>
    node_at ?_ fun _ => .classBody h
  simp [Shape.children, Shape.kind, Kind.fields, Shape.field]

theorem superclass_at (hg : g.Sound tokens) :
    Ensures (At tokens lo ts) (superclass g) fun o c =>
      (∀ t ∈ o, t.Fits .expression) ∧ c.At tokens lo (o.toList ++ ts) := by
  refine Ensures.bind eatKeyword_at fun b => ?_
  cases b with
  | true =>
    refine Ensures.bind_fact hg.unary.ensures_at fun t ht => ?_
    exact Ensures.pure fun _ hc => ⟨fun x hx => Option.mem_some.mp hx ▸ ht, hc⟩
  | false => exact Ensures.pure fun _ hc => ⟨nofun, hc⟩

theorem lambda_produces (hg : g.Sound tokens) : Produces tokens .expression (lambda g) := by
  refine Produces.expectPunct fun t => ?_
  refine Ensures.bind_fact (parameters_at hg) fun params hps => ?_
  refine Ensures.bind_fact hg.assignment.ensures_at fun body hbody => node_at ?_ fun _ => ?_
  · simp [Shape.children, Shape.kind, Kind.fields, Shape.field]
  · exact .lambda hps hbody

theorem array_produces (hg : g.Sound tokens) : Produces tokens .expression (array g) := by
  refine Produces.expectPunct fun t => ?_
  refine Ensures.bind_fact (listUntil_at hg.assignment) fun elements h =>
    node_at ?_ fun _ => .array h
  simp [Shape.children, Shape.kind, Kind.fields, Shape.field]

theorem parenthesized_produces (hg : g.Sound tokens) :
    Produces tokens .expression (parenthesized g) := by
  refine fun lo => Ensures.bind (expectPunct_from.of_imp fun c hc => hc.from) fun _ => ?_
  refine Ensures.bind_fact hg.assignment.ensures_at fun inner h => ?_
  exact Ensures.bind expectPunct_at fun _ => Ensures.pure fun _ hc => ⟨h, hc⟩

theorem primary_produces (hg : g.Sound tokens) : Produces tokens .expression (primary g) := by
  refine Produces.peek fun t ht => ?_
  have hadvance {k : Token.Kind} (ht : t.kind = k) (hk : k ≠ .endOfFile) :
      Ensures (fun c => c.next = t ∧ c.Begins tokens t.span.start) advance fun _ c =>
        c.At tokens t.span.start [] :=
    (advance_next (by rwa [ht])).mono (fun _ hc => hc) fun _ _ hc => hc.2
  split
  · exact (identifier_produces.mono fun _ h => .identifier h).of_next
  · next hk => exact Ensures.bind (hadvance hk (by simp)) fun _ => node_at rfl fun _ => .this
  · next hk => exact Ensures.bind (hadvance hk (by simp)) fun _ => node_at rfl fun _ => .base
  · next hk =>
    refine Ensures.bind (hadvance hk (by simp)) fun _ => ?_
    refine Ensures.bind_fact propertyName_produces.ensures_at fun property h => ?_
    exact node_at rfl fun _ => .root h
  · exact (parenthesized_produces hg).of_next
  · exact (table_produces hg).of_next
  · exact (array_produces hg).of_next
  · exact (lambda_produces hg).of_next
  · next hk =>
    refine Ensures.bind (hadvance hk (by simp)) fun _ => ?_
    refine Ensures.bind_fact (parameters_at hg) fun params hps => ?_
    refine Ensures.bind_fact (block_produces hg).ensures_at fun body hbody => node_at ?_ fun _ => ?_
    · simp [Shape.children, Shape.kind, Kind.fields, Shape.field]
    · exact .function (.method hps hbody)
  · next hk =>
    refine Ensures.bind (hadvance hk (by simp)) fun _ => ?_
    refine Ensures.bind_fact (superclass_at hg) fun superclass hsuper => ?_
    refine Ensures.bind_fact (classBody_produces hg).ensures_at fun body hbody =>
      node_at ?_ fun _ => ?_
    · cases superclass <;> rfl
    · exact .classExpression hsuper hbody
  · split
    · next value hv =>
      have hk : t.kind ≠ .endOfFile := by
        intro he
        rw [he] at hv
        cases hv
      exact Ensures.bind (hadvance rfl hk) fun _ => node_at rfl fun _ => .literal ht hv
    · exact Ensures.fail

theorem postfixStep_at (hg : g.Sound tokens) {e : Tree} (he : e.Fits .expression) :
    Ensures (At tokens lo [e]) (postfixStep g lo e) fun o c =>
      (o.getD e).Fits .expression ∧ c.At tokens lo [o.getD e] := by
  refine Ensures.bind Ensures.peek fun t => ?_
  have hadvance {k : Token.Kind} (ht : t.kind = k) (hk : k ≠ .endOfFile) :
      Ensures (fun c => c.next = t ∧ c.At tokens lo [e]) advance fun _ c => c.At tokens lo [e] :=
    (advance_from hk).of_imp fun c hc => ⟨hc.1 ▸ ht, hc.2.toFrom⟩
  have hnode {ts : List Tree} {shape : Shape Tree} (hshape : shape.children .full = ts.reverse)
      (hfits : ∀ s, (Tree.node s shape).Fits .expression) :
      Ensures (At tokens lo ts) (do return some (← node lo shape)) fun o c =>
        (o.getD e).Fits .expression ∧ c.At tokens lo [o.getD e] :=
    Ensures.bind_fact (node_at hshape hfits) fun x hx => Ensures.pure fun _ hc => ⟨hx, hc⟩
  split
  · next hk =>
    refine Ensures.bind (hadvance hk (by simp)) fun _ => ?_
    refine Ensures.bind_fact propertyName_produces.ensures_at fun property hproperty => ?_
    exact hnode rfl fun _ => .member he hproperty
  · next hk =>
    refine Ensures.bind (hadvance hk (by simp)) fun _ => ?_
    refine Ensures.bind_fact (listUntil_at hg.assignment) fun arguments harguments => ?_
    refine hnode ?_ fun _ => .call he harguments
    simp [Shape.children, Shape.kind, Kind.fields, Shape.field]
  · next hk =>
    split
    · exact Ensures.pure fun _ hc => ⟨he, hc.2⟩
    · refine Ensures.bind (hadvance hk (by simp)) fun _ => ?_
      refine Ensures.bind_fact hg.assignment.ensures_at fun property hproperty => ?_
      exact Ensures.bind expectPunct_at fun _ => hnode rfl fun _ => .index he hproperty
  · split
    · next op hop =>
      split
      · exact Ensures.pure fun _ hc => ⟨he, hc.2⟩
      · have hk : t.kind ≠ .endOfFile := by
          intro he
          rw [he] at hop
          cases hop
        exact Ensures.bind (hadvance rfl hk) fun _ => hnode rfl fun _ => .trailing hop he
    · exact Ensures.pure fun _ hc => ⟨he, hc.2⟩

theorem postfixed_produces (hg : g.Sound tokens) : Produces tokens .expression (postfixed g) := by
  refine fun lo => Ensures.bind_fact (primary_produces hg lo) fun e he => ?_
  refine Ensures.shift (f := fun x => x) ?_
  have hstep (a : Tree) : Ensures (fun c => a.Fits .expression ∧ c.At tokens e.start [a])
      (postfixStep g e.start a) fun o c =>
        (o.getD a).Fits .expression ∧ c.At tokens e.start [o.getD a] :=
    Ensures.fact fun ha => postfixStep_at hg ha
  exact (iterate_ensures hstep e).of_imp fun _ hc => ⟨he, hc⟩

theorem yield_produces (hg : g.Sound tokens) : Produces tokens .expression (yield g) := by
  refine Produces.expectKeyword fun t => ?_
  have hnode (argument : Option Tree) (h : ∀ e ∈ argument, e.Fits .expression) :
      Ensures (At tokens t.span.start (argument.toList ++ []))
        (node t.span.start (.yieldExpression argument)) fun x c =>
          x.Fits .expression ∧ c.At tokens t.span.start [x] :=
    node_at (by cases argument <;> rfl) fun _ => .yieldExpression h
  refine Ensures.bind Ensures.atTerminator fun b => ?_
  cases b with
  | true => exact Ensures.bind_fact (Ensures.pure fun _ hc => ⟨nofun, hc⟩) hnode
  | false => exact Ensures.bind_fact hg.assignment.some_at hnode

theorem unary_produces (hg : g.Sound tokens) : Produces tokens .expression (unary g) := by
  refine Produces.peek fun t _ => ?_
  split
  · exact (yield_produces hg).of_next
  · split
    · next op hop =>
      have hk : t.kind ≠ .endOfFile := by
        intro he
        rw [he] at hop
        cases hop
      refine Ensures.bind ((advance_next hk).mono (fun _ hc => hc) fun _ _ hc => hc.2) fun _ => ?_
      refine Ensures.bind_fact hg.unary.ensures_at fun argument h => ?_
      exact node_at rfl fun _ => .leading h
    · exact (postfixed_produces hg).of_next

theorem binaryStep_at (hg : g.Sound tokens) (least : Nat) {left : Tree}
    (hleft : left.Fits .expression) :
    Ensures (At tokens lo [left]) (binaryStep g least left) fun o c =>
      (o.getD left).Fits .expression ∧ c.At tokens lo [o.getD left] := by
  refine Ensures.shift (f := fun o => Option.getD o left) ?_
  refine Ensures.bind Ensures.peek fun t => ?_
  split
  · next op hop =>
    split
    · exact Ensures.pure fun _ hc => ⟨hleft, hc.2⟩
    · have hk : t.kind ≠ .endOfFile := by
        intro he
        rw [he] at hop
        cases hop
      refine Ensures.bind ((advance_from hk).of_imp fun c hc => ⟨hc.1 ▸ rfl, hc.2.toFrom⟩) fun _ => ?_
      refine Ensures.bind_fact (hg.binary _).ensures_at fun right hright => ?_
      refine Ensures.start (Ensures.bind_fact (node_at rfl fun _ => .binary hleft hright) ?_)
      exact fun x hx => Ensures.pure fun _ hc => ⟨hx, hc⟩
  · exact Ensures.pure fun _ hc => ⟨hleft, hc.2⟩

theorem binary_produces (hg : g.Sound tokens) (least : Nat) :
    Produces tokens .expression (binary g least) := by
  refine fun lo => Ensures.bind_fact (unary_produces hg lo) fun left hleft => ?_
  have hstep (a : Tree) : Ensures (fun c => a.Fits .expression ∧ c.At tokens lo [a])
      (binaryStep g least a) fun o c =>
        (o.getD a).Fits .expression ∧ c.At tokens lo [o.getD a] :=
    Ensures.fact fun ha => binaryStep_at hg least ha
  exact (iterate_ensures hstep left).of_imp fun _ hc => ⟨hleft, hc⟩

theorem conditional_produces (hg : g.Sound tokens) :
    Produces tokens .expression (conditional g) := by
  refine fun lo => Ensures.bind_fact (binary_produces hg 1 lo) fun test htest => ?_
  refine Ensures.shift (f := fun x => x) (Ensures.bind eatPunct_at fun b => ?_)
  cases b with
  | false => exact Ensures.pure fun _ hc => ⟨htest, hc⟩
  | true =>
    refine Ensures.bind_fact hg.assignment.ensures_at fun consequent hconsequent => ?_
    refine Ensures.bind expectPunct_at fun _ => ?_
    refine Ensures.bind_fact hg.assignment.ensures_at fun alternate halternate => ?_
    exact node_at rfl fun _ => .conditional htest hconsequent halternate

theorem assignment_produces (hg : g.Sound tokens) :
    Produces tokens .expression (assignment g) := by
  refine fun lo => Ensures.bind_fact (conditional_produces hg lo) fun left hleft => ?_
  refine Ensures.shift (f := fun x => x) (Ensures.bind Ensures.peek fun t => ?_)
  split
  · next op hop =>
    have hk : t.kind ≠ .endOfFile := by
      intro he
      rw [he] at hop
      cases hop
    refine Ensures.bind ((advance_from hk).of_imp fun c hc => ⟨hc.1 ▸ rfl, hc.2.toFrom⟩) fun _ => ?_
    refine Ensures.bind_fact hg.assignment.ensures_at fun right hright => ?_
    exact node_at rfl fun _ => .assignment hleft hright
  · exact Ensures.pure fun _ hc => ⟨hleft, hc.2⟩

end Parser

end SquirrelAnalyzer
