import SquirrelAnalyzer.Proofs.Parser.Statement
import SquirrelAnalyzer.Proofs.Built.Statement
import SquirrelAnalyzer.Proofs.Exact
import SquirrelAnalyzer.Arena.Parse

namespace SquirrelAnalyzer

open Text

theorem exists_ok {α ε : Type} {x : Except ε α} {f : α → Bool} (h : x.toOption.any f = true) :
    ∃ a, x = .ok a ∧ f a = true := by
  cases x with
  | error e => cases h
  | ok a => exact ⟨a, rfl, h⟩

namespace Token

theorem gather_cons {item : Item} {items : List Item} {tokens : List Token}
    {comments : List RawComment} (h : gather (item :: items) = .ok (tokens, comments)) :
    ∃ t ts cs, item.result = .ok t ∧ gather items = .ok (ts, cs) ∧ tokens = t :: ts ∧
      comments = item.comments ++ cs := by
  unfold gather at h
  split at h
  · cases h
  · next t ht =>
    split at h
    · cases h
    · next ts cs hts =>
      cases h
      exact ⟨t, ts, cs, ht, hts, rfl, rfl⟩

theorem exists_result_ofPull {offset : Nat} {p : Pull} {t : Token}
    (h : (Item.ofPull offset p).result = .ok t) :
    ∃ kind, p.outcome = .ok kind ∧ t = ⟨kind, String.ofList p.text,
      ⟨offset + byteLength p.gapText, stopOffset offset p⟩, p.gapText.contains '\n'⟩ := by
  unfold Item.ofPull at h
  dsimp only at h
  split at h
  · cases h
  · next kind hk =>
    cases h
    exact ⟨kind, hk, rfl⟩

theorem result_ofPull {offset : Nat} {p : Pull} {t : Token}
    (h : (Item.ofPull offset p).result = .ok t) :
    p.outcome = .ok t.kind ∧ t.span.start = offset + byteLength p.gapText ∧
      t.span.stop = stopOffset offset p := by
  obtain ⟨kind, hk, rfl⟩ := exists_result_ofPull h
  exact ⟨hk, rfl, rfl⟩

theorem gather_itemsFrom_ne_nil {offset : Nat} {cs : List Char} {tokens : List Token}
    {comments : List RawComment} (h : gather (itemsFrom offset cs) = .ok (tokens, comments)) :
    tokens ≠ [] := by
  rw [itemsFrom] at h
  split at h
  · obtain ⟨t, ts, -, -, -, rfl, -⟩ := gather_cons h
    exact List.cons_ne_nil t ts
  · obtain ⟨t, ts, -, -, -, rfl, -⟩ := gather_cons h
    exact List.cons_ne_nil t ts

theorem readable_ofText {cs : List Char} {kind : Kind} (h : (Pull.ofText cs).outcome = .ok kind) :
    kind.Readable := by
  unfold Pull.ofText at h
  dsimp only at h
  split at h
  · cases h
  · exact ⟨_, h⟩

theorem text_ofText_ne_nil {cs : List Char} {kind : Kind}
    (h : (Pull.ofText cs).outcome = .ok kind) (hkind : kind ≠ .endOfFile) :
    (Pull.ofText cs).text ≠ [] := by
  unfold Pull.ofText at h ⊢
  dsimp only at h ⊢
  split at h
  · cases h
  · next hopen =>
    rw [if_neg hopen]
    cases hrest : (Gap.ofText cs).rest with
    | nil =>
      rw [hrest] at h
      cases h
      exact absurd rfl hkind
    | cons c rest => exact scan_text_ne_nil c rest

theorem sits_ofPull {offset : Nat} {cs : List Char} {t : Token}
    (ht : (Item.ofPull offset (Pull.ofText cs)).result = .ok t) : t.Sits offset := by
  obtain ⟨hk, hstart, hstop⟩ := result_ofPull ht
  refine ⟨by omega, ?_, readable_ofText hk⟩
  rw [hstart, hstop, stopOffset]
  omega

theorem lt_stop_ofPull {offset : Nat} {cs : List Char} {t : Token}
    (ht : (Item.ofPull offset (Pull.ofText cs)).result = .ok t) (hkind : t.kind ≠ .endOfFile) :
    t.span.start < t.span.stop := by
  obtain ⟨hk, hstart, hstop⟩ := result_ofPull ht
  have hlength := List.length_pos_iff.mpr (text_ofText_ne_nil hk hkind)
  have hbytes := length_le_byteLength (Pull.ofText cs).text
  rw [hstart, hstop, stopOffset]
  omega

theorem chain_gather {offset : Nat} {cs : List Char} {tokens : List Token}
    {comments : List RawComment} (h : gather (itemsFrom offset cs) = .ok (tokens, comments)) :
    Chain offset tokens ∧ Filled tokens ∧ ∀ t ∈ tokens, t.span.stop ≤ offset + byteLength cs := by
  induction hn : cs.length using Nat.strongRecOn generalizing offset cs tokens comments with
  | ind n ih =>
    have hlen := congrArg byteLength (Pull.ofText_append cs)
    simp only [byteLength_append] at hlen
    rw [itemsFrom] at h
    split at h
    · next hlast =>
      obtain ⟨t, ts, _, ht, hts, rfl, -⟩ := gather_cons h
      cases hts
      obtain ⟨hk, -, hstop⟩ := result_ofPull ht
      rw [Pull.isLast_iff.mp hlast] at hk
      refine ⟨⟨sits_ofPull ht, iff_of_true (Except.ok.inj hk).symm rfl, trivial⟩, ?_, ?_⟩
      · exact List.forall_mem_singleton.mpr (lt_stop_ofPull ht)
      · refine List.forall_mem_singleton.mpr ?_
        rw [hstop, stopOffset]
        omega
    · next hlast =>
      obtain ⟨t, ts, _, ht, hts, rfl, -⟩ := gather_cons h
      obtain ⟨hk, -, hstop⟩ := result_ofPull ht
      have hlt := Pull.length_rest_lt fun he => hlast (Pull.isLast_iff.mpr he)
      obtain ⟨hchain, hfilled, hbound⟩ := ih _ (hn ▸ hlt) hts rfl
      have hkind : t.kind ≠ .endOfFile := fun he => hlast (Pull.isLast_iff.mpr (he ▸ hk))
      have hne := gather_itemsFrom_ne_nil hts
      refine ⟨⟨sits_ofPull ht, iff_of_false hkind hne, hstop ▸ hchain⟩, ?_, ?_⟩
      · exact List.forall_mem_cons.mpr ⟨lt_stop_ofPull ht, hfilled⟩
      · refine List.forall_mem_cons.mpr ⟨?_, fun x hx => Nat.le_trans (hbound x hx) ?_⟩
        · rw [hstop, stopOffset]
          omega
        · rw [stopOffset]
          omega

theorem Chain.clamp {offset : Nat} {ts : List Token} (h : Chain offset ts) :
    Chain (toOffset offset) (ts.map Token.clamp) := by
  induction ts generalizing offset with
  | nil => trivial
  | cons t ts ih =>
    obtain ⟨hsits, hlast, hrest⟩ := h
    have hsits' : t.clamp.Sits (toOffset offset) :=
      ⟨toOffset_mono hsits.behind, toOffset_mono hsits.proper, hsits.readable⟩
    exact ⟨hsits', by rw [kind_clamp, hlast, List.map_eq_nil_iff], ih hrest⟩

theorem chain_tokenize {text : List Char} {tokens : List Token} {comments : List RawComment}
    (h : tokenize text = .ok (tokens, comments)) :
    Chain 0 tokens ∧ ∀ t ∈ tokens, t.span.stop ≤ toOffset (byteLength text) := by
  obtain ⟨ts, cs, hgather, rfl, -⟩ := exists_gather h
  obtain ⟨hchain, -, hbound⟩ := chain_gather hgather
  refine ⟨hchain.clamp, List.forall_mem_map.mpr fun t ht => ?_⟩
  have hstop := hbound t ht
  rw [Nat.zero_add] at hstop
  exact toOffset_mono hstop

theorem filled_tokenize {text : List Char} {tokens : List Token} {comments : List RawComment}
    (h : tokenize text = .ok (tokens, comments)) (hsize : byteLength text ≤ maxOffset) :
    Filled tokens := (chain_gather (tokenize_of_le hsize ▸ h)).2.1

end Token

namespace Arena

def sourceSpan (source : String) : Span := ⟨0, toOffset (byteLength source.toList)⟩

structure Reads (source : String) (tokens : List Token) (body : List Tree) (a : Arena) : Prop where
  arena : ∃ comments, Token.tokenize source.toList = .ok (tokens, comments) ∧
    a = ofTree (LineMap.ofText source.toList) (readComments (LineMap.ofText source.toList) comments)
      (.node (sourceSpan source) (.sourceFile body))
  placed : (Tree.node (sourceSpan source) (.sourceFile body)).Placed tokens
  fits : ∀ t ∈ body, t.Fits .statement

theorem parse_eq {source : String} {tokens : List Token} {comments : List RawComment}
    (h : Token.tokenize source.toList = .ok (tokens, comments)) : parse source =
      ((Parser.sourceFile tokens (sourceSpan source).stop).mapError fun f =>
        .parse f ((LineMap.ofText source.toList).location f.found.span)).map
      (ofTree (LineMap.ofText source.toList)
        (readComments (LineMap.ofText source.toList) comments)) := by
  have hsize : (LineMap.ofText source.toList).size = (sourceSpan source).stop := rfl
  rw [parse, parseText, h]
  dsimp only
  rw [Builder.sourceFile_eq, hsize]
  cases Parser.sourceFile tokens (sourceSpan source).stop with
  | error f => rfl
  | ok t => rfl

theorem parse_of_tokens {source : String} {tokens : List Token} {comments : List RawComment}
    {t : Tree} (ht : Token.tokenize source.toList = .ok (tokens, comments))
    (hs : Parser.sourceFile tokens (sourceSpan source).stop = .ok t) :
    parse source = .ok (ofTree (LineMap.ofText source.toList)
      (readComments (LineMap.ofText source.toList) comments) t) := by
  rw [parse_eq ht, hs]
  rfl

theorem parse_eq_error {source : String} {tokens : List Token} {comments : List RawComment}
    {f : ParseFault} (ht : Token.tokenize source.toList = .ok (tokens, comments))
    (hs : Parser.sourceFile tokens (sourceSpan source).stop = .error f) :
    parse source = .error (.parse f ((LineMap.ofText source.toList).location f.found.span)) := by
  rw [parse_eq ht, hs]
  rfl

theorem Reads.filled {source : String} {tokens : List Token} {body : List Tree} {a : Arena}
    (h : a.Reads source tokens body) (hsize : byteLength source.toList ≤ maxOffset) :
    Token.Filled tokens := by
  obtain ⟨_, htokens, -⟩ := h.arena
  exact Token.filled_tokenize htokens hsize

theorem reads_parse {source : String} {a : Arena} (h : parse source = .ok a) :
    ∃ tokens body, a.Reads source tokens body := by
  cases htokens : Token.tokenize source.toList with
  | error e => simp [parse, parseText, htokens] at h
  | ok x =>
    obtain ⟨tokens, comments⟩ := x
    obtain ⟨hchain, hbound⟩ := Token.chain_tokenize htokens
    cases hs : Parser.sourceFile tokens (sourceSpan source).stop with
    | error f => cases (parse_eq_error htokens hs).symm.trans h
    | ok t =>
      cases (parse_of_tokens htokens hs).symm.trans h
      obtain ⟨hplaced, body, rfl, hfits⟩ := Parser.sourceFile_placed hchain hbound hs
      exact ⟨tokens, body, ⟨comments, htokens, rfl⟩, hplaced, hfits⟩

theorem parsed_parse {source : String} {a : Arena} (h : parse source = .ok a) : a.Parsed := by
  obtain ⟨tokens, body, hreads⟩ := reads_parse h
  obtain ⟨comments, -, rfl⟩ := hreads.arena
  exact ⟨rooted_ofTree _ _ hreads.placed.nested, rfl⟩

end Arena

end SquirrelAnalyzer
