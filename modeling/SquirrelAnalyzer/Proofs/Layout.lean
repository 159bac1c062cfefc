import SquirrelAnalyzer.Proofs.Abreast.Statement
import SquirrelAnalyzer.Proofs.RoundTrip

namespace SquirrelAnalyzer

def Token.unplaced (t : Token) : Token.Kind × Bool := (t.kind, t.newlineBefore)

namespace Overlap

def unplaced : Overlap where
  offset _ := 0
  offset_max _ _ := rfl
  text _ := ""
  behind := []
  behind' := []
  both := Iff.rfl

variable {α X : Type} {f : α → X} {m m' : Parser α} {c c' : Cursor}

theorem map_token_unplaced {ks ks' : List Token} (h : ks'.map Token.unplaced = ks.map Token.unplaced) :
    ks.map unplaced.token = ks'.map unplaced.token := by
  have htoken : unplaced.token = (fun x => ⟨x.1, "", ⟨0, 0⟩, x.2⟩) ∘ Token.unplaced := rfl
  rw [htoken, ← List.map_map, ← List.map_map, h]

theorem same_of_along (h : Parser.Along unplaced f m m') (hc : unplaced.Beside c c') :
    unplaced.Same f (m.run c) (m'.run c') := by
  rcases h.level c c' hc with hbeyond | hsame
  · cases hr : m.run c with
    | error e =>
      rw [hr] at hbeyond
      cases hbeyond
    | ok x =>
      rw [hr] at hbeyond
      cases List.suffix_nil.mp hbeyond
  · exact hsame

end Overlap

theorem Parser.sourceFile_unplaced {tokens tokens' : List Token} (size size' : Nat)
    (hchain : Token.Chain 0 tokens) (h : tokens'.map Token.unplaced = tokens.map Token.unplaced) :
    (∃ t t', sourceFile tokens size = .ok t ∧ sourceFile tokens' size' = .ok t' ∧ t.Alike t') ∨
      ∃ f f', sourceFile tokens size = .error f ∧ sourceFile tokens' size' = .error f' := by
  cases tokens with
  | nil =>
    obtain rfl := List.map_eq_nil_iff.mp h
    exact .inl ⟨_, _, rfl, rfl, Tree.alike_node rfl⟩
  | cons t ts =>
    obtain ⟨t', ts', rfl⟩ : ∃ t' ts', tokens' = t' :: ts' := by
      cases tokens' with
      | nil => cases h
      | cons t' ts' => exact ⟨t', ts', rfl⟩
    obtain ⟨hnext, hlater⟩ := List.cons.inj (Overlap.map_token_unplaced h)
    have hlength : ts'.length = ts.length := by
      have hlengths := congrArg List.length hlater
      simpa using hlengths.symm
    have hbeside : Overlap.unplaced.Beside ⟨t, ts, 0⟩ ⟨t', ts', 0⟩ :=
      ⟨hnext, ⟨ts, ts', (List.append_nil ts).symm, (List.append_nil ts').symm, hlater⟩, rfl,
        hchain.ended⟩
    have hsame := Overlap.same_of_along
      (statements_along (Grammar.along_ofDepth Overlap.unplaced (ts.length + 2))) hbeside
    unfold sourceFile
    dsimp only
    rw [hlength]
    cases hr : (statements (Grammar.ofDepth (ts.length + 2))).run ⟨t, ts, 0⟩ with
    | error f =>
      rw [hr] at hsame
      obtain ⟨f', hr', -⟩ := hsame.of_error
      rw [hr']
      exact .inr ⟨f, f', rfl, rfl⟩
    | ok x =>
      rw [hr] at hsame
      obtain ⟨body, c, hr', hbody, -⟩ := hsame.of_ok
      rw [hr']
      have hbare : x.1.map Tree.bare = body.map Tree.bare := hbody
      exact .inl ⟨_, _, rfl, rfl, Tree.alike_node (congrArg Shape.sourceFile hbare.symm)⟩

namespace Arena

variable {source source' : String} {tokens tokens' : List Token} {comments comments' : List RawComment}

/-- Comments and layout do not matter for the nodes of a source, but for where these stand. -/
theorem parse_unplaced (ht : Token.tokenize source.toList = .ok (tokens, comments))
    (ht' : Token.tokenize source'.toList = .ok (tokens', comments'))
    (h : tokens'.map Token.unplaced = tokens.map Token.unplaced) :
    ((∃ a, parse source = .ok a) ↔ ∃ a', parse source' = .ok a') ∧
      ∀ a a', parse source = .ok a → parse source' = .ok a' → a'.root = a.root ∧
        a'.nodes.map Node.unplaced = a.nodes.map Node.unplaced := by
  obtain ⟨hchain, hbound⟩ := Token.chain_tokenize ht
  obtain ⟨hchain', hbound'⟩ := Token.chain_tokenize ht'
  rcases Parser.sourceFile_unplaced (sourceSpan source).stop
    (sourceSpan source').stop hchain h with ⟨t, t', hs, hs', halike⟩ | ⟨f, f', hs, hs'⟩
  · have ha := parse_of_tokens ht hs
    have ha' := parse_of_tokens ht' hs'
    refine ⟨iff_of_true ⟨_, ha⟩ ⟨_, ha'⟩, fun a a' hparse hparse' => ?_⟩
    cases ha.symm.trans hparse
    cases ha'.symm.trans hparse'
    obtain ⟨hplaced, -⟩ := Parser.sourceFile_placed hchain hbound hs
    obtain ⟨hplaced', -⟩ := Parser.sourceFile_placed hchain' hbound' hs'
    exact unplaced_ofTree hplaced.nested hplaced'.nested halike
  · have he := parse_eq_error ht hs
    have he' := parse_eq_error ht' hs'
    refine ⟨iff_of_false ?_ ?_, ?_⟩
    · rintro ⟨a, ha⟩
      cases he.symm.trans ha
    · rintro ⟨a', ha'⟩
      cases he'.symm.trans ha'
    · intro a a' ha
      cases he.symm.trans ha

theorem parse_unplaced_array : ∃ tokens comments tokens' comments',
    Token.tokenize "a <- [98, \"A\"]".toList = .ok (tokens, comments) ∧
      Token.tokenize "a<-/* b */['b',@\"A\" ]".toList = .ok (tokens', comments') ∧
      tokens'.map Token.unplaced = tokens.map Token.unplaced ∧
      ((∃ a, parse "a <- [98, \"A\"]" = .ok a) ↔ ∃ a', parse "a<-/* b */['b',@\"A\" ]" = .ok a') ∧
      ∀ a a', parse "a <- [98, \"A\"]" = .ok a → parse "a<-/* b */['b',@\"A\" ]" = .ok a' →
        a'.root = a.root ∧ a'.nodes.map Node.unplaced = a.nodes.map Node.unplaced := by
  have htokens : ((Token.tokenize "a <- [98, \"A\"]".toList).toOption.any fun x =>
      (Token.tokenize "a<-/* b */['b',@\"A\" ]".toList).toOption.any fun x' =>
        x'.1.map Token.unplaced = x.1.map Token.unplaced) = true := by decide +kernel
  obtain ⟨⟨tokens, comments⟩, ht, htokens⟩ := exists_ok htokens
  obtain ⟨⟨tokens', comments'⟩, ht', htokens⟩ := exists_ok htokens
  have h := of_decide_eq_true htokens
  exact ⟨tokens, comments, tokens', comments', ht, ht', h, parse_unplaced ht ht' h⟩

end Arena

end SquirrelAnalyzer
