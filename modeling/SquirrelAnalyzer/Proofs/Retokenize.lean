import SquirrelAnalyzer.Proofs.Exact
import SquirrelAnalyzer.Proofs.Print
import SquirrelAnalyzer.Proofs.Rescan

namespace SquirrelAnalyzer

open Text

namespace Punct

theorem not_isBlank {p : Punct} {c : Char} {t : List Char} (h : p.text.toList = c :: t) :
    isBlank c = false := by
  have hall : ∀ p ∈ all, (p.text.toList.head?.all fun c => !isBlank c) = true := by decide
  have hhead := hall p (mem_all p)
  rw [h] at hhead
  simpa using hhead

theorem ne_hash {p : Punct} {c : Char} {t : List Char} (h : p.text.toList = c :: t) : c ≠ '#' := by
  have hall : ∀ p ∈ all, p.text.toList.head? ≠ some '#' := by decide
  have hhead := hall p (mem_all p)
  rw [h] at hhead
  simpa using hhead

theorem text_slash {p : Punct} {c : Char} {t : List Char} (h : p.text.toList = '/' :: c :: t) :
    c = '=' := by
  have hall : ∀ p ∈ all, p.text.toList.head? = some '/' →
      (p.text.toList.tail.head?.all (· == '=')) = true := by decide
  have htail := hall p (mem_all p) (by rw [h]; rfl)
  rw [h] at htail
  simpa using htail

end Punct

namespace Text

def blanks : List Char :=
  [9, 10, 11, 12, 13, 0x20, 0x85, 0xa0, 0x1680, 0x2000, 0x2001, 0x2002, 0x2003, 0x2004, 0x2005,
    0x2006, 0x2007, 0x2008, 0x2009, 0x200a, 0x2028, 0x2029, 0x202f, 0x205f, 0x3000].map Char.ofNat

theorem mem_blanks {c : Char} (h : isBlank c = true) : c ∈ blanks := by
  refine List.mem_map.mpr ⟨c.toNat, ?_, Char.ofNat_toNat c⟩
  simp only [isBlank, Bool.or_eq_true, Bool.and_eq_true, decide_eq_true_eq, beq_iff_eq] at h
  simp only [List.mem_cons, List.not_mem_nil, or_false]
  omega

theorem starts_of_isBlank {c : Char} (h : isBlank c = true) :
    c.isDigit = false ∧ isWordStart c = false := by
  have hall : blanks.all (fun c => !(c.isDigit || isWordStart c)) = true := by decide +kernel
  exact Bool.or_eq_false_iff.mp (rejects_of_all hall c (mem_blanks h))

end Text

namespace Token

def OneLine (ks : List Kind) (tokens : List Token) : Prop :=
  tokens.map (fun t => (t.kind, t.newlineBefore)) = ks.map (·, false)

variable {c : Char} {cs : List Char} {k : Kind}

theorem exists_punct (hdigit : c.isDigit = false) (hword : isWordStart c = false) (hquote : c ≠ '"')
    (hapostrophe : c ≠ '\'') (hverbatim : c ≠ '@') (h : (scan (c :: cs)).outcome = .ok k) :
    ∃ (p : Punct) (t : List Char), p.text.toList = c :: t ∧ cs = t ++ (scan (c :: cs)).rest := by
  rw [scan_punct (by simp [hdigit]) (by simp [hword]) hquote hapostrophe
    (fun h => absurd h hverbatim)]
    at h ⊢
  unfold punctScan at h ⊢
  split at h
  · next p rest hp =>
    have happend := append_of_punctOf? hp
    cases htext : p.text.toList with
    | nil => exact absurd htext p.text_ne_nil
    | cons d t =>
      rw [htext] at happend
      obtain ⟨rfl, rfl⟩ := List.cons.inj happend
      exact ⟨p, t, htext, rfl⟩
  · cases h

theorem not_isBlank_of_scan (h : (scan (c :: cs)).outcome = .ok k) : isBlank c = false := by
  rw [← Bool.not_eq_true]
  intro hblank
  have hne {d : Char} (hd : isBlank d = false) : c ≠ d := by
    rintro rfl
    rw [hblank] at hd
    cases hd
  obtain ⟨hdigit, hword⟩ := starts_of_isBlank hblank
  obtain ⟨p, t, hp, -⟩ := exists_punct hdigit hword
    (hne (by decide)) (hne (by decide)) (hne (by decide)) h
  exact absurd rfl (hne (Punct.not_isBlank hp))

theorem not_startsLineComment_of_scan (h : (scan cs).outcome = .ok k)
    (hrest : Parted (scan cs).rest) :
    Gap.startsLineComment cs = false ∧ Gap.blockBody? cs = none := by
  have hslash {d : Char} {rest : List Char} (hcs : cs = '/' :: d :: rest) : d = '=' ∨ d = ' ' := by
    subst hcs
    obtain ⟨p, t, hp, hrest'⟩ :=
      exists_punct (by decide) (by decide) (by decide) (by decide) (by decide) h
    cases t with
    | nil => exact .inr (hrest d (by rw [← List.nil_append (scan _).rest, ← hrest']; rfl))
    | cons e t =>
      obtain ⟨rfl, -⟩ := List.cons.inj hrest'
      exact .inl (Punct.text_slash hp)
  constructor
  · unfold Gap.startsLineComment
    split
    · obtain ⟨p, t, hp, -⟩ :=
        exists_punct (by decide) (by decide) (by decide) (by decide) (by decide) h
      exact absurd rfl (Punct.ne_hash hp)
    · exact absurd (hslash rfl) (by decide)
    · rfl
  · unfold Gap.blockBody?
    split
    · exact absurd (hslash rfl) (by decide)
    · rfl

theorem ofText_of_scan (h : (scan cs).outcome = .ok k) (hrest : Parted (scan cs).rest) :
    Gap.ofText cs = ⟨[], cs, false⟩ := by
  cases cs with
  | nil => simp [Gap.ofText]
  | cons c cs =>
    obtain ⟨hline, hblock⟩ := not_startsLineComment_of_scan h hrest
    rw [Gap.ofText, if_neg (by simp [not_isBlank_of_scan h]), if_neg (by simp [hline])]
    split
    · rfl
    · next hbody =>
      rw [hblock] at hbody
      cases hbody

theorem pull_ofText {lead text rest : List Char} (hlead : lead = [] ∨ lead = [' '])
    (hscan : scan cs = ⟨.ok k, text, rest⟩) (hrest : Parted rest) :
    Pull.ofText (lead ++ cs) = ⟨lead.map .blank, .ok k, text, rest⟩ := by
  have hgap : Gap.ofText cs = ⟨[], cs, false⟩ := ofText_of_scan (by rw [hscan]) (by rwa [hscan])
  rcases hlead with rfl | rfl
  · rw [List.nil_append]
    simp [Pull.ofText, hgap, hscan]
  · have hblank : Gap.ofText (' ' :: cs) = (Gap.ofText cs).cons (.blank ' ') := by
      rw [Gap.ofText, if_pos (by decide)]
    simp [Pull.ofText, hblank, hgap, hscan, Gap.cons]

theorem item_ofPull (k : Kind) (text rest : List Char) {lead : List Char}
    (hlead : lead = [] ∨ lead = [' ']) (offset : Nat) :
    (Item.ofPull offset ⟨lead.map .blank, .ok k, text, rest⟩).comments = [] ∧
      ∃ t, (Item.ofPull offset ⟨lead.map .blank, .ok k, text, rest⟩).result = .ok t ∧
        t.kind = k ∧ t.newlineBefore = false := by
  rcases hlead with rfl | rfl
  · exact ⟨rfl, _, rfl, rfl, rfl⟩
  · exact ⟨rfl, _, rfl, rfl, rfl⟩

theorem gather_itemsFrom {offset : Nat} {p : Pull} {t : Token} {tokens : List Token}
    (hp : Pull.ofText cs = p) (hcomments : (Item.ofPull offset p).comments = [])
    (ht : (Item.ofPull offset p).result = .ok t) (hlast : p.isLast = false)
    (hrest : gather (itemsFrom (stopOffset offset p) p.rest) = .ok (tokens, [])) :
    gather (itemsFrom offset cs) = .ok (t :: tokens, []) := by
  rw [itemsFrom, dif_neg (by rw [hp, hlast]; simp)]
  simp [gather, hp, ht, hcomments, hrest]

end Token

namespace Spelling

variable (sp : Spelling) {k : Token.Kind} {x : List Char}

theorem scan_text (h : k.Readable) (hk : k ≠ .endOfFile) (hx : Parted x) :
    Token.scan (sp.text k ++ x) = ⟨.ok k, sp.text k, x⟩ := by
  have hreads := sp.reads k h hk
  have hscan : (Token.scan (sp.text k)).outcome = .ok k := by rw [hreads]
  have hagain := Token.scan_again hscan hk hx
  rwa [hreads] at hagain

theorem gather_spell {ks : List Token.Kind} (h : ∀ k ∈ ks, k.Readable ∧ k ≠ .endOfFile)
    (offset : Nat) {lead : List Char} (hlead : lead = [] ∨ lead = [' ']) :
    ∃ tokens, Token.gather (Token.itemsFrom offset (lead ++ sp.spell ks)) = .ok (tokens, []) ∧
      Token.OneLine (ks ++ [Token.Kind.endOfFile]) tokens := by
  -- the blank behind a token is the gap in front of the next one
  induction ks generalizing offset lead with
  | nil =>
    have hscan : Token.scan [] = ⟨.ok .endOfFile, [], []⟩ := rfl
    have hpull := Token.pull_ofText hlead hscan nofun
    obtain ⟨hcomments, t, ht, hkind, hnewline⟩ := Token.item_ofPull .endOfFile [] [] hlead
      offset
    refine ⟨[t], ?_, by simp [Token.OneLine, hkind, hnewline]⟩
    show Token.gather (Token.itemsFrom offset (lead ++ [])) = _
    rw [Token.itemsFrom, dif_pos (by rw [hpull]; rfl), hpull]
    simp [Token.gather, ht, hcomments]
  | cons k ks ih =>
    obtain ⟨hk, hks⟩ := List.forall_mem_cons.mp h
    have hparted : Parted (' ' :: sp.spell ks) := by
      rintro _ ⟨⟩
      rfl
    have hpull := Token.pull_ofText hlead (sp.scan_text hk.1 hk.2 hparted) hparted
    obtain ⟨hcomments, t, ht, hkind, hnewline⟩ := Token.item_ofPull k (sp.text k)
      (' ' :: sp.spell ks) hlead offset
    obtain ⟨tokens, hgather, hline⟩ := ih hks (Token.stopOffset offset
      ⟨lead.map .blank, .ok k, sp.text k, ' ' :: sp.spell ks⟩) (.inr rfl)
    have hlast : (⟨lead.map .blank, .ok k, sp.text k, ' ' :: sp.spell ks⟩ : Pull).isLast = false := by
      rw [← Bool.not_eq_true, Pull.isLast_iff]
      exact fun he => hk.2 (Except.ok.inj he)
    refine ⟨t :: tokens, ?_, by simp [Token.OneLine, hkind, hnewline, hline.symm]⟩
    have hspell : sp.spell (k :: ks) = sp.text k ++ ' ' :: sp.spell ks := by simp [spell]
    rw [hspell]
    exact Token.gather_itemsFrom hpull hcomments ht hlast hgather

theorem tokenize_spell {ks : List Token.Kind} (h : ∀ k ∈ ks, k.Readable ∧ k ≠ .endOfFile) :
    ∃ tokens, Token.tokenize (sp.spell ks) = .ok (tokens, []) ∧
      Token.OneLine (ks ++ [Token.Kind.endOfFile]) tokens := by
  obtain ⟨tokens, hgather, hline⟩ := sp.gather_spell h 0 (.inl rfl)
  refine ⟨tokens.map Token.clamp, Token.tokenize_of_gather hgather, ?_⟩
  rw [Token.OneLine, List.map_map]
  exact hline

theorem nonempty : Nonempty Spelling := by
  have hspelled (k : Token.Kind) : ∃ text, k.Readable → k ≠ .endOfFile →
      Token.scan text = ⟨.ok k, text, []⟩ := by
    by_cases hk : k.Readable ∧ k ≠ .endOfFile
    · obtain ⟨⟨cs, hcs⟩, hne⟩ := hk
      have hagain := Token.scan_again hcs hne (x := []) nofun
      rw [List.append_nil] at hagain
      exact ⟨(Token.scan cs).text, fun _ _ => hagain⟩
    · exact ⟨[], fun hreadable hne => absurd ⟨hreadable, hne⟩ hk⟩
  choose text htext using hspelled
  exact ⟨⟨text, htext⟩⟩

end Spelling

end SquirrelAnalyzer
