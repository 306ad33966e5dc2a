import GameHop.Printer.Layout
import GameHop.Proofs.Reading.Spelling
import GameHop.Source.Lexer
import Mathlib.Data.List.Chain

/-!
From the text of a layout back to its tokens.
-/

namespace GameHop

/-! ## Characters after a token -/

/-- Whether the symbol and the character begin a longer symbol or a comment. -/
def Sym.growsWith : Sym → Char → Bool
  | .minus, c => c == '>'
  | .colon, c | .eq, c | .bang, c | .lt, c | .gt, c => c == '='
  | .amp, c => c == '&'
  | .pipe, c => c == '|'
  | .dot, c => c == '.'
  | .slash, c => c == '/' || c == '*'
  | _, _ => false

/-- Whether a token ends before the character. -/
def TokenKind.endsBefore : TokenKind → Char → Bool
  | .keyword _, c | .ident _, c => !Lexer.isIdentRest c
  | .int _, c => !Lexer.isDigit c
  | .sym s, c => !s.growsWith c
  | .eof, _ => true

/-- Whether the token has a text of its own that the lexer reads as the token. -/
def TokenKind.Valid : TokenKind → Prop
  | .ident x => Lexer.isName x = true
  | .eof => False
  | _ => True

namespace Lexer

theorem takeWhile_append_of_head {p : Char → Bool} {cs ds : List Char} (hcs : cs.all p = true)
    (hds : ∀ d ∈ ds.head?, p d = false) : (cs ++ ds).takeWhile p = cs := by
  rw [List.takeWhile_append_of_pos (by simpa using hcs)]
  cases ds with
  | nil => simp
  | cons d ds => simp [hds d rfl]

theorem isBlank_eq_false_of_isIdentStart {c : Char} (h : isIdentStart c = true) :
    isBlank c = false := by
  by_contra hb
  simp only [isBlank, Bool.not_eq_false, Bool.or_eq_true, beq_iff_eq] at hb
  rcases hb with (((rfl | rfl) | rfl) | rfl) | rfl <;> exact absurd h (by decide)

theorem isDigit_eq_false_of_isIdentStart {c : Char} (h : isIdentStart c = true) :
    isDigit c = false := by
  by_contra hd
  simp only [isDigit, Bool.not_eq_false, Bool.and_eq_true, decide_eq_true_eq, Char.le_def,
    UInt32.le_iff_toNat_le] at hd
  simp only [isIdentStart, Bool.or_eq_true, Bool.and_eq_true, decide_eq_true_eq, beq_iff_eq,
    Char.le_def, UInt32.le_iff_toNat_le] at h
  have h9 : '9'.val.toNat = 57 := rfl
  have ha : 'a'.val.toNat = 97 := rfl
  have hA : 'A'.val.toNat = 65 := rfl
  rcases h with (h | h) | rfl
  · omega
  · omega
  · exact absurd hd.2 (by decide)

theorem isBlank_eq_false_of_isDigit {c : Char} (h : isDigit c = true) : isBlank c = false := by
  by_contra hb
  simp only [isBlank, Bool.not_eq_false, Bool.or_eq_true, beq_iff_eq] at hb
  rcases hb with (((rfl | rfl) | rfl) | rfl) | rfl <;> exact absurd h (by decide)

/-! ## Lexemes by their first character -/

theorem lexeme_of_isBlank {c : Char} (hc : isBlank c = true) (rest : List Char) :
    lexeme? c rest = some (.blank, 0) :=
  if_pos hc

theorem lexeme_of_isDigit {c : Char} (hc : isDigit c = true) (rest : List Char) :
    lexeme? c rest =
      some (numberLexeme (c :: rest.takeWhile isDigit), (rest.takeWhile isDigit).length) :=
  (if_neg (by simp [isBlank_eq_false_of_isDigit hc])).trans (if_pos hc)

theorem lexeme_of_isIdentStart {c : Char} (hc : isIdentStart c = true) (rest : List Char) :
    lexeme? c rest =
      some (wordLexeme (c :: rest.takeWhile isIdentRest), (rest.takeWhile isIdentRest).length) := by
  refine (if_neg ?_).trans ((if_neg ?_).trans (if_pos hc))
  · simp [isBlank_eq_false_of_isIdentStart hc]
  · simp [isDigit_eq_false_of_isIdentStart hc]

theorem lexeme_of_symbol {c : Char} {rest : List Char} (hb : isBlank c = false)
    (hd : isDigit c = false) (hi : isIdentStart c = false)
    (hcomment : c = '/' → ∀ d ∈ rest.head?, d ≠ '/' ∧ d ≠ '*') :
    lexeme? c rest = symbolLexeme? (c :: rest) := by
  simp only [lexeme?, hb, hd, hi, Bool.false_eq_true, if_false]
  split
  · exact absurd rfl (hcomment rfl _ rfl).1
  · exact absurd rfl (hcomment rfl _ rfl).2
  · rfl

/-! ## Lexemes of tokens -/

theorem lexeme_word {c : Char} {cs ds : List Char} (hc : isIdentStart c = true)
    (hcs : cs.all isIdentRest = true) (hds : ∀ d ∈ ds.head?, isIdentRest d = false) :
    lexeme? c (cs ++ ds) = some (wordLexeme (c :: cs), cs.length) := by
  rw [lexeme_of_isIdentStart hc, takeWhile_append_of_head hcs hds]

theorem lexeme_keyword (k : Keyword) {ds : List Char}
    (hds : ∀ d ∈ ds.head?, isIdentRest d = false) :
    ∃ c cs, k.text.toList = c :: cs ∧
      lexeme? c (cs ++ ds) = some (.token (.keyword k), cs.length) := by
  obtain ⟨c, cs, htext, hc, hcs, hlex⟩ : ∃ c cs, k.text.toList = c :: cs ∧ isIdentStart c = true ∧
      cs.all isIdentRest = true ∧ wordLexeme (c :: cs) = .token (.keyword k) := by
    cases k <;> exact ⟨_, _, rfl, by decide, by decide, by decide⟩
  exact ⟨c, cs, htext, by rw [lexeme_word hc hcs hds, hlex]⟩

theorem lexeme_ident {x : String} (hx : isName x = true) {ds : List Char}
    (hds : ∀ d ∈ ds.head?, isIdentRest d = false) :
    ∃ c cs, x.toList = c :: cs ∧ lexeme? c (cs ++ ds) = some (.token (.ident x), cs.length) := by
  unfold isName at hx
  split at hx
  · exact absurd hx (by simp)
  · rename_i c cs htext
    simp only [Bool.and_eq_true, Option.isNone_iff_eq_none] at hx
    obtain ⟨⟨hc, hcs⟩, hk⟩ := hx
    have hofList : String.ofList (c :: cs) = x := by rw [← htext, String.ofList_toList]
    refine ⟨c, cs, htext, ?_⟩
    rw [lexeme_word hc hcs hds]
    simp [wordLexeme, hofList, hk]

theorem lexeme_int (n : UInt64) {ds : List Char} (hds : ∀ d ∈ ds.head?, isDigit d = false) :
    ∃ c cs, (toString n.toNat).toList = c :: cs ∧
      lexeme? c (cs ++ ds) = some (.token (.int n), cs.length) := by
  have hdigits : ∀ c ∈ Nat.toDigits 10 n.toNat, isDigit c = true := by
    intro c hc
    have := Nat.isDigit_of_mem_toDigits (by decide) (by decide) hc
    simpa [Char.isDigit, isDigit, Char.le_def] using this
  obtain ⟨c, cs, htext⟩ := List.exists_cons_of_ne_nil (Nat.toDigits_ne_nil (n := n.toNat) (b := 10))
  rw [Nat.toString_eq_ofList_toDigits, String.toList_ofList, htext]
  rw [htext] at hdigits
  have hc := hdigits c (by simp)
  have hcs : cs.all isDigit = true := by simpa using fun d hd => hdigits d (by simp [hd])
  have hvalue : decimal (c :: cs) = n.toNat := by
    rw [← htext]
    exact Nat.ofDigitChars_ten_toDigits
  have hlex : numberLexeme (c :: cs) = .token (.int n) := by
    have hlt : n.toNat < UInt64.size := n.toNat_lt_size
    simp [numberLexeme, hvalue, hlt]
  refine ⟨c, cs, rfl, ?_⟩
  rw [lexeme_of_isDigit hc, takeWhile_append_of_head hcs hds, hlex]

theorem ofChars_symbol (s : Sym) {ds : List Char}
    (hds : ∀ d ∈ ds.head?, s.growsWith d = false) : Sym.ofChars? (s.text.toList ++ ds) = some s := by
  cases ds with
  | nil => rw [List.append_nil]; cases s <;> decide
  | cons d ds =>
    have hne : ∀ c, s.growsWith c = true → (c == d) = false := by
      intro c hc
      rw [beq_eq_false_iff_ne]
      rintro rfl
      simp [hds c rfl] at hc
    cases s <;>
      simp [Sym.ofChars?, Sym.all, Sym.text, List.find?, List.isPrefixOf, hne, Sym.growsWith]

theorem lexeme_sym (s : Sym) {ds : List Char} (hds : ∀ d ∈ ds.head?, s.growsWith d = false) :
    ∃ c cs, s.text.toList = c :: cs ∧ lexeme? c (cs ++ ds) = some (.token (.sym s), cs.length) := by
  obtain ⟨c, cs, htext, hb, hd, hi, hslash⟩ : ∃ c cs, s.text.toList = c :: cs ∧
      isBlank c = false ∧ isDigit c = false ∧ isIdentStart c = false ∧
      (c = '/' → s = .slash ∧ cs = []) := by
    cases s <;> exact ⟨_, _, rfl, by decide, by decide, by decide, by decide⟩
  refine ⟨c, cs, htext, ?_⟩
  rw [lexeme_of_symbol hb hd hi, ← List.cons_append, ← htext, symbolLexeme?, ofChars_symbol s hds]
  · simp [htext]
  · intro hc d hd
    obtain ⟨rfl, rfl⟩ := hslash hc
    simpa [Sym.growsWith] using hds d hd

/-- **A token is the lexeme at its beginning.** -/
theorem lexeme_of_valid {k : TokenKind} (hk : k.Valid) {ds : List Char}
    (hds : ∀ d ∈ ds.head?, k.endsBefore d = true) :
    ∃ c cs, k.text.toList = c :: cs ∧ lexeme? c (cs ++ ds) = some (.token k, cs.length) := by
  cases k with
  | keyword k => exact lexeme_keyword k (by simpa [TokenKind.endsBefore] using hds)
  | sym s => exact lexeme_sym s (by simpa [TokenKind.endsBefore] using hds)
  | int n => exact lexeme_int n (by simpa [TokenKind.endsBefore] using hds)
  | ident x => exact lexeme_ident hk (by simpa [TokenKind.endsBefore] using hds)
  | eof => exact hk.elim

/-! ## Runs of the lexer -/

theorem tokensFrom_skip (offset : Nat) (cs ds : List Char) :
    tokensFrom offset cs.length (cs ++ ds) = tokensFrom (offset + byteLen cs) 0 ds := by
  induction cs generalizing offset with
  | nil => simp [byteLen]
  | cons c cs ih =>
    calc tokensFrom offset (cs.length + 1) (c :: (cs ++ ds))
        = tokensFrom (offset + c.utf8Size) cs.length (cs ++ ds) := rfl
      _ = tokensFrom (offset + c.utf8Size + byteLen cs) 0 ds := ih _
      _ = tokensFrom (offset + byteLen (c :: cs)) 0 ds := by rw [Nat.add_assoc, byteLen]

theorem tokensFrom_token {k : TokenKind} (hk : k.Valid) {ds : List Char}
    (hds : ∀ d ∈ ds.head?, k.endsBefore d = true) (offset : Nat) :
    ∃ t offset', t.kind = k ∧ tokensFrom offset 0 (k.text.toList ++ ds) =
      (t :: ·) <$> tokensFrom offset' 0 ds := by
  obtain ⟨c, cs, htext, hlex⟩ := lexeme_of_valid hk hds
  rw [htext, List.cons_append, tokensFrom, hlex]
  simp only [tokensFrom_skip]
  exact ⟨⟨k, _⟩, _, rfl, bind_pure_comp ..⟩

theorem tokensFrom_blank {cs : List Char} (hcs : ∀ c ∈ cs, isBlank c = true) (offset : Nat)
    (ds : List Char) : ∃ offset', tokensFrom offset 0 (cs ++ ds) = tokensFrom offset' 0 ds := by
  induction cs generalizing offset with
  | nil => exact ⟨offset, rfl⟩
  | cons c cs ih =>
    obtain ⟨offset', h⟩ := ih (fun d hd => hcs d (by simp [hd])) (offset + c.utf8Size)
    refine ⟨offset', ?_⟩
    rw [List.cons_append, tokensFrom, lexeme_of_isBlank (hcs c (by simp))]
    exact h

end Lexer

/-! ## Tidy layouts -/

/-- Whether a piece is read on its own before the other one. -/
def Piece.Apart : Piece → Piece → Prop
  | .tok k, next => ∀ c ∈ next.text.toList.head?, k.endsBefore c = true
  | _, _ => True

/-- Whether a piece is a blank or a token with a text. -/
def Piece.Valid : Piece → Prop
  | .tok k => k.Valid
  | _ => True

/-- Whether all pieces of a layout are read on their own. -/
structure Layout.Tidy (l : Layout) : Prop where
  chain : l.IsChain Piece.Apart
  valid : ∀ p ∈ l, p.Valid

theorem toList_indent (n : Nat) : ("".pushn ' ' n).toList = List.replicate n ' ' := by
  rw [String.pushn_eq_repeat_push]
  induction n with
  | zero => rfl
  | succ n ih => rw [Nat.repeat, String.toList_push, ih, List.replicate_succ']

theorem Piece.text_ne_nil {p : Piece} (hp : p.Valid) : p.text.toList ≠ [] := by
  cases p with
  | tok k =>
    obtain ⟨c, cs, h, -⟩ : ∃ c cs, k.text.toList = c :: cs ∧ Lexer.lexeme? c (cs ++ []) = _ :=
      Lexer.lexeme_of_valid hp (by simp)
    simp [text, h]
  | space => decide
  | newline d => simp [text]

theorem Layout.toList_text_cons (p : Piece) (l : Layout) :
    (text (p :: l)).toList = p.text.toList ++ l.text.toList := by
  simp [text, String.join_cons]

theorem Layout.Tidy.head_text {l : Layout} (h : l.Tidy) :
    l.text.toList.head? = l.head?.bind fun p => p.text.toList.head? := by
  cases l with
  | nil => rfl
  | cons p l =>
    have hne := Piece.text_ne_nil (h.valid p (by simp))
    rw [toList_text_cons, List.head?_append_of_ne_nil _ hne]
    rfl

/-- **The lexer gives the tokens of a tidy layout.** -/
theorem Layout.Tidy.tokensFrom_text {l : Layout} (h : l.Tidy) (offset : Nat) :
    ∃ ts, Lexer.tokensFrom offset 0 l.text.toList = .ok ts ∧
      ts.map (·.kind) = l.kinds ++ [.eof] := by
  induction l generalizing offset with
  | nil => exact ⟨_, rfl, rfl⟩
  | cons p l ih =>
    have hl : Layout.Tidy l := ⟨h.chain.tail, fun q hq => h.valid q (by simp [hq])⟩
    rw [toList_text_cons]
    cases p with
    | tok k =>
      have hends : ∀ d ∈ (text l).toList.head?, k.endsBefore d = true := by
        intro d hd
        rw [hl.head_text] at hd
        obtain ⟨q, hq, hd⟩ := Option.bind_eq_some_iff.1 hd
        exact (List.isChain_cons.1 h.chain).1 q hq d hd
      obtain ⟨t, offset', ht, hrun⟩ :=
        Lexer.tokensFrom_token (h.valid (.tok k) (by simp)) hends offset
      obtain ⟨ts, hts, hkinds⟩ := ih hl offset'
      refine ⟨t :: ts, ?_, ?_⟩
      · show Lexer.tokensFrom offset 0 (k.text.toList ++ _) = _
        rw [hrun, hts]
        rfl
      · simp [ht, hkinds, kinds, Piece.kind?]
    | space =>
      have hblank : ∀ c ∈ Piece.space.text.toList, Lexer.isBlank c = true := by
        intro c hc
        obtain rfl : c = ' ' := List.mem_singleton.1 hc
        decide
      obtain ⟨offset', hrun⟩ := Lexer.tokensFrom_blank hblank offset (text l).toList
      obtain ⟨ts, hts, hkinds⟩ := ih hl offset'
      exact ⟨ts, by rw [hrun, hts], hkinds⟩
    | newline d =>
      have hblank : ∀ c ∈ (Piece.newline d).text.toList, Lexer.isBlank c = true := by
        intro c hc
        simp only [Piece.text, String.toList_append, toList_indent, List.mem_append] at hc
        rcases hc with hc | hc
        · obtain rfl : c = '\n' := by simpa using hc
          rfl
        · rw [List.eq_of_mem_replicate hc]
          rfl
      obtain ⟨offset', hrun⟩ := Lexer.tokensFrom_blank hblank offset (text l).toList
      obtain ⟨ts, hts, hkinds⟩ := ih hl offset'
      exact ⟨ts, by rw [hrun, hts], hkinds⟩

end GameHop
