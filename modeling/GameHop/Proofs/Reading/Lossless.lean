import GameHop.Proofs.Reading.Lexed
import Mathlib

/-!
Tokens and the text they were read from.
-/

namespace GameHop

/-! ## Spellings with spaces between them -/

theorem TokenKind.endsBefore_space (k : TokenKind) : k.endsBefore ' ' = true := by
  cases k with
  | sym s => cases s <;> rfl
  | _ => rfl

/-- The tokens with a space between two of them. -/
def Layout.spaced (ks : List TokenKind) : Layout :=
  (ks.map Piece.tok).intersperse .space

theorem Layout.tidy_spaced : ∀ {ks : List TokenKind}, (∀ k ∈ ks, k.Valid) → (spaced ks).Tidy
  | [], _ => ⟨.nil, by simp [spaced]⟩
  | [k], h => ⟨.singleton _, by simpa [spaced, Piece.Valid] using h⟩
  | k :: l :: ks, h => by
    have hks : ∀ k ∈ l :: ks, k.Valid := fun k hk => h k (List.mem_cons_of_mem _ hk)
    obtain ⟨hchain, hvalid⟩ := tidy_spaced hks
    have hspaced : spaced (k :: l :: ks) = .tok k :: .space :: spaced (l :: ks) := rfl
    have hk : Piece.Apart (.tok k) .space := by
      intro c hc
      obtain rfl : ' ' = c := by simpa [Piece.text] using hc
      exact k.endsBefore_space
    rw [hspaced]
    refine ⟨.cons_cons hk (List.isChain_cons.2 ⟨fun _ _ => trivial, hchain⟩), ?_⟩
    simp only [List.mem_cons, forall_eq_or_imp]
    exact ⟨h k (by simp), trivial, hvalid⟩

theorem Layout.kinds_spaced : ∀ ks : List TokenKind, (spaced ks).kinds = ks
  | [] | [_] => rfl
  | k :: l :: ks => congrArg (k :: ·) (kinds_spaced (l :: ks))

theorem Layout.text_spaced :
    ∀ ks : List TokenKind, (spaced ks).text = " ".intercalate (ks.map (·.text))
  | [] => rfl
  | [k] => by simp [spaced, text, Piece.text, String.join_cons]
  | k :: l :: ks => by
    have ih := text_spaced (l :: ks)
    have htext : (spaced (k :: l :: ks)).text = k.text ++ " " ++ (spaced (l :: ks)).text := by
      show String.join (k.text :: " " :: _) = _
      rw [String.join_cons, String.join_cons, ← String.append_assoc]
      rfl
    rw [htext, ih]
    exact String.intercalate_cons_cons.symm

/-- **Lexing loses nothing.** -/
theorem tokenize_lossless :
    (∀ source tokens, tokenize source = .ok tokens →
      Lexer.Lexed 0 source.toList tokens ∧
      (tokens.Pairwise fun a b => a.span.offset < a.span.stop ∧ a.span.stop ≤ b.span.offset) ∧
      (∀ t ∈ tokens, ∃ w, t.span.Covers source w ∧
        (t.kind.SpelledBy w.toList ∨ t.kind = .eof ∧ w = "")) ∧
      ∃ front, tokens = front ++ [⟨.eof, ⟨source.utf8ByteSize, 0⟩⟩] ∧ ∀ t ∈ front, t.kind ≠ .eof) ∧
    ∀ kinds : List TokenKind, (∀ k ∈ kinds, k.Valid) →
      ∃ tokens, tokenize (" ".intercalate (kinds.map (·.text))) = .ok tokens ∧
        tokens.map (·.kind) = kinds ++ [.eof] := by
  refine ⟨fun source tokens h => ?_, fun kinds h => ?_⟩
  · have hlexed := Lexer.lexed_of_tokensFrom 0 source.toList
    rw [show Lexer.tokensFrom 0 0 source.toList = .ok tokens from h] at hlexed
    refine ⟨hlexed, hlexed.pairwise, fun t ht => ?_, ?_⟩
    · obtain ⟨w, hw, hspelled⟩ := hlexed.within t ht
      exact ⟨String.ofList w, hw.covers, by simpa using hspelled⟩
    · simpa [Lexer.byteLen_eq] using hlexed.eq_append_eof
  · obtain ⟨tokens, hrun, hkinds⟩ := (Layout.tidy_spaced h).tokensFrom_text 0
    rw [Layout.kinds_spaced] at hkinds
    exact ⟨tokens, by rw [← Layout.text_spaced]; exact hrun, hkinds⟩

/-- A slash that opens no comment, a comment, and a character of two bytes in it. -/
theorem tokenize_lossless_comment :
    tokenize "/*/ //é\n01" = .ok [⟨.sym .slash, ⟨0, 1⟩⟩, ⟨.sym .star, ⟨1, 1⟩⟩, ⟨.sym .slash, ⟨2, 1⟩⟩,
      ⟨.int 1, ⟨9, 2⟩⟩, ⟨.eof, ⟨11, 0⟩⟩] ∧
    (∃ w, Span.Covers "/*/ //é\n01" ⟨9, 2⟩ w ∧ (TokenKind.SpelledBy (.int 1) w.toList ∨ w = "")) ∧
    ∃ tokens, tokenize "/ 1" = .ok tokens ∧ tokens.map (·.kind) = [.sym .slash, .int 1, .eof] := by
  have hrun : tokenize "/*/ //é\n01" = .ok [⟨.sym .slash, ⟨0, 1⟩⟩, ⟨.sym .star, ⟨1, 1⟩⟩,
      ⟨.sym .slash, ⟨2, 1⟩⟩, ⟨.int 1, ⟨9, 2⟩⟩, ⟨.eof, ⟨11, 0⟩⟩] := by cbv
  obtain ⟨-, -, hspelled, -⟩ := tokenize_lossless.1 _ _ hrun
  refine ⟨hrun, (hspelled ⟨.int 1, ⟨9, 2⟩⟩ (by decide)).imp fun w hw => ⟨hw.1, hw.2.imp_right (·.2)⟩, ?_⟩
  have hjoined : " ".intercalate ([TokenKind.sym .slash, .int 1].map (·.text)) = "/ 1" := by cbv
  rw [← hjoined]
  exact tokenize_lossless.2 [.sym .slash, .int 1] (by simp [TokenKind.Valid])

end GameHop
