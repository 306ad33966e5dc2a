import GameHop.Proofs.Reading.Lexing
import Mathlib.Data.List.Infix
import Mathlib.Data.List.TakeWhile

/-!
Texts cut into tokens (`Lexer.Lexed`). What the lexer gives is such a cut.
-/

namespace GameHop

/-- Whether the bytes of the span are the part `w` of a text. -/
def Span.Covers (source : String) (s : Span) (w : String) : Prop :=
  ∃ before after, source = before ++ w ++ after ∧ s = ⟨before.utf8ByteSize, w.utf8ByteSize⟩

/-- Whether characters are a spelling of a token: the text of a keyword or a symbol, a name that is no
    keyword, digits of a number. -/
def TokenKind.SpelledBy : TokenKind → List Char → Prop
  | .keyword k, w => w = k.text.toList
  | .sym s, w => w = s.text.toList
  | .int n, w => w ≠ [] ∧ (∀ c ∈ w, Lexer.isDigit c = true) ∧ Nat.ofDigitChars 10 w 0 = n.toNat
  | .ident x, w => w = x.toList ∧ Lexer.isName x = true
  | .eof, _ => False

namespace Lexer

/-! ## Texts cut into tokens -/

/-- Whether characters are a blank or a comment if `rest` comes after them. A comment to the end of the line
    ends before a line feed or with the text; another one ends at its first `*/`. -/
inductive Skipped : List Char → List Char → Prop
  | blank {c rest} : isBlank c = true → Skipped [c] rest
  | line {body rest} : '\n' ∉ body → (∀ c ∈ rest.head?, c = '\n') → Skipped ('/' :: '/' :: body) rest
  | block {body rest} : ¬['*', '/'] <:+: body ++ ['*'] → Skipped ('/' :: '*' :: (body ++ ['*', '/'])) rest

/-- A text from byte `o` on, cut into tokens and what is skipped. -/
inductive Lexed : Nat → List Char → List Token → Prop
  | stop {o} : Lexed o [] [⟨.eof, ⟨o, 0⟩⟩]
  | skip {o w rest ts} : Skipped w rest → Lexed (o + byteLen w) rest ts → Lexed o (w ++ rest) ts
  | token {o k w rest ts} : k.SpelledBy w → Lexed (o + byteLen w) rest ts →
      Lexed o (w ++ rest) (⟨k, ⟨o, byteLen w⟩⟩ :: ts)

/-! ## Lexemes -/

theorem cut_takeWhile (p : Char → Bool) (cs : List Char) :
    (cs.takeWhile p).length ≤ cs.length ∧ cs.take (cs.takeWhile p).length = cs.takeWhile p ∧
      cs.drop (cs.takeWhile p).length = cs.dropWhile p := by
  generalize hw : cs.takeWhile p = w
  generalize hr : cs.dropWhile p = rest
  have hcs : cs = w ++ rest := by rw [← hw, ← hr, List.takeWhile_append_dropWhile]
  simp [hcs]

theorem commentEnd?_eq_some {cs : List Char} {n : Nat} (h : commentEnd? cs = some n) :
    ∃ body rest, cs = body ++ '*' :: '/' :: rest ∧ n = body.length + 2 ∧
      ¬['*', '/'] <:+: body ++ ['*'] := by
  fun_induction commentEnd? cs generalizing n with
  | case1 rest =>
    cases h
    exact ⟨[], rest, rfl, rfl, by decide⟩
  | case2 c cs hne ih =>
    obtain ⟨m, hm, rfl⟩ := Option.map_eq_some_iff.1 h
    obtain ⟨body, rest, rfl, rfl, hbody⟩ := ih hm
    refine ⟨c :: body, rest, rfl, rfl, ?_⟩
    rw [List.cons_append, List.infix_cons_iff, not_or]
    refine ⟨?_, hbody⟩
    rintro ⟨t, ht⟩
    cases body with
    | nil => simp at ht
    | cons d body =>
      obtain ⟨rfl, rfl, -⟩ : '*' = c ∧ '/' = d ∧ t = body ++ ['*'] := by simpa using ht
      exact hne _ rfl rfl
  | case3 => cases h

/-- What a lexeme is, by the characters that it takes. -/
def Lexeme.Takes (w rest : List Char) : Lexeme → Prop
  | .blank => Skipped w rest
  | .token k => k.SpelledBy w
  | .oversized => True

theorem takes_wordLexeme {w rest : List Char} {c : Char} {cs : List Char} (hw : w = c :: cs)
    (hc : isIdentStart c = true) (hcs : ∀ c ∈ cs, isIdentRest c = true) :
    (wordLexeme w).Takes w rest := by
  rw [wordLexeme]
  cases hk : Keyword.ofText? (String.ofList w) with
  | some k =>
    have htext := List.find?_some hk
    simp only [beq_iff_eq] at htext
    simp [Lexeme.Takes, TokenKind.SpelledBy, htext]
  | none =>
    refine ⟨by simp, ?_⟩
    rw [isName, String.toList_ofList, hw]
    simp_all

theorem takes_numberLexeme {w rest : List Char} (hne : w ≠ []) (hw : ∀ c ∈ w, isDigit c = true) :
    (numberLexeme w).Takes w rest := by
  rw [numberLexeme]
  split
  · rename_i hlt
    refine ⟨hne, hw, ?_⟩
    rw [UInt64.toNat_ofNat_of_lt' hlt]
    rfl
  · trivial

theorem takes_symbolLexeme {c : Char} {cs : List Char} {l : Lexeme} {n : Nat}
    (h : symbolLexeme? (c :: cs) = some (l, n)) (rest : List Char) :
    n ≤ cs.length ∧ l.Takes (c :: cs.take n) rest := by
  obtain ⟨s, hs, he⟩ := Option.map_eq_some_iff.1 h
  obtain ⟨rfl, rfl⟩ := Prod.mk.inj he
  obtain ⟨d, text, htext⟩ : ∃ d text, s.text.toList = d :: text := by
    cases s <;> exact ⟨_, _, rfl⟩
  have hpre := List.find?_some hs
  rw [List.isPrefixOf_iff_prefix, htext, List.cons_prefix_cons] at hpre
  obtain ⟨rfl, after, rfl⟩ := hpre
  simp [htext, Lexeme.Takes, TokenKind.SpelledBy]

/-- **A lexeme is made of the characters that it takes.** -/
theorem takes_of_lexeme {c : Char} {cs : List Char} {l : Lexeme} {n : Nat}
    (h : lexeme? c cs = some (l, n)) : n ≤ cs.length ∧ l.Takes (c :: cs.take n) (cs.drop n) := by
  unfold lexeme? at h
  split at h
  · cases h
    exact ⟨Nat.zero_le _, .blank ‹_›⟩
  split at h
  · obtain ⟨rfl, rfl⟩ := Prod.mk.inj (Option.some.inj h)
    obtain ⟨hle, htake, -⟩ := cut_takeWhile isDigit cs
    refine ⟨hle, ?_⟩
    rw [htake]
    refine takes_numberLexeme (List.cons_ne_nil _ _) ?_
    rintro d (_ | ⟨_, hd⟩)
    · assumption
    · exact List.mem_takeWhile_imp hd
  split at h
  · obtain ⟨rfl, rfl⟩ := Prod.mk.inj (Option.some.inj h)
    obtain ⟨hle, htake, -⟩ := cut_takeWhile isIdentRest cs
    refine ⟨hle, ?_⟩
    rw [htake]
    exact takes_wordLexeme rfl ‹_› fun d hd => List.mem_takeWhile_imp hd
  split at h
  · rename_i more _ _ _
    obtain ⟨rfl, rfl⟩ := Prod.mk.inj (Option.some.inj h)
    obtain ⟨hle, htake, hdrop⟩ := cut_takeWhile (· != '\n') more
    rw [Nat.add_comm, List.take_succ_cons, List.drop_succ_cons, htake, hdrop]
    refine ⟨Nat.succ_le_succ hle, .line (fun hmem => ?_) fun d hd => ?_⟩
    · simpa using List.mem_takeWhile_imp hmem
    · have hstop := List.head?_dropWhile_not (· != '\n') more
      rw [Option.mem_def] at hd
      simpa [hd] using hstop
  · split at h
    · rename_i m hm
      obtain ⟨rfl, rfl⟩ := Prod.mk.inj (Option.some.inj h)
      obtain ⟨body, rest, rfl, rfl, hbody⟩ := commentEnd?_eq_some hm
      have htake : (body ++ '*' :: '/' :: rest).take (body.length + 2) = body ++ ['*', '/'] := by
        rw [List.take_append, List.take_of_length_le (by omega)]
        simp
      rw [Nat.add_comm, List.take_succ_cons, htake]
      exact ⟨by simp, .block hbody⟩
    · exact takes_symbolLexeme h _
  · exact takes_symbolLexeme h _

/-! ## Runs -/

theorem byteLen_append (cs ds : List Char) : byteLen (cs ++ ds) = byteLen cs + byteLen ds := by
  induction cs with
  | nil => simp [byteLen]
  | cons c cs ih => simp [byteLen, ih, Nat.add_assoc]

theorem byteLen_eq (cs : List Char) : byteLen cs = (String.ofList cs).utf8ByteSize := by
  induction cs with
  | nil => rfl
  | cons c cs ih => simp [byteLen, String.ofList_cons, ih]

/-- Whether the bytes of a span are the characters `w` of a text that starts at byte `o`. -/
def Within (o : Nat) (cs : List Char) (s : Span) (w : List Char) : Prop :=
  ∃ before after, cs = before ++ (w ++ after) ∧ s = ⟨o + byteLen before, byteLen w⟩

theorem Within.after {o : Nat} {w rest x : List Char} {s : Span}
    (h : Within (o + byteLen w) rest s x) : Within o (w ++ rest) s x := by
  obtain ⟨before, after, rfl, rfl⟩ := h
  exact ⟨w ++ before, after, by simp, by rw [byteLen_append, Nat.add_assoc]⟩

theorem Within.covers {source : String} {s : Span} {w : List Char} (h : Within 0 source.toList s w) :
    s.Covers source (String.ofList w) := by
  obtain ⟨before, after, hsource, rfl⟩ := h
  refine ⟨String.ofList before, String.ofList after, ?_, by simp [byteLen_eq]⟩
  rw [← String.ofList_append, ← String.ofList_append, List.append_assoc, ← hsource,
    String.ofList_toList]

/-- **What the lexer gives is a cut of the text**, and a fault is at characters of the text. -/
theorem lexed_of_tokensFrom (o : Nat) (cs : List Char) :
    match tokensFrom o 0 cs with
    | .ok ts => Lexed o cs ts
    | .error e => ∃ w, Within o cs e.span w := by
  induction h : cs.length using Nat.strong_induction_on generalizing o cs with
  | _ n ih =>
    cases cs with
    | nil => exact .stop
    | cons c cs =>
      rw [tokensFrom]
      cases hlex : lexeme? c cs with
      | none => exact ⟨[c], [], cs, rfl, by simp [byteLen]⟩
      | some r =>
        obtain ⟨l, m⟩ := r
        obtain ⟨hm, htakes⟩ := takes_of_lexeme hlex
        generalize hw : cs.take m = w at htakes
        generalize hr : cs.drop m = rest at htakes
        obtain ⟨rfl, rfl⟩ : cs = w ++ rest ∧ m = w.length := by
          subst hw hr; simp [hm]
        have hlt : rest.length < n := by
          simp only [← h, List.length_cons, List.length_append]
          omega
        have hrest := ih rest.length hlt (o + byteLen (c :: w)) rest rfl
        have hskip : tokensFrom (o + c.utf8Size) w.length (w ++ rest) =
            tokensFrom (o + byteLen (c :: w)) 0 rest := by
          rw [tokensFrom_skip, byteLen, Nat.add_assoc]
        cases l with
        | oversized => exact ⟨c :: w, [], rest, by simp, by simp [byteLen]⟩
        | blank =>
          simp only [hskip]
          split at hrest
          · exact .skip htakes hrest
          · exact hrest.imp fun _ => .after (w := c :: w)
        | token k =>
          simp only [hskip]
          cases hrun : tokensFrom (o + byteLen (c :: w)) 0 rest with
          | ok ts =>
            rw [hrun] at hrest
            have htoken := Lexed.token htakes hrest
            simpa using htoken
          | error e =>
            rw [hrun] at hrest
            exact hrest.imp fun _ => .after (w := c :: w)

theorem SpelledBy.byteLen_pos {k : TokenKind} {w : List Char} (h : k.SpelledBy w) : 0 < byteLen w := by
  have hne : w ≠ [] := by
    cases k with
    | keyword k => subst h; cases k <;> decide
    | sym s => subst h; cases s <;> decide
    | int n => exact h.1
    | ident x =>
      obtain ⟨rfl, hx⟩ := h
      intro hnil
      simp [isName, hnil] at hx
    | eof => exact h.elim
  obtain ⟨c, w, rfl⟩ := List.exists_cons_of_ne_nil hne
  have := c.utf8Size_pos
  simp only [byteLen]
  omega

namespace Lexed

variable {o : Nat} {cs : List Char} {ts : List Token}

/-- Each token stands at characters that spell it. -/
theorem within (h : Lexed o cs ts) : ∀ t ∈ ts, ∃ w, Within o cs t.span w ∧
    (t.kind.SpelledBy w ∨ t.kind = .eof ∧ w = []) := by
  induction h with
  | stop =>
    rintro t (_ | ⟨_, ht⟩)
    · exact ⟨[], ⟨[], [], rfl, rfl⟩, .inr ⟨rfl, rfl⟩⟩
    · cases ht
  | skip _ _ ih => exact fun t ht => (ih t ht).imp fun _ => .imp_left .after
  | @token o k w rest ts hk _ ih =>
    rintro t (_ | ⟨_, ht⟩)
    · exact ⟨w, ⟨[], rest, rfl, rfl⟩, .inl hk⟩
    · exact (ih t ht).imp fun _ => .imp_left .after

theorem offset_le (h : Lexed o cs ts) : ∀ t ∈ ts, o ≤ t.span.offset := by
  intro t ht
  obtain ⟨w, ⟨before, after, -, hspan⟩, -⟩ := h.within t ht
  simp [hspan]

/-- Tokens come one after the other. -/
theorem pairwise (h : Lexed o cs ts) :
    ts.Pairwise fun a b => a.span.offset < a.span.stop ∧ a.span.stop ≤ b.span.offset := by
  induction h with
  | stop => simp
  | skip _ _ ih => exact ih
  | @token o k w rest ts hk h ih =>
    have hpos := SpelledBy.byteLen_pos hk
    refine List.pairwise_cons.2 ⟨fun t ht => ?_, ih⟩
    have := h.offset_le t ht
    simp only [Span.stop_mk]
    omega

theorem eq_append_eof (h : Lexed o cs ts) :
    ∃ front, ts = front ++ [⟨.eof, ⟨o + byteLen cs, 0⟩⟩] ∧ ∀ t ∈ front, t.kind ≠ .eof := by
  induction h with
  | stop => exact ⟨[], by simp [byteLen], by simp⟩
  | skip _ _ ih =>
    obtain ⟨front, rfl, hfront⟩ := ih
    exact ⟨front, by rw [byteLen_append, Nat.add_assoc], hfront⟩
  | @token o k w rest ts hk _ ih =>
    obtain ⟨front, rfl, hfront⟩ := ih
    refine ⟨_ :: front, by rw [byteLen_append, Nat.add_assoc]; rfl, ?_⟩
    rintro t (_ | ⟨_, ht⟩)
    · rintro rfl
      exact hk
    · exact hfront t ht

end Lexed

end Lexer

end GameHop
