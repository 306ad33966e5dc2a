import GameHop.Parser.Development
import GameHop.Proofs.Reading.Bounds
import GameHop.Proofs.Reading.Lexed

/-!
Terms and source texts. What is read from a text is as read (`Expr.asRead_of_parse`) and has its parts where they stand in
the text, faults are found at places of the text, and a legible term is read back from its text as what it spells
(`Expr.parse_text`), up to places.
-/

namespace GameHop

/-! ## Tokens of texts -/

theorem Span.Covers.fits {source w : String} {s : Span} (h : s.Covers source w) : s.Fits source := by
  obtain ⟨before, after, hsource, rfl⟩ := h
  exact ⟨⟨before, w ++ after, by rw [hsource, String.append_assoc], rfl⟩,
    ⟨before ++ w, after, hsource, by simp [Span.stop]⟩⟩

theorem scanned_of_tokenize {source : String} {ts : List Token} (h : tokenize source = .ok ts) : Scanned source ts := by
  have hlexed := Lexer.lexed_of_tokensFrom 0 source.toList
  rw [show Lexer.tokensFrom 0 0 source.toList = .ok ts from h] at hlexed
  refine ⟨fun t ht => ?_, hlexed.pairwise.imp And.right, fun t ht x hx => ?_, fun t ht y hy => ?_⟩ <;>
    obtain ⟨w, hw, hspelled⟩ := hlexed.within t ht
  · exact hw.covers.fits
  · rw [hx] at hspelled
    rcases hspelled with hspelled | ⟨heof, -⟩
    · exact hspelled.2
    · cases heof
  · rw [hy] at hspelled
    rcases hspelled with hspelled | ⟨heof, -⟩
    · obtain ⟨before, after, -, hspan⟩ := hw
      have hlen := Lexer.byteLen_eq w
      rw [hspelled, String.ofList_toList] at hlen
      rw [hspan, hspelled, hlen]
    · cases heof

theorem fits_of_tokenize {source : String} {e : LexError} (h : tokenize source = .error e) : e.span.Fits source := by
  have hlexed := Lexer.lexed_of_tokensFrom 0 source.toList
  rw [show Lexer.tokensFrom 0 0 source.toList = .error e from h] at hlexed
  obtain ⟨w, hw⟩ := hlexed
  exact hw.covers.fits

/-! ## From texts to terms and back -/

namespace Parser

variable {α : Type} {f : α → α} {P : α → Prop} {out : α → List Outline} {c : Bool}

/-- Whether a parser that is given parsers of terms mirrors itself. -/
def Faithful (c : Bool) (p : Level → Parser α) (f : α → α) (P : α → Prop) (out : α → List Outline) : Prop :=
  ∀ w other, Level.full.Tied w false other → Reflects w false c (p .full) (p other) f (fun _ => P) out

def Setting.ofSource {source : String} {ts : List Token} (h : tokenize source = .ok ts) : Setting :=
  ⟨ts, source, True, fun _ => scanned_of_tokenize h⟩

section
variable {p : Level → Parser α} (hp : Faithful c p f P out) {source : String} {ts : List Token}
include hp

theorem Faithful.agree (h : tokenize source = .ok ts) :
    Agree (.ofSource h) ⟨.nowhere, ts⟩ c (Via (.ofSource h) f P) (fun a => ⟨c || false, 0, out a⟩)
      (StateT.run (p (Level.ofDepth (ts.length + 1))) ⟨.nowhere, ts⟩)
      (StateT.run (p .full) (bareInput (ts.map (·.kind)))) := by
  have hrun := hp (.ofSource h) _ (Level.tied_full (Nat.le_refl _)) false 0 ⟨.nowhere, ts⟩
    ⟨List.suffix_refl _, nofun, fun _ => Span.fits_nowhere _, fun _ t _ => ⟨Nat.zero_le _, Nat.zero_le _⟩,
      fun _ => spread_nil⟩
  exact hrun.1 ▸ hrun.2

omit hp in
theorem readSource_run (p : Level → Parser α) (h : tokenize source = .ok ts) : readSource (run p) source =
    (Prod.fst <$> StateT.run (p (Level.ofDepth (ts.length + 1))) ⟨.nowhere, ts⟩).mapError SourceError.parse := by
  unfold readSource run
  rw [h]
  change _ = (Prod.fst <$> p (Level.ofDepth (ts.length + 1)) ⟨.nowhere, ts⟩).mapError SourceError.parse
  dsimp only [StateT.run']
  cases p (Level.ofDepth (ts.length + 1)) ⟨.nowhere, ts⟩ <;> rfl

/-- **What is read from a text** has the property of what the parser gives, and its parts where the text has them. -/
theorem Faithful.ok_of_readSource {a : α} (h : readSource (run p) source = .ok a) : P a ∧ ∀ o ∈ out a, o.Sound source := by
  cases hts : tokenize source with
  | error e =>
    rw [readSource, hts] at h
    cases h
  | ok ts =>
    rw [readSource_run p hts] at h
    have hagree := hp.agree hts
    generalize StateT.run (p (Level.ofDepth (ts.length + 1))) ⟨.nowhere, ts⟩ = x at hagree h
    generalize StateT.run (p .full) (bareInput (ts.map (·.kind))) = y at hagree
    cases hagree with
    | error he => cases h
    | ok hab _ hj =>
      obtain rfl := Except.ok.inj h
      exact ⟨hab.prop trivial, (hj.read trivial).sound⟩

/-- **A fault is found at a place of the text.** -/
theorem Faithful.fits_of_readSource {e : SourceError} (h : readSource (run p) source = .error e) : e.span.Fits source := by
  cases hts : tokenize source with
  | error e' =>
    rw [readSource, hts] at h
    obtain rfl := Except.error.inj h
    exact fits_of_tokenize hts
  | ok ts =>
    rw [readSource_run p hts] at h
    have hagree := hp.agree hts
    generalize StateT.run (p (Level.ofDepth (ts.length + 1))) ⟨.nowhere, ts⟩ = x at hagree h
    generalize StateT.run (p .full) (bareInput (ts.map (·.kind))) = y at hagree
    cases hagree with
    | error he =>
      obtain rfl := Except.error.inj h
      exact he trivial
    | ok hab _ hj => cases h

/-- **What is read from the text of a layout** is what its tokens are read as, up to places. -/
theorem Faithful.readSource_text {l : Layout} (hl : l.Tidy) {b : α} {j : Input}
    (hrun : StateT.run (p .full) (bareInput (l.kinds ++ [.eof])) = .ok (b, j)) :
    ∃ a, readSource (run p) l.text = .ok a ∧ f a = b ∧ P a := by
  obtain ⟨ts, hts, hkinds⟩ := hl.tokensFrom_text 0
  have hts : tokenize l.text = .ok ts := hts
  have hagree := hp.agree hts
  rw [hkinds, hrun] at hagree
  rw [readSource_run p hts]
  generalize StateT.run (p (Level.ofDepth (ts.length + 1))) ⟨.nowhere, ts⟩ = x at hagree ⊢
  cases hagree with
  | ok hab _ _ => exact ⟨_, rfl, hab.eq.symm, hab.prop trivial⟩

/-- Terms are read to the end of the text. -/
theorem Faithful.toEnd : Faithful c (fun level => do let a ← p level; atEnd; return a) f P out := by
  intro w other h m n _
  refine (hp w other h).via fun _ a ha => ?_
  rw [Bool.not_and_self]
  exact mirrors_atEnd.same fun _ _ => mirrors_pure ⟨rfl, ha⟩ .rfl

end

end Parser

open GameHop.Parser

theorem Expr.faithful : Faithful true (·.expr) Expr.bare (AsRead .lowest) fun e => [e.outline] :=
  fun _ _ h => h.expr

theorem Formula.faithful : Faithful true (·.formula) Formula.bare (AsRead .lowest) fun p => [p.outline] :=
  fun _ _ h => h.formula

theorem Bound.faithful : Faithful true (·.bound) Bound.bare (AsRead .lowest) fun b => [b.outline] :=
  fun _ _ h => h.bound

theorem Expr.asRead_of_parse {source : String} {e : Expr} (h : parse source = .ok e) : e.AsRead .lowest :=
  (faithful.toEnd.ok_of_readSource h).1

theorem Formula.asRead_of_parse {source : String} {p : Formula} (h : parse source = .ok p) : p.AsRead .lowest :=
  (faithful.toEnd.ok_of_readSource h).1

theorem Bound.asRead_of_parse {source : String} {b : Bound} (h : parse source = .ok b) : b.AsRead .lowest :=
  (faithful.toEnd.ok_of_readSource h).1

/-- **An expression is read back from its text** as what it spells. -/
theorem Expr.parse_text {e : Expr} (hl : e.Legible) (hf : e.HoleFree) :
    ∃ t, parse e.text = .ok t ∧ t.bare = e.spelled .lowest ∧ t.AsRead .lowest :=
  faithful.toEnd.readSource_text (j := bareInput [.eof]) (e.block_layout hl 0 (.operand .lowest)).tidy
    (by simp [(e.read hl hf).run_expr, atEnd, exprRank?])

/-- **A formula is read back from its text** as what it spells. -/
theorem Formula.parse_text {p : Formula} (hl : p.Legible) :
    ∃ t, parse p.text = .ok t ∧ t.bare = p.spelled .lowest ∧ t.AsRead .lowest :=
  faithful.toEnd.readSource_text (j := bareInput [.eof]) (p.block_layout hl .lowest).tidy
    (by simp [(p.read hl).run_formula, atEnd, formulaRank?])

/-- **A bound is read back from its text** as what it spells. -/
theorem Bound.parse_text {b : Bound} (hl : b.Legible) :
    ∃ t, parse b.text = .ok t ∧ t.bare = b.spelled .lowest ∧ t.AsRead .lowest :=
  faithful.toEnd.readSource_text (j := bareInput [.eof]) (b.block_layout hl .lowest).tidy
    (by simp [(b.read hl).run_bound, atEnd, boundRank?])

/-! ## Single texts -/

/-- What a single text is read as, with something about it that can be computed. -/
theorem exists_of_map_toOption {ε α β : Type} {x : Except ε α} {f : α → β} {b : β}
    (h : x.toOption.map f = some b) : ∃ a, x = .ok a ∧ f a = b := by
  cases x with
  | error e => cases h
  | ok a => exact ⟨a, rfl, Option.some.inj h⟩

end GameHop
