import Mathlib
import GameHop.Proofs.Reading.Sources
import GameHop.Proofs.Term.Parentheses

/-!
The parentheses that the printer adds are enough, and they are stable.
-/

namespace GameHop

/-! ## What a term spells has its layout -/

theorem ExprPrec.not_lt_lowest (own : ExprPrec) : ¬ own.rank < lowest.rank :=
  Nat.not_lt_zero _

theorem FormulaPrec.not_lt_lowest (own : FormulaPrec) : ¬ own.rank < lowest.rank :=
  Nat.not_lt_zero _

theorem BoundPrec.not_lt_lowest (own : BoundPrec) : ¬ own.rank < lowest.rank :=
  Nat.not_lt_zero _

theorem ExprPrec.wrap_lowest (own : ExprPrec) (e : Expr) : lowest.wrap own e = e :=
  if_neg own.not_lt_lowest

/-- Parentheses that the printer adds twice are those that it adds once. -/
theorem Layout.parensIf_parensIf (needed : Prop) [Decidable needed] (inner : Layout) :
    (if needed then parens (parensIf false inner) else parensIf needed inner) =
      parensIf needed inner := by
  by_cases h : needed <;> simp [parensIf, h]

/-- Parentheses that were added for a level are those that the printer adds for it. -/
theorem Expr.layout_wrap (least own : ExprPrec) (e : Expr) (depth : Nat) :
    (least.wrap own e).layout depth (.operand least) =
      if own.rank < least.rank then Layout.parens (e.layout depth (.operand .lowest))
      else e.layout depth (.operand least) := by
  simp only [ExprPrec.wrap]
  split <;> simp [layout, Layout.label]

theorem Formula.layout_wrap (least own : FormulaPrec) (p : Formula) :
    (least.wrap own p).layout least =
      if own.rank < least.rank then Layout.parens (p.layout .lowest)
      else p.layout least := by
  simp only [FormulaPrec.wrap]
  split <;> simp [layout]

theorem Bound.layout_wrap (least own : BoundPrec) (b : Bound) :
    (least.wrap own b).layout least =
      if own.rank < least.rank then Layout.parens (b.layout .lowest)
      else b.layout least := by
  simp only [BoundPrec.wrap]
  split <;> simp [layout]

theorem Method.isEmpty_spelledList (ms : List Method) :
    (spelledList ms).isEmpty = ms.isEmpty := by
  rw [spelledList_eq, List.isEmpty_map]

section
attribute [local simp] Expr.spelled Expr.spelledList Expr.spelledContexts Object.spelled
  Field.spelledList Method.spelledList Formula.spelled Formula.spelledList ObjectTerm.spelled
  HeapTerm.spelled ClassRef.bare Expr.layout Expr.layouts Expr.contextLayout Object.layout
  Field.layouts Method.layout Method.layouts Formula.layout Formula.layouts ObjectTerm.layout
  HeapTerm.layout Layout.label Position.place FormulaPrec.place Expr.layout_wrap Formula.layout_wrap
  ExprPrec.wrap_lowest ExprPrec.not_lt_lowest FormulaPrec.not_lt_lowest Layout.parensIf_parensIf
  Layout.classHints_bare Layout.formals_bare Layout.idents_bare Method.isEmpty_spelledList

/-- **What an expression spells has its layout.** -/
theorem Expr.layout_spelled (e : Expr) : ∀ depth,
    (∀ least, (e.spelled least).layout depth (.operand least) = e.layout depth (.operand least)) ∧
      (e.spelled .lowest).layout depth .body = e.layout depth .body := by
  -- one motive for each kind of term, and for each kind of list
  apply @Expr.rec
    (fun e => ∀ depth,
      (∀ least, (e.spelled least).layout depth (.operand least) = e.layout depth (.operand least)) ∧
        (e.spelled .lowest).layout depth .body = e.layout depth .body)
    (fun o => ∀ depth, o.spelled.layout depth = o.layout depth)
    (fun f => ∀ depth least,
      (f.value.spelled least).layout depth (.operand least) = f.value.layout depth (.operand least))
    (fun m => ∀ depth, (m.body.spelled .lowest).layout depth .body = m.body.layout depth .body)
    (fun p => ∀ least, (p.spelled least).layout least = p.layout least)
    (fun o => o.spelled.layout = o.layout) (fun h => h.spelled.layout = h.layout)
    (fun es => (∀ depth, layouts depth (spelledList es) = layouts depth es) ∧
      contextLayout (spelledContexts es) = contextLayout es)
    (fun fs => ∀ depth, Field.layouts depth (Field.spelledList fs) = Field.layouts depth fs)
    (fun ms => ∀ depth, Method.layouts depth (Method.spelledList ms) = Method.layouts depth ms)
    (fun ps => Formula.layouts (Formula.spelledList ps) = Formula.layouts ps)
  all_goals
    intros
    try casesm* Field, Method, Option Ident, UnaryOp, FormulaUnaryOp, ClassRef
    all_goals simp_all

/-- **What a formula spells has its layout.** -/
theorem Formula.layout_spelled (p : Formula) : (p.spelled .lowest).layout .lowest = p.layout .lowest := by
  simpa [Layout.parens] using ((Expr.assert .nowhere p).layout_spelled 0).2

theorem Expr.contextLayout_spelled (cs : List Expr) :
    contextLayout (spelledContexts cs) = contextLayout cs := by
  simpa using (Formula.env .nowhere cs).layout_spelled

end

mutual

/-- **What a bound spells has its layout.** -/
theorem Bound.layout_spelled (b : Bound) (least : BoundPrec) :
    (b.spelled least).layout least = b.layout least := by
  cases b <;>
    simp only [spelled, layout, layout_wrap, BoundPrec.not_lt_lowest, decide_false,
      Layout.parensIf_parensIf, Bound.layout_spelled, Bound.layouts_spelled,
      Expr.contextLayout_spelled, Ident.name_bare]

theorem Bound.layouts_spelled (bs : List Bound) : layouts (spelledList bs) = layouts bs := by
  cases bs <;> simp [spelledList, layouts, Bound.layout_spelled, Bound.layouts_spelled]

end

/-! ## Texts are read back up to parentheses -/

/-- Whether two expressions differ in places and unlabelled parentheses only. -/
def Expr.SameUpToParens (a b : Expr) : Prop :=
  (a.dropParens .all).bare = (b.dropParens .all).bare

/-- Whether two formulas differ in places and parentheses only. -/
def Formula.SameUpToParens (p q : Formula) : Prop :=
  (p.dropParens .all).bare = (q.dropParens .all).bare

/-- Whether two bounds differ in places and parentheses only. -/
def Bound.SameUpToParens (a b : Bound) : Prop :=
  (a.dropParens .all).bare = (b.dropParens .all).bare

theorem Expr.reads_back {e : Expr} (hl : e.Legible) (hf : e.HoleFree) :
    ∃ t, parse e.text = .ok t ∧ t.SameUpToParens e ∧ t.text = e.text := by
  obtain ⟨t, hparse, hbare, -⟩ := parse_text hl hf
  refine ⟨t, hparse, ?_, ?_⟩
  · rw [Expr.SameUpToParens, ← dropParens_bare, hbare, dropParens_spelled]
  · have hlayout := (e.layout_spelled 0).1 .lowest
    rw [← hbare, layout_bare] at hlayout
    exact congrArg Layout.text hlayout

theorem Formula.reads_back {p : Formula} (hl : p.Legible) :
    ∃ t, parse p.text = .ok t ∧ t.SameUpToParens p ∧ t.text = p.text := by
  obtain ⟨t, hparse, hbare, -⟩ := parse_text hl
  refine ⟨t, hparse, ?_, ?_⟩
  · rw [Formula.SameUpToParens, ← dropParens_bare, hbare, dropParens_spelled]
  · have hlayout := p.layout_spelled
    rw [← hbare, layout_bare] at hlayout
    exact congrArg Layout.text hlayout

theorem Bound.reads_back {b : Bound} (hl : b.Legible) :
    ∃ t, parse b.text = .ok t ∧ t.SameUpToParens b ∧ t.text = b.text := by
  obtain ⟨t, hparse, hbare, -⟩ := parse_text hl
  refine ⟨t, hparse, ?_, ?_⟩
  · rw [Bound.SameUpToParens, ← dropParens_bare, hbare, dropParens_spelled]
  · have hlayout := b.layout_spelled .lowest
    rw [← hbare, layout_bare] at hlayout
    exact congrArg Layout.text hlayout

/-- What two texts are read back as is the same if the texts are. -/
theorem same_of_reads_back {α : Type} (parse : String → Except SourceError α) (text : α → String)
    (view : α → α) {a b : α}
    (ha : ∃ t, parse (text a) = .ok t ∧ view t = view a ∧ text t = text a)
    (hb : ∃ t, parse (text b) = .ok t ∧ view t = view b ∧ text t = text b)
    (h : text a = text b) : view a = view b := by
  obtain ⟨t, ht, hta, -⟩ := ha
  obtain ⟨u, hu, hub, -⟩ := hb
  rw [h, hu] at ht
  rw [← hta, ← hub, Except.ok.inj ht]

/-- **The printer adds enough parentheses.** Let a term of a grammar have been read, and let some of
    its unlabelled parentheses be left out. Its text is read in the same grammar up to the end, as the
    term up to places and parentheses, and the text of what is read is the same text. Two such terms
    with one text differ in places and parentheses only. -/
theorem parse_text_dropParens (drop drop' : Choice) :
    (∀ source e, Expr.parse source = .ok e →
      ∃ t, Expr.parse (e.dropParens drop).text = .ok t ∧ t.SameUpToParens (e.dropParens drop) ∧
        t.text = (e.dropParens drop).text) ∧
    (∀ source p, Formula.parse source = .ok p →
      ∃ t, Formula.parse (p.dropParens drop).text = .ok t ∧ t.SameUpToParens (p.dropParens drop) ∧
        t.text = (p.dropParens drop).text) ∧
    (∀ source b, Bound.parse source = .ok b →
      ∃ t, Bound.parse (b.dropParens drop).text = .ok t ∧ t.SameUpToParens (b.dropParens drop) ∧
        t.text = (b.dropParens drop).text) ∧
    (∀ source source' e e', Expr.parse source = .ok e → Expr.parse source' = .ok e' →
      (e.dropParens drop).text = (e'.dropParens drop').text →
        (e.dropParens drop).SameUpToParens (e'.dropParens drop')) ∧
    (∀ source source' p p', Formula.parse source = .ok p → Formula.parse source' = .ok p' →
      (p.dropParens drop).text = (p'.dropParens drop').text →
        (p.dropParens drop).SameUpToParens (p'.dropParens drop')) ∧
    (∀ source source' b b', Bound.parse source = .ok b → Bound.parse source' = .ok b' →
      (b.dropParens drop).text = (b'.dropParens drop').text →
        (b.dropParens drop).SameUpToParens (b'.dropParens drop')) := by
  have hexpr : ∀ {source e}, Expr.parse source = .ok e → ∀ drop,
      ∃ t, Expr.parse (e.dropParens drop).text = .ok t ∧ t.SameUpToParens (e.dropParens drop) ∧
        t.text = (e.dropParens drop).text := fun h drop =>
    have he := Expr.asRead_of_parse h
    Expr.reads_back (Expr.legible_dropParens _ he.legible drop)
      (Expr.holeFree_dropParens he.holeFree drop)
  have hformula : ∀ {source p}, Formula.parse source = .ok p → ∀ drop,
      ∃ t, Formula.parse (p.dropParens drop).text = .ok t ∧ t.SameUpToParens (p.dropParens drop) ∧
        t.text = (p.dropParens drop).text := fun h drop =>
    Formula.reads_back (Formula.legible_dropParens _ (Formula.asRead_of_parse h).legible drop)
  have hbound : ∀ {source b}, Bound.parse source = .ok b → ∀ drop,
      ∃ t, Bound.parse (b.dropParens drop).text = .ok t ∧ t.SameUpToParens (b.dropParens drop) ∧
        t.text = (b.dropParens drop).text := fun h drop =>
    Bound.reads_back (Bound.legible_dropParens _ (Bound.asRead_of_parse h).legible drop)
  refine ⟨fun _ _ h => hexpr h drop, fun _ _ h => hformula h drop, fun _ _ h => hbound h drop,
    fun _ _ _ _ h h' => ?_, fun _ _ _ _ h h' => ?_, fun _ _ _ _ h h' => ?_⟩
  · exact same_of_reads_back Expr.parse Expr.text (fun e => (e.dropParens .all).bare) (hexpr h drop)
      (hexpr h' drop')
  · exact same_of_reads_back Formula.parse Formula.text (fun p => (p.dropParens .all).bare) (hformula h drop)
      (hformula h' drop')
  · exact same_of_reads_back Bound.parse Bound.text (fun b => (b.dropParens .all).bare) (hbound h drop)
      (hbound h' drop')

theorem parse_text_dropParens_nested :
    (∃ e t, Expr.parse "(a + (b)) * (c; d)" = .ok e ∧
      (e.dropParens .all).text = "(a + b) * (c; d)" ∧
      Expr.parse "(a + b) * (c; d)" = .ok t ∧ t.SameUpToParens (e.dropParens .all)) ∧
    (∃ p t, Formula.parse "(a -> (b)) -> (exists (x). x == (y))" = .ok p ∧
      (p.dropParens .all).text = "(a -> b) -> exists (x). x == y" ∧
      Formula.parse "(a -> b) -> exists (x). x == y" = .ok t ∧
      t.SameUpToParens (p.dropParens .all)) ∧
    (∃ b t, Bound.parse "(x ^ y) ^ ((z) ^ w)" = .ok b ∧
      (b.dropParens .all).text = "(x ^ y) ^ z ^ w" ∧
      Bound.parse "(x ^ y) ^ z ^ w" = .ok t ∧ t.SameUpToParens (b.dropParens .all)) ∧
    ∃ e e', Expr.parse "(a) + b" = .ok e ∧ Expr.parse "a + b" = .ok e' ∧
      (e.dropParens .all).SameUpToParens (e'.dropParens fun _ => false) := by
  refine ⟨?_, ?_, ?_, ?_⟩
  · obtain ⟨e, he, htext⟩ : ∃ e, Expr.parse "(a + (b)) * (c; d)" = .ok e ∧
        (e.dropParens .all).text = "(a + b) * (c; d)" :=
      exists_of_map_toOption (by decide +kernel)
    obtain ⟨t, ht, hsame, -⟩ := (parse_text_dropParens .all .all).1 _ e he
    exact ⟨e, t, he, htext, htext ▸ ht, hsame⟩
  · obtain ⟨p, hp, htext⟩ : ∃ p, Formula.parse "(a -> (b)) -> (exists (x). x == (y))" = .ok p ∧
        (p.dropParens .all).text = "(a -> b) -> exists (x). x == y" :=
      exists_of_map_toOption (by decide +kernel)
    obtain ⟨t, ht, hsame, -⟩ := (parse_text_dropParens .all .all).2.1 _ p hp
    exact ⟨p, t, hp, htext, htext ▸ ht, hsame⟩
  · obtain ⟨b, hb, htext⟩ : ∃ b, Bound.parse "(x ^ y) ^ ((z) ^ w)" = .ok b ∧
        (b.dropParens .all).text = "(x ^ y) ^ z ^ w" :=
      exists_of_map_toOption (by decide +kernel)
    obtain ⟨t, ht, hsame, -⟩ := (parse_text_dropParens .all .all).2.2.1 _ b hb
    exact ⟨b, t, hb, htext, htext ▸ ht, hsame⟩
  · obtain ⟨e, he, htext⟩ : ∃ e, Expr.parse "(a) + b" = .ok e ∧
        (e.dropParens .all).text = "a + b" :=
      exists_of_map_toOption (by decide +kernel)
    obtain ⟨e', he', htext'⟩ : ∃ e, Expr.parse "a + b" = .ok e ∧
        (e.dropParens fun _ => false).text = "a + b" :=
      exists_of_map_toOption (by decide +kernel)
    exact ⟨e, e', he, he', (parse_text_dropParens .all fun _ => false).2.2.2.1 _ _ e e' he he'
      (htext.trans htext'.symm)⟩

end GameHop
