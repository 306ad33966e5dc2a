import GameHop.Proofs.Reading.Holes
import GameHop.Proofs.Reading.Readable
import GameHop.Proofs.Reading.Terms
import GameHop.Proofs.Term.Variables

/-!
Texts determine expressions. **Two readable expressions with the same text have the same core under
every substitution** (`Expr.core_eq_of_text_eq`), and either both are variables or none is.
-/

namespace GameHop

open GameHop.Parser

/-! ## Spelled expressions -/

theorem Expr.core_wrap (σ : Substitution) (least own : ExprPrec) (e : Expr) :
    (least.wrap own e).core σ = e.core σ := by
  unfold ExprPrec.wrap
  split <;> rfl

/-- **What an expression spells has its core.** -/
theorem Expr.core_spelled (σ : Substitution) (e : Expr) (he : ∀ p ∈ e.claims, p.Settled) :
    ∀ least, (e.spelled least).core σ = e.core σ := by
  induction e using inductNode with
  | step e ih =>
    have ih : ∀ c ∈ e.children, ∀ least, (c.spelled least).core σ = c.core σ :=
      fun c hc => ih c hc fun p hp => he p (mem_claims_of_child hc hp)
    intro least
    cases e with
    | assert s p =>
      have hp : p.spelled .lowest = p.bare := he p (mem_claims_of_root rfl)
      simp [spelled, hp]
    | assume s p =>
      have hp : p.spelled .lowest = p.bare := he p (mem_claims_of_root rfl)
      simp [spelled, hp]
    | unary s op a =>
      have ha : ∀ least, (a.spelled least).core σ = a.core σ := ih a (by simp [children])
      cases op <;> simp [spelled, core_wrap, ha]
    | call s f args =>
      simp only [spelled, spelledList_eq, core_call, List.map_map, Ident.bare_bare]
      congr 1
      exact List.map_congr_left fun a ha => ih a ha .assign
    | invoke s t m cs args =>
      simp only [spelled, spelledList_eq, core_invoke, List.map_map, Ident.bare_bare]
      congr 1
      · exact ih t (by simp [children]) _
      · exact List.map_congr_left fun a ha => ih a (by simp [children, ha]) .assign
    | new s o =>
      obtain ⟨c, fs, ms⟩ := o
      simp only [spelled, Object.spelled, Field.spelledList_eq, Method.spelledList_eq,
        core_new, List.map_map]
      congr 2
      · refine List.map_congr_left fun f hf => ?_
        have := ih f.value (List.mem_append_left _ (List.mem_map_of_mem hf)) .assign
        simp [this]
      · refine List.map_congr_left fun m hm => ?_
        have := ih m.body (List.mem_append_right _ (List.mem_map_of_mem hm)) .lowest
        simp [this]
    | lookup s x => rw [spelled, core_lookup, core_lookup]; rfl
    | _ => simp_all [spelled, core_wrap, children]

theorem Expr.varName?_spelled (least : ExprPrec) (e : Expr) :
    (e.spelled least).varName? = e.varName? := by
  cases e with
  | unary s op e => cases op <;> simp only [spelled, ExprPrec.wrap] <;> (try split) <;> rfl
  | seq | assign | ternary | binary => simp only [spelled, ExprPrec.wrap]; split <;> rfl
  | _ => rfl

theorem Expr.variables_wrap (least own : ExprPrec) (e : Expr) :
    (least.wrap own e).variables = e.variables := by
  unfold ExprPrec.wrap
  split
  · exact variables_paren _ _ e
  · rfl

theorem Expr.variables_spelled (e : Expr) : ∀ least, (e.spelled least).variables = e.variables := by
  induction e using inductNode with
  | step e ih =>
    intro least
    cases e with
    | unary s op a =>
      have ha : ∀ least, (a.spelled least).variables = a.variables :=
        ih a (by simp [children])
      cases op <;> simp [spelled, variables_wrap, ha]
    | call s f args =>
      simp only [spelled, spelledList_eq, variables_call, List.flatMap_map]
      exact List.flatMap_congr fun a ha => ih a ha .assign
    | invoke s t m cs args =>
      have ht := ih t (by simp [children])
      simp only [spelled, spelledList_eq, variables_invoke, List.flatMap_map, ht]
      congr 1
      exact List.flatMap_congr fun a ha => ih a (by simp [children, ha]) .assign
    | new s o =>
      obtain ⟨c, fs, ms⟩ := o
      simp only [spelled, Object.spelled, Field.spelledList_eq, Method.spelledList_eq,
        variables_new, List.flatMap_map]
      congr 1
      · exact List.flatMap_congr fun f hf =>
          ih f.value (List.mem_append_left _ (List.mem_map_of_mem hf)) .assign
      · exact List.flatMap_congr fun m hm =>
          ih m.body (List.mem_append_right _ (List.mem_map_of_mem hm)) .lowest
    | _ => simp_all [spelled, variables_wrap, children]

/-! ## Filled holes -/

section
variable {h : String}

theorem Expr.children_fill (h : String) (e : Expr) :
    (e.fill h).children = e.children.map (fill h) := by
  cases he : e.isHole with
  | true => cases e <;> first | rfl | cases he
  | false => rw [fill_eq h he, children_withChildren _ _ (by simp)]

theorem Expr.isHole_fill (h : String) (e : Expr) : (e.fill h).isHole = false := by
  cases e with
  | new s o => rw [fill_eq h rfl]; rfl
  | _ => rfl

theorem Expr.holeFree_fill (h : String) (e : Expr) : (e.fill h).HoleFree := by
  induction e using inductNode with
  | step e ih =>
    refine (holeFree_iff _).2 ⟨e.isHole_fill h, ?_⟩
    rw [children_fill]
    exact List.forall_mem_map.2 ih

theorem Expr.claims_fill (h : String) (e : Expr) : (e.fill h).claims = e.claims := by
  induction e using inductNode with
  | step e ih =>
    rw [claims_eq, e.claims_eq, children_fill, List.flatMap_map]
    congr 1
    · exact List.flatMap_congr ih
    · cases e with
      | new s o => rw [fill_eq h rfl]; rfl
      | _ => rfl

theorem Expr.legible_fill (hh : Lexer.isName h = true) {e : Expr} (he : e.Legible) :
    (e.fill h).Legible := by
  induction e using inductNode with
  | step e ih =>
    cases hhole : e.isHole with
    | true =>
      obtain ⟨s, rfl⟩ : ∃ s, e = .hole s := by cases e <;> simp_all [isHole]
      exact hh
    | false =>
      rw [legible_iff, children_fill, fill_eq h hhole]
      exact ⟨legibleRoot_withChildren he.root _,
        List.forall_mem_map.2 fun c hc => ih c hc (he.child hc)⟩

theorem Substitution.get?_cons_of_ne {σ : Substitution} {x : String} (t : Expr) (hx : x ≠ h) :
    get? ((h, t) :: σ) x = σ.get? x := by
  rw [get?, List.lookup_cons, beq_false_of_ne hx, get?]

/-- Filled holes are opened again by a substitution. -/
theorem Expr.core_fill (σ : Substitution) (e : Expr) (he : h ∉ e.variables) :
    (e.fill h).core ((h, .hole .nowhere) :: σ) = e.core σ := by
  induction e using inductNode with
  | step e ih =>
    have ih : ∀ c ∈ e.children, (c.fill h).core ((h, .hole .nowhere) :: σ) = c.core σ :=
      fun c hc => ih c hc fun hx => he (mem_variables_of_child hc hx)
    have hroot : ∀ x, e.named? = some x →
        Substitution.get? ((h, .hole .nowhere) :: σ) x = σ.get? x := by
      intro x hx
      refine Substitution.get?_cons_of_ne _ fun hxh => he ?_
      exact mem_variables.2 (.inr (hxh ▸ hx))
    cases hhole : e.isHole with
    | true =>
      obtain ⟨s, rfl⟩ : ∃ s, e = .hole s := by cases e <;> simp_all [isHole]
      simp only [fill, bottomUp_hole, fillRoot, core_lookup, Ident.plain, Substitution.get?, List.lookup_cons_self]
      rfl
    | false =>
      rw [fill_eq h hhole]
      refine core_withChildren hroot ?_
      rw [List.map_map]
      exact List.map_congr_left ih

theorem Expr.mem_variables_fill {e : Expr} {x : String} (hx : x ≠ h) :
    x ∈ (e.fill h).variables ↔ x ∈ e.variables := by
  induction e using inductNode with
  | step e ih =>
    have hroot : (e.fill h).named? = some x ↔ e.named? = some x := by
      cases e with
      | hole s => simp [fill, fillRoot, named?, Ident.plain, hx.symm]
      | new s o => rw [fill_eq h rfl]; rfl
      | _ => rfl
    rw [mem_variables, mem_variables, children_fill, hroot]
    refine or_congr_left ⟨?_, ?_⟩
    · rintro ⟨d, hmem, hxc⟩
      obtain ⟨c, hc, rfl⟩ := List.mem_map.1 hmem
      exact ⟨c, hc, (ih c hc).1 hxc⟩
    · rintro ⟨c, hc, hxc⟩
      exact ⟨c.fill h, List.mem_map_of_mem hc, (ih c hc).2 hxc⟩

theorem Expr.varName?_fill {e : Expr} {x : String} (hx : x ≠ h) :
    (e.fill h).varName? = some x ↔ e.varName? = some x := by
  cases e with
  | hole s => simp [fill, fillRoot, varName?, Ident.plain, hx.symm]
  | new s o => rw [fill_eq h rfl]; rfl
  | _ => rfl

end

/-- No reserved word has an underscore among its first two letters. -/
theorem isName_of_underscore {x : String} {c : Char} {cs : List Char} (hx : x.toList = c :: cs)
    (hc : Lexer.isIdentStart c = true) (hcs : ∀ d ∈ cs, Lexer.isIdentRest d = true)
    (hunderscore : '_' ∈ x.toList.take 2) : Lexer.isName x = true := by
  have hword : ∀ k : Keyword, '_' ∉ k.text.toList.take 2 := by
    intro k
    cases k <;> decide
  have hnone : Keyword.ofText? x = none := by
    refine List.find?_eq_none.2 fun k _ hk => hword k ?_
    rwa [eq_of_beq hk]
  simp only [Lexer.isName, hx, hc, hnone, Bool.and_eq_true, List.all_eq_true]
  exact ⟨⟨trivial, hcs⟩, rfl⟩

theorem isName_underscores (n : Nat) :
    Lexer.isName (String.ofList (List.replicate (n + 1) '_')) = true := by
  have hx : (String.ofList (List.replicate (n + 1) '_')).toList = '_' :: List.replicate n '_' := by
    rw [String.toList_ofList, List.replicate_succ]
  refine isName_of_underscore hx (by decide) (fun d hd => ?_) (hx ▸ .head _)
  rw [List.eq_of_mem_replicate hd]
  decide

theorem exists_isName_not_mem (taken : List String) :
    ∃ h, Lexer.isName h = true ∧ h ∉ taken := by
  have hinj : Function.Injective fun n => String.ofList (List.replicate (n + 1) '_') := by
    intro m n h
    simpa using congrArg String.length h
  obtain ⟨hfree, n, hn⟩ := firstFree_spec hinj taken
  exact ⟨_, hn ▸ isName_underscores n, hfree⟩

/-! ## Texts -/

theorem Expr.kinds_eq_of_text_eq {a b : Expr} (ha : a.Legible) (hb : b.Legible)
    (h : a.text = b.text) :
    (a.layout 0 (.operand .lowest)).kinds = (b.layout 0 (.operand .lowest)).kinds := by
  obtain ⟨ts, hts, hka⟩ := (a.block_layout ha 0 (.operand .lowest)).tidy.tokensFrom_text 0
  obtain ⟨us, hus, hkb⟩ := (b.block_layout hb 0 (.operand .lowest)).tidy.tokensFrom_text 0
  have htext : (a.layout 0 (.operand .lowest)).text = (b.layout 0 (.operand .lowest)).text := h
  rw [htext, hus] at hts
  obtain rfl := Except.ok.inj hts
  exact List.append_cancel_right (hka.symm.trans hkb)

theorem Expr.Read.spelled_eq {a b : Expr} (ha : a.Read) (hb : b.Read)
    (h : (a.layout 0 (.operand .lowest)).kinds = (b.layout 0 (.operand .lowest)).kinds) :
    a.spelled .lowest = b.spelled .lowest := by
  have hra := ha.run_expr 0 stops_nil
  have hrb := hb.run_expr 0 stops_nil
  rw [Runs, h, hrb] at hra
  exact (Prod.mk.inj (Except.ok.inj hra)).1.symm

/-- Two legible expressions with the same text spell the same once their holes are filled. -/
theorem Expr.spelled_fill_eq {a b : Expr} (ha : a.Legible) (hb : b.Legible) (h : a.text = b.text)
    {x : String} (hx : Lexer.isName x = true) :
    (a.fill x).spelled .lowest = (b.fill x).spelled .lowest := by
  have hka := a.seals_layout x ha 0 (.operand .lowest) []
  have hkb := b.seals_layout x hb 0 (.operand .lowest) []
  refine Expr.Read.spelled_eq (read _ (legible_fill hx ha) (a.holeFree_fill x))
    (read _ (legible_fill hx hb) (b.holeFree_fill x)) ?_
  rw [kinds_eq_of_text_eq ha hb h, hkb] at hka
  exact List.append_cancel_right hka.symm

/-- **Texts determine cores.** -/
theorem Expr.core_eq_of_text_eq {a b : Expr} (ha : a.Readable) (hb : b.Readable)
    (h : a.text = b.text) (σ : Substitution) : a.core σ = b.core σ := by
  obtain ⟨x, hx, hfresh⟩ := exists_isName_not_mem (a.variables ++ b.variables)
  obtain ⟨hxa, hxb⟩ : x ∉ a.variables ∧ x ∉ b.variables := by simpa using hfresh
  have hspelled := spelled_fill_eq ha.legible hb.legible h hx
  calc a.core σ = (a.fill x).core ((x, .hole .nowhere) :: σ) := (a.core_fill σ hxa).symm
    _ = ((a.fill x).spelled .lowest).core ((x, .hole .nowhere) :: σ) :=
      (core_spelled _ _ (a.claims_fill x ▸ ha.settled) _).symm
    _ = ((b.fill x).spelled .lowest).core ((x, .hole .nowhere) :: σ) := by rw [hspelled]
    _ = (b.fill x).core ((x, .hole .nowhere) :: σ) :=
      core_spelled _ _ (b.claims_fill x ▸ hb.settled) _
    _ = b.core σ := b.core_fill σ hxb

theorem Expr.varName?_eq_of_text_eq {a b : Expr} (ha : a.Legible) (hb : b.Legible)
    (h : a.text = b.text) : a.varName? = b.varName? := by
  obtain ⟨x, hx, hfresh⟩ := exists_isName_not_mem (a.variables ++ b.variables)
  obtain ⟨hxa, hxb⟩ : x ∉ a.variables ∧ x ∉ b.variables := by simpa using hfresh
  have hnames : (a.fill x).varName? = (b.fill x).varName? := by
    rw [← varName?_spelled .lowest, spelled_fill_eq ha hb h hx, varName?_spelled]
  refine Option.ext fun y => ⟨fun hy => ?_, fun hy => ?_⟩
  · have hyx : y ≠ x := fun e => hxa (e ▸ mem_variables_of_varName? hy)
    rwa [← varName?_fill hyx, ← hnames, varName?_fill hyx]
  · have hyx : y ≠ x := fun e => hxb (e ▸ mem_variables_of_varName? hy)
    rwa [← varName?_fill hyx, hnames, varName?_fill hyx]

theorem Expr.mem_variables_iff_of_text_eq {a b : Expr} (ha : a.Legible) (hb : b.Legible)
    (h : a.text = b.text) (y : String) : y ∈ a.variables ↔ y ∈ b.variables := by
  obtain ⟨x, hx, hfresh⟩ := exists_isName_not_mem [y]
  have hyx : y ≠ x := fun e => hfresh (List.mem_singleton.2 e.symm)
  rw [← mem_variables_fill hyx, ← variables_spelled _ .lowest,
    spelled_fill_eq ha hb h hx, variables_spelled, mem_variables_fill hyx]

end GameHop
