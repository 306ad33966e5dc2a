import Mathlib
import GameHop.Proofs.Reading.Sources
import GameHop.Proofs.Rewriting.Readability

/-!
The equality of programs, which closes proofs, compares texts. **On readable programs it decides
whether the simplified programs are the same tree** (`Expr.structurallyEqual_iff`); what was read is
readable (`Expr.asRead_of_parse`).
-/

namespace GameHop

/-! ## Simplified expressions -/

/-- Whether the root is nothing that equality ignores and carries nothing of that kind. -/
def Expr.isPlain : Expr → Bool
  | .paren _ _ _ => false
  | .invoke _ _ _ classes _ => classes.isEmpty
  | .new _ o => o.className.isNone
  | _ => true

theorem Expr.simplifyRoot_of_isPlain {e : Expr} (h : e.isPlain = true) : e.simplifyRoot = e := by
  cases e with
  | paren s l a => cases h
  | invoke s t m cs args =>
    obtain rfl := List.isEmpty_iff.1 h
    rfl
  | new s o =>
    obtain ⟨c, fs, ms⟩ := o
    obtain rfl := Option.isNone_iff_eq_none.1 h
    rfl
  | _ => rfl

/-- A root that is no parenthesis keeps its place and loses what equality ignores. -/
theorem Expr.simplify_root {e : Expr} (he : ∀ s l a, e ≠ .paren s l a) :
    e.simplify.children = e.children.map simplify ∧ e.simplify.isPlain = true := by
  cases e with
  | paren s l a => exact absurd rfl (he s l a)
  | new s o =>
    obtain ⟨c, fs, ms⟩ := o
    simp [simplify, simplifyRoot, children, isPlain, Function.comp_def]
  | _ => simp [simplify, simplifyRoot, children, isPlain]

/-- **A simplified expression has no parentheses, no names of classes and no expected classes**
    outside formulas. -/
theorem Expr.isPlain_of_mem_simplify {e : Expr} :
    ∀ n ∈ e.simplify.postorder, n.isPlain = true := by
  induction e using inductNode with
  | step e ih =>
    by_cases he : ∃ s l a, e = .paren s l a
    · obtain ⟨s, l, a, rfl⟩ := he
      exact ih a (by simp [children])
    · obtain ⟨hchildren, hplain⟩ := simplify_root fun s l a h => he ⟨s, l, a, h⟩
      rw [postorder_eq, hchildren, List.flatMap_map]
      intro n hn
      rcases List.mem_append.1 hn with hn | hn
      · obtain ⟨c, hc, hn⟩ := List.mem_flatMap.1 hn
        exact ih c hc n hn
      · rwa [List.mem_singleton.1 hn]

theorem Expr.simplify_of_isPlain {e : Expr} (h : ∀ n ∈ e.postorder, n.isPlain = true) :
    e.simplify = e := by
  induction e using inductNode with
  | step e ih =>
    rw [postorder_eq, List.forall_mem_append] at h
    have hchildren : ∀ c ∈ e.children, c.simplify = c := fun c hc =>
      ih c hc fun n hn => h.1 n (List.mem_flatMap.2 ⟨c, hc, hn⟩)
    have hmap : e.children.map (bottomUp true simplifyRoot) = e.children :=
      map_eq_self hchildren
    rw [simplify, bottomUp_eq, hmap, withChildren_children,
      simplifyRoot_of_isPlain (h.2 e (List.mem_singleton_self e))]

theorem Expr.simplify_simplify (e : Expr) : e.simplify.simplify = e.simplify :=
  simplify_of_isPlain isPlain_of_mem_simplify

theorem Expr.Readable.simplify {e : Expr} (he : e.Readable) : e.simplify.Readable := by
  refine readable_bottomUp true (fun e he => ?_) he
  unfold simplifyRoot
  split
  · rw [readable_paren] at he
    exact he.2
  · rw [readable_invoke] at he ⊢
    simp_all
  · rw [readable_new] at he ⊢
    exact ⟨by simp, he.fields, he.methods⟩
  · exact he

/-! ## Texts decide -/

theorem Expr.structurallyEqual_iff_core {l r : Expr} (hl : l.Readable) (hr : r.Readable) :
    l.structurallyEqual r = true ↔ l.core [] = r.core [] := by
  refine ⟨fun h => ?_, structurallyEqual_of_core⟩
  have hcore := core_eq_of_text_eq hl.simplify hr.simplify (eq_of_beq h) []
  simpa only [core, substitute_nil, simplify_simplify] using hcore

/-- **Equality of programs decides equality of simplified trees.** For readable programs, that is with
    names that are identifiers and with claims like those that were read, the texts of the simplified
    programs are the same iff the simplified programs are, up to places. Simplifying twice is
    simplifying once, and no node outside formulas is left that simplifying drops or changes. -/
theorem Expr.structurallyEqual_iff {l r : Expr} (hl : l.Readable) (hr : r.Readable) :
    (l.structurallyEqual r = true ↔ l.simplify.bare = r.simplify.bare) ∧
      ∀ e : Expr, e.simplify.simplify = e.simplify ∧
        ∀ n ∈ e.simplify.postorder, n.isPlain = true := by
  refine ⟨?_, fun e => ⟨e.simplify_simplify, e.isPlain_of_mem_simplify⟩⟩
  simpa only [Expr.core, Expr.substitute_nil] using Expr.structurallyEqual_iff_core hl hr

/-- Parentheses, a label and an expected class make no difference, the grouping of a sum does. -/
theorem Expr.structurallyEqual_iff_call :
    ∃ l r other, Expr.parse "L@((o).m<C>(a + (b)))" = .ok l ∧ Expr.parse "o.m(a + b)" = .ok r ∧
      Expr.parse "o.m(a + (b + c))" = .ok other ∧
      l.simplify.bare = r.simplify.bare ∧ ¬ l.simplify.bare = other.simplify.bare := by
  obtain ⟨l, hl, hltext⟩ : ∃ e, Expr.parse "L@((o).m<C>(a + (b)))" = .ok e ∧
      e.simplify.text = "o.m(a + b)" := exists_of_map_toOption (by decide +kernel)
  obtain ⟨r, hr, hrtext⟩ : ∃ e, Expr.parse "o.m(a + b)" = .ok e ∧
      e.simplify.text = "o.m(a + b)" := exists_of_map_toOption (by decide +kernel)
  obtain ⟨other, ho, hotext⟩ : ∃ e, Expr.parse "o.m(a + (b + c))" = .ok e ∧
      e.simplify.text = "o.m(a + (b + c))" := exists_of_map_toOption (by decide +kernel)
  have hlr := Expr.structurallyEqual_iff (Expr.asRead_of_parse hl).readable
    (Expr.asRead_of_parse hr).readable
  have hlo := Expr.structurallyEqual_iff (Expr.asRead_of_parse hl).readable
    (Expr.asRead_of_parse ho).readable
  refine ⟨l, r, other, hl, hr, ho, hlr.1.1 ?_, fun h => ?_⟩
  · rw [Expr.structurallyEqual, hltext, hrtext, beq_self_eq_true]
  · have := hlo.1.2 h
    rw [Expr.structurallyEqual, hltext, hotext] at this
    exact absurd this (by decide)

end GameHop
