import GameHop.Proofs.Reading.Text
import GameHop.Rewriting.Matching

/-!
The steps of matching, each by what it does to the list of equations: which lists are solved, which
equation is deleted, and which one is split.
-/

namespace GameHop

/-! ## Sides -/

theorem MatchTerm.name?_eq (t : MatchTerm) : t.name? = t.toExpr.varName? := by
  cases t <;> rfl

theorem MatchTerm.text_eq (t : MatchTerm) : t.text = t.toExpr.text := by
  cases t with
  | expr e => rfl
  | name x =>
    show x = String.join [x]
    simp [String.join]

theorem MatchTerm.not_mem_variables {names : List String} {t : MatchTerm}
    (h : t.mentionsAny names = false) : ∀ x ∈ t.toExpr.variables, x ∉ names := by
  intro x hx hmem
  cases t with
  | expr e =>
    simp only [mentionsAny, List.any_eq_false, List.contains_eq_mem,
      decide_eq_true_eq] at h
    exact h x (e.variables_subset_identifiers hx) hmem
  | name y =>
    obtain rfl : x = y := List.mem_singleton.1 hx
    simp [mentionsAny, hmem] at h

theorem Substitution.get?_of_not_mem {s : Substitution} {vars : List String}
    (hs : ∀ b ∈ s, b.1 ∈ vars) {x : String} (hx : x ∉ vars) : s.get? x = none := by
  refine List.lookup_eq_none_iff.2 fun b hb => ?_
  simpa using fun hxb : x = b.1 => hx (hxb ▸ hs b hb)

section
variable {vars bound : List String} {es seen out : List Equation}

namespace Matching


/-! ## Solved lists -/

/-- A solved list gives each of its variables a value. -/
theorem get?_of_solved {s : Substitution} (h : solved? vars es = some s) :
    ∀ e ∈ es, ∃ x, e.left.name? = some x ∧ s.get? x = some e.right.toExpr := by
  induction es generalizing s with
  | nil => simp
  | cons e es ih =>
    simp only [solved?, Option.bind_eq_bind, Option.bind_eq_some_iff, Option.ite_none_right_eq_some,
      Bool.and_eq_true, Option.isNone_iff_eq_none, Option.some.injEq] at h
    obtain ⟨x, hx, s', hs', ⟨hvar, hnone⟩, rfl⟩ := h
    rintro e' (_ | ⟨_, he'⟩)
    · exact ⟨x, hx, List.lookup_cons_self⟩
    · obtain ⟨y, hy, hget⟩ := ih hs' e' he'
      have hyx : y ≠ x := by
        rintro rfl
        rw [hnone] at hget
        cases hget
      exact ⟨y, hy, by rw [Substitution.get?_cons_of_ne _ hyx, hget]⟩

/-- A solved list gives values to variables only, and the values are right sides of its equations. -/
theorem mem_vars_of_solved {s : Substitution} (h : solved? vars es = some s) :
    ∀ b ∈ s, b.1 ∈ vars ∧ ∃ e ∈ es, e.right.toExpr = b.2 := by
  induction es generalizing s with
  | nil =>
    obtain rfl : [] = s := by simpa [solved?] using h
    simp
  | cons e es ih =>
    simp only [solved?, Option.bind_eq_bind, Option.bind_eq_some_iff, Option.ite_none_right_eq_some,
      Bool.and_eq_true, List.contains_eq_mem, decide_eq_true_eq, Option.some.injEq] at h
    obtain ⟨x, hx, s', hs', ⟨hvar, hnone⟩, rfl⟩ := h
    rintro b (_ | ⟨_, hb⟩)
    · exact ⟨hvar, e, .head _, rfl⟩
    · obtain ⟨hmem, e', he', hright⟩ := ih hs' b hb
      exact ⟨hmem, e', .tail _ he', hright⟩

/-- The values of a solved list are right sides of its equations. -/
theorem mem_of_solved {s : Substitution} (h : solved? vars es = some s) {x : String} {t : Expr}
    (hget : s.get? x = some t) : ∃ e ∈ es, e.left.name? = some x ∧ e.right.toExpr = t := by
  induction es generalizing s with
  | nil =>
    obtain rfl : [] = s := by simpa [solved?] using h
    cases hget
  | cons e es ih =>
    simp only [solved?, Option.bind_eq_bind, Option.bind_eq_some_iff, Option.ite_none_right_eq_some,
      Option.some.injEq] at h
    obtain ⟨y, hy, s', hs', -, rfl⟩ := h
    by_cases hxy : x = y
    · subst hxy
      rw [Substitution.get?, List.lookup_cons_self] at hget
      exact ⟨e, .head _, hy, Option.some.inj hget⟩
    · rw [Substitution.get?_cons_of_ne _ hxy] at hget
      obtain ⟨e', he', hx, ht⟩ := ih hs' hget
      exact ⟨e', .tail _ he', hx, ht⟩

/-- A list is solved if its equations give values to different variables. -/
theorem exists_solved (hvars : ∀ e ∈ es, ∃ x ∈ vars, e.left.name? = some x)
    (hne : es.Pairwise fun e e' => e.left.name? ≠ e'.left.name?) :
    ∃ s, solved? vars es = some s := by
  induction es with
  | nil => exact ⟨[], rfl⟩
  | cons e es ih =>
    rw [List.forall_mem_cons] at hvars
    rw [List.pairwise_cons] at hne
    obtain ⟨x, hx, hname⟩ := hvars.1
    obtain ⟨s, hs⟩ := ih hvars.2 hne.2
    have hnone : s.get? x = none := by
      refine Option.eq_none_iff_forall_ne_some.2 fun t ht => ?_
      obtain ⟨e', he', hname', -⟩ := mem_of_solved hs ht
      exact hne.1 e' he' (hname.trans hname'.symm)
    exact ⟨(x, e.right.toExpr) :: s, by simp [solved?, hname, hs, hx, hnone]⟩

/-! ## Deletion -/

/-- What is deleted is an equation that is trivial or that occurs in the rest. -/
theorem delete_spec (h : delete? vars bound seen es = some out) :
    ∃ before e after, seen ++ es = before ++ e :: after ∧ out = before ++ after ∧
      (e.isTrivial vars bound = true ∨ ∃ e' ∈ out, e.sameTexts e' = true) := by
  induction es generalizing seen with
  | nil => simp [delete?] at h
  | cons e es ih =>
    simp only [delete?] at h
    split at h
    · rename_i hdel
      obtain rfl := Option.some.inj h
      refine ⟨seen, e, es, rfl, rfl, ?_⟩
      simpa only [Bool.or_eq_true, List.any_eq_true] using hdel
    · simpa using ih h

/-! ## Splitting -/

/-- If nothing is deleted, no equation is trivial and none occurs twice. -/
theorem delete_none (h : delete? vars bound seen es = none) :
    (∀ e ∈ es, e.isTrivial vars bound = false) ∧
      es.Pairwise fun e e' => e.sameTexts e' = false := by
  induction es generalizing seen with
  | nil => simp
  | cons e es ih =>
    simp only [delete?] at h
    split at h
    · cases h
    · rename_i hkeep
      obtain ⟨htrivial, hpair⟩ := ih h
      simp only [Bool.or_eq_true, not_or, Bool.not_eq_true, List.any_eq_false,
        List.mem_append] at hkeep
      rw [List.forall_mem_cons, List.pairwise_cons]
      exact ⟨⟨hkeep.1, htrivial⟩, fun e' he' => hkeep.2 e' (.inr he'), hpair⟩

end Matching

end

/-- Two expressions of one shape, and the equations between their parts. -/
inductive Expr.Splits : Expr → Expr → List Equation → Prop
  | lookup {s t x y} : Splits (.lookup s x) (.lookup t y) [.names x y]
  | paren {s t a b} : Splits (.paren s none a) (.paren t none b) [.exprs a b]
  | labelled {s t x y a b} :
    Splits (.paren s (some x) a) (.paren t (some y) b) [.names x y, .exprs a b]
  | seq {s t a b c d} : Splits (.seq s a b) (.seq t c d) [.exprs a c, .exprs b d]
  | assign {s t x y a b} : Splits (.assign s x a) (.assign t y b) [.names x y, .exprs a b]
  | ternary {s t a b c d e f} :
    Splits (.ternary s a b c) (.ternary t d e f) [.exprs a d, .exprs b e, .exprs c f]
  | unary {s t op a b} : Splits (.unary s op a) (.unary t op b) [.exprs a b]
  | binary {s t op a b c d} :
    Splits (.binary s op a b) (.binary t op c d) [.exprs a c, .exprs b d]
  | call {s t f g as bs} : f.name = g.name → as.length = bs.length →
    Splits (.call s f as) (.call t g bs) (List.zipWith .exprs as bs)
  | invoke {s t a b m n cs ds as bs} : m.name = n.name → cs.map (·.name) = ds.map (·.name) →
    as.length = bs.length →
    Splits (.invoke s a m cs as) (.invoke t b n ds bs) (.exprs a b :: List.zipWith .exprs as bs)
  | index {s t a b c d} : Splits (.index s a b) (.index t c d) [.exprs a c, .exprs b d]
  | update {s t a b c d e f} :
    Splits (.update s a b c) (.update t d e f) [.exprs a d, .exprs b e, .exprs c f]

theorem Expr.splits_of_equateParts {l r : Expr} {parts : List Equation}
    (h : l.equateParts r = .ok (some parts)) : l.Splits r parts := by
  unfold equateParts at h
  split at h <;> try simp only [Except.ok.injEq, Option.some.injEq, reduceCtorEq] at h
  case h_7 =>
    simp only [Option.ite_none_right_eq_some, Option.some.injEq] at h
    obtain ⟨rfl, rfl⟩ := h
    exact .unary
  case h_8 =>
    simp only [Option.ite_none_right_eq_some, Option.some.injEq] at h
    obtain ⟨rfl, rfl⟩ := h
    exact .binary
  case h_9 =>
    split at h
    · cases h
    · rename_i hf
      split at h
      · cases h
      · rename_i hlength
        obtain rfl := Option.some.inj (Except.ok.inj h)
        exact .call (not_not.1 hf) (not_not.1 hlength)
  case h_10 =>
    simp only [Option.ite_none_right_eq_some, Option.some.injEq] at h
    obtain ⟨⟨hm, hcs, hlength⟩, rfl⟩ := h
    exact .invoke hm hcs hlength
  all_goals
    subst h
    constructor

theorem Equation.splits_of_parts {e : Equation} {parts : List Equation}
    (h : e.parts = .ok (some parts)) : ∃ l r, e = .exprs l r ∧ l.Splits r parts := by
  obtain ⟨left, right⟩ := e
  cases left with
  | name x => cases h
  | expr l =>
    cases right with
    | name y => cases h
    | expr r => exact ⟨l, r, rfl, Expr.splits_of_equateParts h⟩

/-- What is split is replaced by its parts. -/
theorem Matching.split_spec {seen es out : List Equation} (h : split? seen es = .ok (some out)) :
    ∃ before e after parts, seen ++ es = before ++ e :: after ∧
      e.parts = .ok (some parts) ∧ out = before ++ after ++ parts := by
  induction es generalizing seen with
  | nil => simp [split?] at h
  | cons e es ih =>
    simp only [split?, bind, Except.bind] at h
    cases hp : e.parts with
    | error f => simp [hp] at h
    | ok parts =>
      cases parts with
      | none =>
        simp only [hp] at h
        simpa using ih h
      | some parts =>
        simp only [hp, pure, Except.pure, Except.ok.injEq, Option.some.injEq] at h
        exact ⟨seen, e, es, parts, rfl, hp, h.symm⟩

/-- If nothing is split, no equation has parts. -/
theorem Matching.split_none {seen es : List Equation} (h : split? seen es = .ok none) :
    ∀ e ∈ es, e.parts = .ok none := by
  induction es generalizing seen with
  | nil => simp
  | cons e es ih =>
    simp only [split?, bind, Except.bind] at h
    rw [List.forall_mem_cons]
    cases hp : e.parts with
    | error f => simp [hp] at h
    | ok parts =>
      cases parts with
      | none =>
        simp only [hp] at h
        exact ⟨rfl, ih h⟩
      | some parts => simp [hp, pure, Except.pure] at h

/-- Splitting fails only where an equation has no parts to speak of. -/
theorem Matching.split_error {seen es : List Equation} {f : InternalFault}
    (h : split? seen es = .error f) : ∃ e ∈ es, e.parts = .error f := by
  induction es generalizing seen with
  | nil => cases h
  | cons e es ih =>
    simp only [split?, bind, Except.bind] at h
    cases hp : e.parts with
    | error f' =>
      simp only [hp, Except.error.injEq] at h
      exact ⟨e, .head _, h ▸ hp⟩
    | ok parts =>
      cases parts with
      | none =>
        simp only [hp] at h
        obtain ⟨e', he', hf⟩ := ih h
        exact ⟨e', .tail _ he', hf⟩
      | some parts => simp [hp, pure, Except.pure] at h

/-- A solution gives values to variables only. -/
theorem Matching.keys_of_solve {vars bound : List String} {es : List Equation} {s : Substitution}
    (h : solve vars bound es = .ok (some s)) : ∀ b ∈ s, b.1 ∈ vars := by
  fun_induction solve vars bound es with
  | case1 es s' hsolved =>
    obtain rfl := Option.some.inj (Except.ok.inj h)
    exact fun b hb => (mem_vars_of_solved hsolved b hb).1
  | case2 es hsolved es' hdel ih => exact ih h
  | case3 | case4 => cases h
  | case5 es hsolved hdel es' hsplit ih => exact ih h

end GameHop
