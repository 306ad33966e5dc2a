import GameHop.Proofs.Matching.Steps
import Mathlib

/-!
Soundness of matching. An equation holds under a substitution if the instance of its left side is
the right side, as far as the equality of programs can tell.
-/

namespace GameHop

/-- Whether both sides can be read from their texts. -/
structure Equation.Readable (e : Equation) : Prop where
  left : e.left.toExpr.Readable
  right : e.right.toExpr.Readable

/-- Whether the substitution turns the left side into the right one. A name that stands for a name is
    replaced by just that name: it may be the target of an assignment. -/
structure Equation.Holds (s : Substitution) (e : Equation) : Prop where
  core : e.left.toExpr.core s = e.right.toExpr.core []
  target : ∀ x y, e.left.name? = some x → e.right.name? = some y → s.target x = y

theorem Ident.readable_var {x : Ident} (h : x.Legible) : (Expr.var x.name).Readable :=
  ⟨h, List.forall_mem_nil _⟩

section
variable {s : Substitution}

theorem Equation.readable_exprs {l r : Expr} (hl : l.Readable) (hr : r.Readable) :
    (exprs l r).Readable :=
  ⟨hl, hr⟩

theorem Equation.readable_names {x y : Ident} (hx : x.Legible) (hy : y.Legible) :
    (names x y).Readable :=
  ⟨Ident.readable_var hx, Ident.readable_var hy⟩

theorem Equation.holds_of_core {l r : Expr} (hl : l.varName? = none)
    (h : l.core s = r.core []) : (exprs l r).Holds s := by
  refine ⟨h, fun x y hx _ => ?_⟩
  have hx : l.varName? = some x := hx
  rw [hl] at hx
  cases hx

theorem Equation.map_core_of_holds {as bs : List Expr} (hlength : as.length = bs.length)
    (h : ∀ e ∈ List.zipWith exprs as bs, e.Holds s) :
    as.map (Expr.core s) = bs.map (Expr.core []) := by
  induction as generalizing bs with
  | nil =>
    obtain rfl : bs = [] := List.length_eq_zero_iff.1 hlength.symm
    rfl
  | cons a as ih =>
    obtain ⟨b, bs, rfl⟩ := List.exists_of_length_succ _ hlength.symm
    rw [List.zipWith_cons_cons, List.forall_mem_cons] at h
    have ha : a.core s = b.core [] := h.1.core
    rw [List.map_cons, List.map_cons, ha, ih (by simpa using hlength) h.2]

theorem Equation.readable_zipWith {as bs : List Expr} (ha : ∀ a ∈ as, a.Readable)
    (hb : ∀ b ∈ bs, b.Readable) : ∀ e ∈ List.zipWith exprs as bs, e.Readable := by
  induction as generalizing bs with
  | nil => simp
  | cons a as ih =>
    cases bs with
    | nil => simp
    | cons b bs =>
      rw [List.forall_mem_cons] at ha hb
      rw [List.zipWith_cons_cons, List.forall_mem_cons]
      exact ⟨readable_exprs ha.1 hb.1, ih ha.2 hb.2⟩

/-! ## Steps -/

/-- The parts of readable expressions are readable. -/
theorem Expr.Splits.readable {l r : Expr} {parts : List Equation} (h : l.Splits r parts)
    (hl : l.Readable) (hr : r.Readable) : ∀ e ∈ parts, e.Readable := by
  have hlc : ∀ c ∈ l.children, c.Readable := fun c hc => hl.child hc
  have hrc : ∀ c ∈ r.children, c.Readable := fun c hc => hr.child hc
  have hlr := hl.legible.root
  have hrr := hr.legible.root
  cases h with
  | call hf hlength => exact Equation.readable_zipWith hlc hrc
  | invoke hm hcs hlength =>
    rw [children, List.forall_mem_cons] at hlc hrc
    rw [List.forall_mem_cons]
    exact ⟨Equation.readable_exprs hlc.1 hrc.1, Equation.readable_zipWith hlc.2 hrc.2⟩
  | lookup => simpa using Equation.readable_names hlr hrr
  | assign =>
    simpa using ⟨Equation.readable_names hlr hrr,
      Equation.readable_exprs (hlc _ (.head _)) (hrc _ (.head _))⟩
  | labelled =>
    simpa using ⟨Equation.readable_names (hlr _ rfl) (hrr _ rfl),
      Equation.readable_exprs (hlc _ (.head _)) (hrc _ (.head _))⟩
  | _ => simp_all [children, Equation.readable_exprs]

theorem Equation.Holds.exprs {a b : Expr} (h : (exprs a b).Holds s) :
    a.core s = b.core [] :=
  h.core

theorem Expr.core_var (σ : Substitution) (t : Span) (x : Ident) :
    (var x.name).core σ = (lookup t x).core σ := by
  rw [core_lookup, var, core_lookup]
  rfl

/-- **Splitting is sound**: expressions match if their parts do. -/
theorem Expr.Splits.holds {l r : Expr} {parts : List Equation} (h : l.Splits r parts)
    (hparts : ∀ e ∈ parts, e.Holds s) : (Equation.exprs l r).Holds s := by
  cases h with
  | @lookup t t' x y =>
    have hxy := hparts _ (.head _)
    refine ⟨?_, hxy.target⟩
    have hcore : (var x.name).core s = (var y.name).core [] := hxy.core
    rwa [core_var s t, core_var [] t'] at hcore
  | assign =>
    have hxy := (hparts _ (.head _)).target _ _ rfl rfl
    have ha := (hparts _ (.tail _ (.head _))).exprs
    refine Equation.holds_of_core rfl ?_
    rw [core_assign, core_assign, hxy, ha, Substitution.target_nil]
  | call hf hlength =>
    refine Equation.holds_of_core rfl ?_
    rw [core_call, core_call, Equation.map_core_of_holds hlength hparts, Ident.bare, hf,
      Ident.bare]
  | invoke hm hcs hlength =>
    rw [List.forall_mem_cons] at hparts
    refine Equation.holds_of_core rfl ?_
    rw [core_invoke, core_invoke, hparts.1.exprs,
      Equation.map_core_of_holds hlength hparts.2, Ident.bare, hm, Ident.bare]
  | paren | unary =>
    have ha := (hparts _ (.head _)).exprs
    exact Equation.holds_of_core rfl (by simp [ha])
  | labelled =>
    have ha := (hparts _ (.tail _ (.head _))).exprs
    exact Equation.holds_of_core rfl (by simp [ha])
  | seq | binary | index =>
    have ha := (hparts _ (.head _)).exprs
    have hb := (hparts _ (.tail _ (.head _))).exprs
    exact Equation.holds_of_core rfl (by simp [ha, hb])
  | ternary | update =>
    have ha := (hparts _ (.head _)).exprs
    have hb := (hparts _ (.tail _ (.head _))).exprs
    have hc := (hparts _ (.tail _ (.tail _ (.head _)))).exprs
    exact Equation.holds_of_core rfl (by simp [ha, hb, hc])

/-- An equation that says the same as one that holds holds. -/
theorem Equation.Holds.of_sameTexts {e e' : Equation} (h : e'.Holds s) (he : e.Readable)
    (he' : e'.Readable) (hsame : e.sameTexts e' = true) : e.Holds s := by
  simp only [sameTexts, Bool.and_eq_true, beq_iff_eq, MatchTerm.text_eq] at hsame
  obtain ⟨hleft, hright⟩ := hsame
  constructor
  · rw [Expr.core_eq_of_text_eq he.left he'.left hleft,
      Expr.core_eq_of_text_eq he.right he'.right hright, h.core]
  · intro x y hx hy
    rw [MatchTerm.name?_eq, Expr.varName?_eq_of_text_eq he.left.legible he'.left.legible hleft,
      ← MatchTerm.name?_eq] at hx
    rw [MatchTerm.name?_eq, Expr.varName?_eq_of_text_eq he.right.legible he'.right.legible hright,
      ← MatchTerm.name?_eq] at hy
    exact h.target x y hx hy

/-- A trivial equation holds under every substitution for the variables. -/
theorem Equation.holds_of_isTrivial {vars bound : List String} {e : Equation} (he : e.Readable)
    (hs : ∀ b ∈ s, b.1 ∈ vars) (h : e.isTrivial vars bound = true) : e.Holds s := by
  simp only [isTrivial, Bool.and_eq_true, beq_iff_eq, Bool.not_eq_true',
    MatchTerm.text_eq] at h
  obtain ⟨⟨htext, hvars⟩, -⟩ := h
  have hnone : ∀ x ∈ e.left.toExpr.variables, s.get? x = none := fun x hx =>
    Substitution.get?_of_not_mem hs (MatchTerm.not_mem_variables hvars x hx)
  have hcore : e.left.toExpr.core s = e.left.toExpr.core [] := Expr.core_congr _ hnone
  constructor
  · rw [hcore, Expr.core_eq_of_text_eq he.left he.right htext]
  · intro x y hx hy
    rw [MatchTerm.name?_eq] at hx hy
    have hget := hnone x (Expr.mem_variables_of_varName? hx)
    rw [Expr.varName?_eq_of_text_eq he.left.legible he.right.legible htext, hy] at hx
    rw [Substitution.target, hget]
    exact (Option.some.inj hx).symm

/-! ## Runs -/

theorem Expr.core_of_varName? {e t : Expr} {x : String} (he : e.varName? = some x)
    (hget : s.get? x = some t) : e.core s = t.core [] := by
  cases e with
  | lookup sp i =>
    obtain rfl := Option.some.inj he
    rw [core_lookup, hget, core, substitute_nil]
  | _ => cases he

theorem Matching.holds_of_solved {vars : List String} {es : List Equation}
    (h : solved? vars es = some s) : ∀ e ∈ es, e.Holds s := by
  intro e he
  obtain ⟨x, hx, hget⟩ := get?_of_solved h e he
  constructor
  · rw [MatchTerm.name?_eq] at hx
    exact Expr.core_of_varName? hx hget
  · intro x' y hx' hy
    obtain rfl : x = x' := Option.some.inj (hx.symm.trans hx')
    rw [MatchTerm.name?_eq] at hy
    rw [Substitution.target, hget, Option.bind_some, hy, Option.getD_some]

/-- **Solving is sound**: all equations hold under a solution, and it gives readable values to
    variables only. -/
theorem Matching.solve_sound {vars bound : List String} {es : List Equation}
    (hes : ∀ e ∈ es, e.Readable) (h : solve vars bound es = .ok (some s)) :
    (∀ b ∈ s, b.1 ∈ vars ∧ b.2.Readable) ∧ ∀ e ∈ es, e.Holds s := by
  fun_induction solve vars bound es with
  | case1 es s' hsolved =>
    obtain rfl := Option.some.inj (Except.ok.inj h)
    refine ⟨fun b hb => ?_, holds_of_solved hsolved⟩
    obtain ⟨hvar, e, he, hright⟩ := mem_vars_of_solved hsolved b hb
    exact ⟨hvar, hright ▸ (hes e he).right⟩
  | case2 es hsolved es' hdel ih =>
    obtain ⟨before, e, after, rfl, rfl, hwhy⟩ := delete_spec hdel
    simp only [List.forall_mem_append, List.forall_mem_cons] at hes ⊢
    have hrest : ∀ e ∈ before ++ after, e.Readable := List.forall_mem_append.2 ⟨hes.1, hes.2.2⟩
    obtain ⟨hvars, hholds⟩ := ih hrest h
    have he : e.Holds s := by
      rcases hwhy with htrivial | ⟨e', he', hsame⟩
      · exact Equation.holds_of_isTrivial hes.2.1 (fun b hb => (hvars b hb).1) htrivial
      · exact (hholds e' he').of_sameTexts hes.2.1 (hrest e' he') hsame
    rw [List.forall_mem_append] at hholds
    exact ⟨hvars, hholds.1, he, hholds.2⟩
  | case3 => cases h
  | case4 => cases h
  | case5 es hsolved hdel es' hsplit ih =>
    obtain ⟨before, e, after, parts, rfl, hparts, rfl⟩ := split_spec hsplit
    obtain ⟨l, r, rfl, hlr⟩ := Equation.splits_of_parts hparts
    simp only [List.forall_mem_append, List.forall_mem_cons] at hes ih ⊢
    obtain ⟨hvars, ⟨hbefore, hafter⟩, hholds⟩ :=
      ih ⟨⟨hes.1, hes.2.2⟩, hlr.readable hes.2.1.left hes.2.1.right⟩ h
    exact ⟨hvars, hbefore, hlr.holds hholds, hafter⟩

theorem Expr.core_of_matchWith {pattern program : Expr} {vars bound : List String}
    (hpattern : pattern.Readable) (hprogram : program.Readable)
    (h : pattern.matchWith vars program bound = .ok (some s)) :
    (∀ b ∈ s, b.1 ∈ vars ∧ b.2.Readable) ∧ pattern.core s = program.core [] := by
  have hread : ∀ e ∈ [Equation.exprs pattern program], e.Readable := by
    simpa using Equation.readable_exprs hpattern hprogram
  obtain ⟨hvars, hholds⟩ := Matching.solve_sound hread h
  exact ⟨hvars, (hholds _ (.head _)).exprs⟩

/-- **Matching is sound.** A match gives values to variables only, and the instance of the pattern is
    the program. -/
theorem Expr.matchWith_sound {pattern program : Expr} {vars bound : List String} {s : Substitution}
    (hpattern : pattern.Readable) (hprogram : program.Readable)
    (h : pattern.matchWith vars program bound = .ok (some s)) :
    (∀ b ∈ s, b.1 ∈ vars) ∧ (pattern.substitute s).structurallyEqual program = true := by
  obtain ⟨hvars, hcore⟩ := Expr.core_of_matchWith hpattern hprogram h
  refine ⟨fun b hb => (hvars b hb).1, Expr.structurallyEqual_of_core ?_⟩
  rw [Expr.core_nil_substitute, hcore]

end

/-- `x = f(y, y)` matches `k = f(3, 3)`. -/
theorem Expr.matchWith_sound_assignment :
    let pattern := Expr.assign .nowhere (.plain "x")
      (.call .nowhere (.plain "f") [.var "y", .var "y"])
    let program := Expr.assign .nowhere (.plain "k")
      (.call .nowhere (.plain "f") [.int .nowhere 3, .int .nowhere 3])
    let s : Substitution := [("x", .var "k"), ("y", .int .nowhere 3)]
    pattern.matchWith ["x", "y"] program [] = .ok (some s) ∧
      (pattern.substitute s).structurallyEqual program = true := by
  intro pattern program s
  have hmatch : pattern.matchWith ["x", "y"] program [] = .ok (some s) := by cbv
  have hpattern : pattern.Readable := ⟨⟨rfl, rfl, rfl, rfl, trivial⟩, List.forall_mem_nil _⟩
  have hprogram : program.Readable := ⟨⟨rfl, rfl, trivial, trivial, trivial⟩, List.forall_mem_nil _⟩
  exact ⟨hmatch, (Expr.matchWith_sound hpattern hprogram hmatch).2⟩

end GameHop
