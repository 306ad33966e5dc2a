import GameHop.Check.Obligation
import GameHop.Proofs.Matching.Soundness
import GameHop.Proofs.Rewriting.Derivation
import GameHop.Proofs.Rewriting.Readability
import Mathlib.Data.Real.Basic
import Mathlib.Tactic.Linarith

/-!
What facts mean. Bounds have values, where names, calls, powers and advantages may have any;
programs have distances, where programs that the equality of programs identifies are at distance
zero.
-/

namespace GameHop

/-! ## Values of bounds -/

/-- Values for all that is not arithmetic. -/
structure Valuation where
  name : String → ℚ
  call : String → List Bound → ℚ
  power : Bound → Bound → ℚ
  env : List Expr → ℚ

namespace Valuation

/-- The value of a bound. -/
def value (v : Valuation) : Bound → ℚ
  | .int _ n => n.toNat
  | .lookup _ x => v.name x.name
  | .paren _ b => v.value b
  | .call _ f args => v.call f.name args
  | .env _ contexts => v.env contexts
  | .binary _ .add a b => v.value a + v.value b
  | .binary _ .sub a b => v.value a - v.value b
  | .binary _ .mul a b => v.value a * v.value b
  | .binary _ .div a b => v.value a / v.value b
  | .binary _ .pow a b => v.power a b

variable (v : Valuation)

theorem value_of_isZero {b : Bound} (h : b.isZero = true) : v.value b = 0 := by
  fun_induction Bound.isZero b with
  | case1 s n =>
    obtain rfl := eq_of_beq h
    rfl
  | case2 s b ih => exact ih h
  | case3 => cases h

/-- A zero that is dropped from a sum adds nothing. -/
@[simp] theorem value_add (a b : Bound) : v.value (a.add b) = v.value a + v.value b := by
  unfold Bound.add
  split_ifs with ha hb
  · rw [v.value_of_isZero ha, zero_add]
  · rw [v.value_of_isZero hb, add_zero]
  · rfl

@[simp] theorem value_zero : v.value .zero = 0 :=
  v.value_of_isZero rfl

end Valuation

/-! ## Distances of programs -/

/-- A distance between programs that cannot tell programs apart that are structurally equal. -/
structure Distance where
  dist : Expr → Expr → ℝ
  symm : ∀ a b, dist a b = dist b a
  triangle : ∀ a b c, dist a c ≤ dist a b + dist b c
  eq_zero : ∀ a b, a.structurallyEqual b = true → dist a b = 0

namespace Distance

variable (D : Distance)

theorem self (a : Expr) : D.dist a a = 0 :=
  D.eq_zero a a (Expr.structurallyEqual_of_core rfl)

/-- Programs at distance zero have the same distances to other programs. -/
theorem congr_left {a b : Expr} (h : D.dist a b = 0) (c : Expr) : D.dist a c = D.dist b c := by
  apply le_antisymm
  · have := D.triangle a b c
    linarith
  · have := D.triangle b a c
    rw [D.symm b a] at this
    linarith

end Distance

/-- **Replacing a subtree by one with the same core** gives programs with the same core. -/
theorem Expr.core_replaceAt? {e a b a' b' : Expr} {path : List Nat} (h : a.core [] = b.core [])
    (ha : e.replaceAt? path a = some a') (hb : e.replaceAt? path b = some b') :
    a'.core [] = b'.core [] := by
  induction path generalizing e a' b' with
  | nil =>
    rw [replaceAt?_nil] at ha hb
    rw [← Option.some.inj ha, ← Option.some.inj hb, h]
  | cons i path ih =>
    rw [replaceAt?_cons] at ha hb
    obtain ⟨c, hc, ha⟩ := Option.bind_eq_some_iff.1 ha
    rw [hc, Option.bind_some] at hb
    obtain ⟨ca, hca, rfl⟩ := Option.map_eq_some_iff.1 ha
    obtain ⟨cb, hcb, rfl⟩ := Option.map_eq_some_iff.1 hb
    have hlength : ∀ d, (e.children.set i d).length = e.children.length := by simp
    rw [← e.withChildren_withChildren _ _ (hlength cb) (hlength ca)]
    refine core_withChildren (fun _ _ => rfl) ?_
    rw [e.children_withChildren _ (hlength cb), List.map_set, List.map_set, ih hca hcb]

theorem Expr.replaceAt?_at? {e n : Expr} {path : List Nat} (h : e.at? path = some n) :
    e.replaceAt? path n = some e := by
  induction path generalizing e with
  | nil =>
    rw [replaceAt?_nil]
    exact h.symm
  | cons i path ih =>
    obtain ⟨c, hc, h⟩ := Option.bind_eq_some_iff.1 h
    rw [replaceAt?_cons, hc, Option.bind_some, ih h, Option.map_some]
    obtain ⟨hi, rfl⟩ := List.getElem?_eq_some_iff.1 hc
    rw [List.set_getElem_self, withChildren_children]

/-! ## Facts -/

/-- Whether both sides of a fact are readable. -/
structure Fact.Readable (f : Fact) : Prop where
  left : f.left.Readable
  right : f.right.Readable

/-- **Whether a fact holds**: in every instance and at every place of a program, the two sides make
    programs that are at most as far apart as the instance of its bound says, with the program around
    the place put first into the advantages. At the root there is nothing around. -/
def Fact.Valid (v : Valuation) (D : Distance) (f : Fact) : Prop :=
  ∀ (s : Substitution) (program : Expr) (path : List Nat) (left right context : Expr) (d : Bound),
    (∀ b ∈ s, b.1 ∈ f.vars) →
    program.replaceAt? path (f.left.substitute s) = some left →
    program.replaceAt? path (f.right.substitute s) = some right →
    program.holeAt? path = some context →
    f.distance.substitute s = .ok d →
    D.dist left right ≤ v.value (if path = [] then d else d.inContext context)

/-- The rule that a fact is for rewriting. -/
def Fact.rule (f : Fact) (inMethods : Bool) : Rule :=
  ⟨f.left, f.vars, f.right, f.distance, inMethods⟩

section
variable {v : Valuation} {D : Distance} {f : Fact} {inMethods : Bool}

/-- **One step costs what it says.** -/
theorem Fact.Valid.rewrites (hvalid : f.Valid v D) (hf : f.Readable) {t t' : Expr} {site : Site}
    (ht : t.Readable) (h : (f.rule inMethods).Rewrites t site t') :
    t'.Readable ∧ D.dist t t' ≤ v.value site.step.distance := by
  obtain ⟨node, s, d, hnode, -, hmatch, hd, ht', hroot, hinner⟩ := h
  obtain ⟨hs, hcore⟩ := Expr.core_of_matchWith hf.left (ht.at? hnode) hmatch
  refine ⟨Expr.readable_replaceAt? ht (Expr.readable_substitute (fun b hb => (hs b hb).2) hf.right)
    ht', ?_⟩
  -- the program is as good as the one with the instance of the left side
  have hsome : ∀ r, ∃ t', t.replaceAt? site.path r = some t' := by
    intro r
    rw [← Option.isSome_iff_exists, Expr.replaceAt_isSome, hnode]
    rfl
  obtain ⟨left, hleft⟩ := hsome (f.left.substitute s)
  obtain ⟨context, hcontext⟩ := hsome (.hole .nowhere)
  have hzero : D.dist t left = 0 := by
    refine D.eq_zero _ _ (Expr.structurallyEqual_of_core ?_)
    refine Expr.core_replaceAt? ?_ (Expr.replaceAt?_at? hnode) hleft
    rw [Expr.core_nil_substitute]
    exact hcore.symm
  have hle := hvalid s t site.path left t' context d (fun b hb => (hs b hb).1) hleft ht' hcontext hd
  have hstep : site.step.distance = if site.path = [] then d else d.inContext context := by
    split_ifs with hpath
    · rw [hroot hpath]
    · obtain ⟨c, hc, hstep⟩ := hinner hpath
      rw [hstep, Option.some.inj (hc.symm.trans hcontext)]
  rw [D.congr_left hzero, hstep]
  exact hle

/-- **Many steps cost the sum of what they say.** -/
theorem Fact.Valid.derives (hvalid : f.Valid v D) (hf : f.Readable) {t t' : Expr}
    {sites : List Site} (h : (f.rule inMethods).Derives t sites t') (ht : t.Readable) :
    t'.Readable ∧ D.dist t t' ≤ ((sites.map fun site => v.value site.step.distance).sum : ℚ) := by
  induction h with
  | done t => exact ⟨ht, by simp [D.self]⟩
  | @step t t₁ t' site sites hstep _ ih =>
    obtain ⟨ht₁, hle⟩ := hvalid.rewrites hf ht hstep
    obtain ⟨ht', hle'⟩ := ih ht₁
    refine ⟨ht', ?_⟩
    have htriangle := D.triangle t t₁ t'
    rw [List.map_cons, List.sum_cons, Rat.cast_add]
    linarith

/-- **Rewriting with a valid fact** costs what its log says. -/
theorem Fact.Valid.rewrite (hvalid : f.Valid v D) (hf : f.Readable) {t : Expr} (ht : t.Readable)
    {steps : List RewriteStep} (h : ((f.rule inMethods).rewrite t).2 = .ok steps) :
    ((f.rule inMethods).rewrite t).1.Readable ∧
      D.dist t ((f.rule inMethods).rewrite t).1 ≤
        ((steps.map fun step => v.value step.distance).sum : ℚ) := by
  obtain ⟨st, sites, rfl, htraversal⟩ := Rule.traversal_of_rewrite h
  rw [List.map_map]
  exact hvalid.derives hf htraversal.derives ht

end

end GameHop
