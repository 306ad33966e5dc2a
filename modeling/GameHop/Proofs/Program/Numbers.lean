import GameHop.Proofs.Program.BoundRuns
import Mathlib.Data.Real.Basic

/-!
The numbers that a comparison of bounds is about. Operands of real arithmetic are read as reals, and
operands of integer arithmetic as integers.
-/

namespace GameHop

/-- The operation on real numbers, for given quotients and powers. -/
def BoundOp.on (div pow : ℝ → ℝ → ℝ) : BoundOp → ℝ → ℝ → ℝ
  | .add, x, y => x + y
  | .sub, x, y => x - y
  | .mul, x, y => x * y
  | .div, x, y => div x y
  | .pow, x, y => pow x y

namespace Program

/-- What is neither an integer nor a real is read by different functions of its bits. -/
theorem Value.read_bits {v : Value} {t u : Term} (hinteger : v.sort ≠ .integer)
    (hreal : v.sort ≠ .real) (ht : v.read .integer = .ok t) (hu : v.read .real = .ok u) :
    ∃ b, t = .call "toInt" [b] ∧ u = .call "toReal" [b] := by
  obtain ⟨sort, x⟩ := v
  have ht' : toInteger ⟨sort, x⟩ =
      (toBitstring ⟨sort, x⟩).map fun b => .call "toInt" [b] := by
    cases sort <;> first | rfl | exact absurd rfl hinteger
  have hu' : toReal ⟨sort, x⟩ =
      (toBitstring ⟨sort, x⟩).map fun b => .call "toReal" [b] := by
    cases sort <;> first | rfl | exact absurd rfl hinteger | exact absurd rfl hreal
  rw [read, ht'] at ht
  rw [read, hu'] at hu
  cases hb : toBitstring ⟨sort, x⟩ with
  | error e => rw [hb] at ht; cases ht
  | ok b =>
    rw [hb] at ht hu
    cases ht
    cases hu
    exact ⟨b, rfl, rfl⟩

/-! ## Meanings of terms -/

/-- A meaning for the terms of bounds. Names and functions may mean anything, coercions included. But
    integers are numbers, `real` is the cast, and operations are operations on numbers. -/
structure Meaning where
  /-- What terms stand for. -/
  Datum : Type
  /-- The number that a datum is, if it is one. -/
  number : Datum → ℝ
  name : String → Datum
  int : UInt64 → Datum
  apply : String → List Datum → Datum
  arith : BoundOp → Datum → Datum → Datum
  div : ℝ → ℝ → ℝ
  pow : ℝ → ℝ → ℝ
  number_int : ∀ n, number (int n) = n.toNat
  number_real : ∀ a, number (apply "real" [a]) = number a
  number_pow : ∀ a b, number (apply "real_pow" [a, b]) = pow (number a) (number b)
  number_arith : ∀ op a b, number (arith op a b) = op.on div pow (number a) (number b)

mutual

/-- What a term stands for. Bounds have no other terms than those named here. -/
def Term.datum (M : Meaning) : Term → M.Datum
  | .name x => M.name x
  | .int n => M.int n
  | .call f args => M.apply f (Term.data M args)
  | .numeric op l r => M.arith op (l.datum M) (r.datum M)
  | t => M.name t.text

def Term.data (M : Meaning) : List Term → List M.Datum
  | [] => []
  | t :: ts => t.datum M :: Term.data M ts

end

/-- The number that a term stands for. -/
def Term.number (M : Meaning) (t : Term) : ℝ :=
  M.number (t.datum M)

theorem Term.number_operation (M : Meaning) (op : BoundOp) (l r : Term) :
    (operation op l r).number M = op.on M.div M.pow (l.number M) (r.number M) := by
  unfold operation
  split
  · rename_i hop
    subst hop
    exact M.number_pow _ _
  · exact M.number_arith _ _ _

/-- **The cast keeps numbers.** -/
theorem Term.number_real (M : Meaning) (t : Term) : (call "real" [t]).number M = t.number M :=
  M.number_real _

/-- A meaning in which bits are zero as integers and one as reals. -/
def Meaning.apart : Meaning where
  Datum := ℝ
  number := id
  name _ := 1
  int n := n.toNat
  apply f args := if f = "real" then args.headD 0 else if f = "toReal" then 1 else 0
  arith := BoundOp.on (fun _ _ => 0) fun _ _ => 0
  div _ _ := 0
  pow _ _ := 0
  number_int _ := rfl
  number_real _ := rfl
  number_pow _ _ := by simp
  number_arith _ _ _ := rfl

end Program

open Program

/-! ## Readings of bounds -/

namespace Bound

/-- Whether a bound is a name, a context or an application. -/
def isLeaf : Bound → Bool
  | .lookup .. | .call .. | .env .. => true
  | _ => false

/-- The sort of a name, a context or an application. A name that is not declared is an adversary. -/
def leafSort (scope : Scope) (functions : Functions) : Bound → TermSort
  | .lookup _ x => ((scope.typeOf? x.name).map TermSort.ofTy).getD .real
  | .call _ f _ => ((functions.get? f.name).map Function.resultSort).getD .value
  | _ => .expr

theorem leafSort_bare (scope : Scope) (functions : Functions) (b : Bound) :
    b.bare.leafSort scope functions = b.leafSort scope functions := by
  cases b <;> rfl

section
variable (sorts : Bound → TermSort)

/-- Whether a bound is a real number for the operation that it is an operand of. -/
def isReal : Bound → Bool
  | .int .. => false
  | .paren _ b => b.isReal
  | .binary _ op l r => op = .div ∨ op = .pow ∨ l.isReal ∨ r.isReal
  | b => sorts b = .real

/-- How the names, contexts and applications of a bound are read, outside arguments of functions, if
    the bound itself is read in a given way. -/
def reads : Reading → Bound → List (Reading × Bound)
  | _, .int .. => []
  | m, .paren _ b => b.reads m
  | _, .binary s op l r =>
    let m := Reading.of ((Bound.binary s op l r).isReal sorts)
    l.reads m ++ r.reads m
  | m, b => [(m, b.bare)]

/-- The number that a bound is, where names, contexts and applications are numbers that depend on how
    they are read. -/
def numberBy (M : Meaning) (leaf : Reading → Bound → ℝ) : Reading → Bound → ℝ
  | _, .int _ n => n.toNat
  | m, .paren _ b => b.numberBy M leaf m
  | _, .binary s op l r =>
    let m := Reading.of ((Bound.binary s op l r).isReal sorts)
    op.on M.div M.pow (l.numberBy M leaf m) (r.numberBy M leaf m)
  | m, b => leaf m b.bare

end

/-- The number that a bound is, where names, contexts and applications are numbers. -/
def number (M : Meaning) (leaf : Bound → ℝ) : Bound → ℝ
  | .int _ n => n.toNat
  | .paren _ b => b.number M leaf
  | .binary _ op l r => op.on M.div M.pow (l.number M leaf) (r.number M leaf)
  | b => leaf b.bare

/-- An operation on integers has no real operand. -/
theorem isReal_operands {sorts : Bound → TermSort} {s : Span} {op : BoundOp} {l r : Bound}
    (h : Reading.of ((Bound.binary s op l r).isReal sorts) = .integer) :
    l.isReal sorts = false ∧ r.isReal sorts = false := by
  cases hl : l.isReal sorts <;> cases hr : r.isReal sorts <;>
    simp [isReal, Reading.of, hl, hr] at h ⊢

/-- What is read as an integer is not real. -/
theorem sort_ne_real_of_reads {sorts : Bound → TermSort} (hbare : ∀ b, sorts b.bare = sorts b)
    {b k : Bound} {m : Reading} (hm : m = .integer → b.isReal sorts = false)
    (h : (.integer, k) ∈ b.reads sorts m) : sorts k ≠ .real := by
  induction b using Bound.inductOperands generalizing m with
  | step b ih =>
    cases b with
    | int => cases h
    | lookup | call | env =>
      obtain ⟨hm', rfl⟩ := Prod.mk.inj (List.mem_singleton.1 h)
      rw [hbare]
      simpa [isReal] using hm hm'.symm
    | paren s b => exact ih b (.head _) hm h
    | binary s op l r =>
      rcases List.mem_append.1 h with h | h
      · exact ih l (.head _) (fun h => (isReal_operands h).1) h
      · exact ih r (.tail _ (.head _)) (fun h => (isReal_operands h).2) h

theorem isLeaf_of_reads {sorts : Bound → TermSort} {b k : Bound} {m m' : Reading}
    (h : (m', k) ∈ b.reads sorts m) : k.isLeaf = true := by
  induction b using Bound.inductOperands generalizing m with
  | step b ih =>
    cases b with
    | int => cases h
    | lookup | call | env =>
      obtain ⟨-, rfl⟩ := Prod.mk.inj (List.mem_singleton.1 h)
      rfl
    | paren s b => exact ih b (.head _) h
    | binary s op l r =>
      rcases List.mem_append.1 h with h | h
      · exact ih l (.head _) h
      · exact ih r (.tail _ (.head _)) h

/-- Readings do not matter where each name, context and application has one number. -/
theorem numberBy_eq_number {sorts : Bound → TermSort} {M : Meaning} {leaf : Reading → Bound → ℝ}
    {leaf' : Bound → ℝ} {b : Bound} {m : Reading}
    (h : ∀ p ∈ b.reads sorts m, leaf p.1 p.2 = leaf' p.2) :
    b.numberBy sorts M leaf m = b.number M leaf' := by
  induction b using Bound.inductOperands generalizing m with
  | step b ih =>
    cases b with
    | int => rfl
    | lookup | call | env => exact h _ (.head _)
    | paren s b => exact ih b (.head _) h
    | binary s op l r =>
      rw [reads, List.forall_mem_append] at h
      rw [numberBy, number, ih l (.head _) h.1, ih r (.tail _ (.head _)) h.2]

/-! ## Sorts of terms -/

section
variable {env : Environment} {b : Bound} {s s₁ : BoundState} {v v' : Value}

theorem sort_of_numeric (h : numeric v = .ok v') (m : Reading) :
    v'.sort = m.sort ↔ v.sort = m.sort := by
  unfold numeric at h
  split at h
  · rename_i hsort
    obtain ⟨t, -, h⟩ := except_bind_eq_ok h
    cases h
    cases m <;> simp [hsort, Reading.sort]
  · cases h
    rfl

theorem sort_of_value_lookup {sp : Span} {x : Ident}
    (h : ((Bound.lookup sp x).value env).run s = .ok (v, s₁)) :
    v = .ofName ((Bound.lookup sp x).leafSort s.draft.scope env.functions) x.name := by
  obtain ⟨ty, s', hty, h⟩ := ok_of_bind h
  rw [BuildBound.run_typeOf?] at hty
  cases hty
  rw [leafSort]
  cases hty : s.draft.scope.typeOf? x.name with
  | some ty =>
    rw [hty] at h
    obtain ⟨rfl, -⟩ := eq_of_pure h
    rfl
  | none =>
    rw [hty] at h
    obtain ⟨_, _, -, h⟩ := ok_of_bind h
    obtain ⟨rfl, -⟩ := eq_of_pure h
    rfl

theorem sort_of_value_call {sp : Span} {f : Ident} {args : List Bound}
    (h : ((Bound.call sp f args).value env).run s = .ok (v, s₁)) :
    v.sort = (Bound.call sp f args).leafSort s.draft.scope env.functions := by
  unfold Bound.value at h
  rw [leafSort]
  split at h
  · cases h
  · rename_i decl hdecl
    split at h
    · cases h
    · obtain ⟨ts, _, -, h⟩ := ok_of_bind h
      obtain ⟨rfl, -⟩ := eq_of_pure h
      rw [hdecl]
      rfl

theorem sort_of_value_leaf (hb : b.isLeaf = true) (h : (b.value env).run s = .ok (v, s₁)) :
    v.sort = b.leafSort s.draft.scope env.functions := by
  cases b with
  | lookup sp x => rw [sort_of_value_lookup h, Value.ofName]
  | call sp f args => exact sort_of_value_call h
  | env sp cs =>
    obtain ⟨id, _, -, h⟩ := ok_of_bind h
    obtain ⟨rfl, -⟩ := eq_of_pure h
    rfl
  | _ => cases hb

/-- **The sort of the term of a bound.** -/
theorem sort_of_value (h : (b.value env).run s = .ok (v, s₁)) (hv : numeric v = .ok v') :
    v'.sort = .real ↔ b.isReal (leafSort s.draft.scope env.functions) = true := by
  refine (sort_of_numeric hv .real).trans ?_
  induction b using Bound.inductOperands generalizing s s₁ v v' with
  | step b ih =>
    cases b with
    | int =>
      obtain ⟨rfl, -⟩ := eq_of_pure h
      simp [isReal, Reading.sort]
    | lookup | call | env => simp [sort_of_value_leaf rfl h, isReal, Reading.sort]
    | paren sp b => exact ih b (.head _) h hv
    | binary sp op l r =>
      obtain ⟨a, a', c, c', s', tl, tr, ha, ha', hc, hc', -, -, rfl⟩ := ok_of_value_binary h
      have hscope := (l.settles_value env s a s' ha).1.scope
      have hl : a'.sort = .real ↔ _ := (sort_of_numeric ha' .real).trans (ih l (.head _) ha ha')
      have hr : c'.sort = .real ↔ _ :=
        (sort_of_numeric hc' .real).trans (ih r (.tail _ (.head _)) hc hc')
      rw [hscope] at hr
      simp only [isReal, Reading.of, decide_eq_true_eq, ← hl, ← hr]
      split <;> simp_all [Reading.sort]

/-- The operands of an operation are read as its sort says. -/
theorem readAs_of_value_binary {sp : Span} {op : BoundOp} {l r : Bound}
    (h : ((Bound.binary sp op l r).value env).run s = .ok (v, s₁)) :
    let m := Reading.of ((Bound.binary sp op l r).isReal (leafSort s.draft.scope env.functions))
    ∃ s' tl tr, (l.readAs env m).run s = .ok (tl, s') ∧ (r.readAs env m).run s' = .ok (tr, s₁) ∧
      v = ⟨m.sort, operation op tl tr⟩ := by
  obtain ⟨a, a', c, c', s', tl, tr, ha, ha', hc, hc', hl, hr, hv⟩ := ok_of_value_binary h
  have hscope := (l.settles_value env s a s' ha).1.scope
  have hsl := sort_of_value ha ha'
  have hsr := sort_of_value hc hc'
  rw [hscope] at hsr
  simp only [isReal, ← hsl, ← hsr]
  exact ⟨s', tl, tr, readAs_eq_ok.2 ⟨a, a', ha, ha', hl⟩, readAs_eq_ok.2 ⟨c, c', hc, hc', hr⟩, hv⟩

end

/-! ## Numbers of terms -/

/-- What a name, a context or an application is converted to by a reading. -/
def converted (env : Environment) (s : BoundState) (m : Reading) (b : Bound) : Term :=
  match (b.readAs env m).run s with
  | .ok (t, _) => t
  | .error _ => .int 0

section
variable {env : Environment} {s s₁ sF : BoundState} {t : Term}

theorem converted_of_readAs {m : Reading} {b : Bound} (h : (b.readAs env m).run s = .ok (t, s₁))
    (hF : s₁.Extends sF) :
    (b.bare.readAs env m).run sF = .ok (t, sF) ∧ b.bare.converted env sF m = t := by
  have hrun := (b.settles_readAs env m s t s₁ h).2 sF hF
  rw [← readAs_bare] at hrun
  exact ⟨hrun, by rw [converted, hrun]⟩

/-- A number is the same number, integer or real. -/
theorem number_of_read (m' : Reading) {m : Reading} {x : Term} {v : Value}
    (hv : numeric ⟨m'.sort, x⟩ = .ok v) (ht : v.read m = .ok t) (hm : m = .integer → m' = .integer)
    (M : Meaning) : t.number M = x.number M := by
  cases m' with
  | integer =>
    cases hv
    cases m with
    | integer =>
      cases ht
      rfl
    | real =>
      cases ht
      exact Term.number_real M x
  | real =>
    cases hv
    cases m with
    | integer => cases hm rfl
    | real =>
      cases ht
      rfl

/-- **A term stands for its bound.** The names, contexts and applications in it are converted alike
    wherever they are read alike. -/
theorem number_of_readAs {m : Reading} {b : Bound} (h : (b.readAs env m).run s = .ok (t, s₁))
    (hF : s₁.Extends sF)
    (hm : m = .integer → b.isReal (leafSort sF.draft.scope env.functions) = false) :
    (∀ p ∈ b.reads (leafSort sF.draft.scope env.functions) m,
      (p.2.readAs env p.1).run sF = .ok (p.2.converted env sF p.1, sF)) ∧
    ∀ M, t.number M = b.numberBy (leafSort sF.draft.scope env.functions) M
      (fun m k => (k.converted env sF m).number M) m := by
  induction b using Bound.inductOperands generalizing m s s₁ t with
  | step b ih =>
    cases b with
    | int sp n =>
      obtain ⟨v, v', hv, hnum, ht⟩ := readAs_eq_ok.1 h
      obtain ⟨rfl, -⟩ := eq_of_pure hv
      refine ⟨List.forall_mem_nil _, fun M => ?_⟩
      rw [number_of_read .integer hnum ht (fun _ => rfl) M]
      exact M.number_int n
    | lookup | call | env =>
      obtain ⟨hrun, ht⟩ := converted_of_readAs h hF
      refine ⟨?_, fun M => ?_⟩
      · rintro p (_ | ⟨_, ⟨⟩⟩)
        rw [hrun, ht]
      · exact congrArg (Term.number M) ht.symm
    | paren sp b => exact ih b (.head _) h hF hm
    | binary sp op l r =>
      have hscope := ((Bound.settles_readAs env m _ s t s₁ h).1.trans hF).scope
      obtain ⟨v, v', hv, hnum, ht⟩ := readAs_eq_ok.1 h
      obtain ⟨s', tl, tr, hl, hr, rfl⟩ := readAs_of_value_binary hv
      have hext := (r.settles_readAs env _ s' tr s₁ hr).1.trans hF
      rw [← hscope] at hl hr hnum
      obtain ⟨hreadsl, hnumberl⟩ := ih l (.head _) hl hext fun h => (isReal_operands h).1
      obtain ⟨hreadsr, hnumberr⟩ := ih r (.tail _ (.head _)) hr hF fun h => (isReal_operands h).2
      refine ⟨List.forall_mem_append.2 ⟨hreadsl, hreadsr⟩, fun M => ?_⟩
      rw [number_of_read _ hnum ht ?_ M, Term.number_operation, hnumberl, hnumberr, numberBy]
      intro hinteger
      rw [hm hinteger]
      rfl

end

section
variable {env : Environment} {s : BoundState} {k : Bound} {t u : Term}

/-- **An integer is one number**, read as an integer or as a real. -/
theorem number_eq_of_integer (hk : k.isLeaf = true)
    (hsort : k.leafSort s.draft.scope env.functions = .integer)
    (ht : (k.readAs env .integer).run s = .ok (t, s)) (hu : (k.readAs env .real).run s = .ok (u, s))
    (M : Meaning) : t.number M = u.number M := by
  obtain ⟨v, v', hv, hnum, ht⟩ := readAs_eq_ok.1 ht
  obtain ⟨w, w', hw, hnum', hu⟩ := readAs_eq_ok.1 hu
  obtain rfl : v = w := by
    rw [hv] at hw
    cases hw
    rfl
  obtain ⟨sort, x⟩ := v
  obtain rfl : sort = .integer := (sort_of_value_leaf hk hv).trans hsort
  rw [number_of_read .integer hnum ht (fun _ => rfl) M,
    number_of_read .integer hnum' hu (fun _ => rfl) M]

/-- **What is neither an integer nor a real is two numbers** in some meaning. -/
theorem number_ne_of_sort (hk : k.isLeaf = true)
    (hinteger : k.leafSort s.draft.scope env.functions ≠ .integer)
    (hreal : k.leafSort s.draft.scope env.functions ≠ .real)
    (ht : (k.readAs env .integer).run s = .ok (t, s))
    (hu : (k.readAs env .real).run s = .ok (u, s)) : t.number .apart ≠ u.number .apart := by
  obtain ⟨v, v', hv, hnum, ht⟩ := readAs_eq_ok.1 ht
  obtain ⟨w, w', hw, hnum', hu⟩ := readAs_eq_ok.1 hu
  obtain rfl : v = w := by
    rw [hv] at hw
    cases hw
    rfl
  obtain rfl : v' = w' := Except.ok.inj (hnum.symm.trans hnum')
  rw [← sort_of_value_leaf hk hv] at hinteger hreal
  obtain ⟨b, rfl, rfl⟩ := Value.read_bits ((sort_of_numeric hnum .integer).not.2 hinteger)
    ((sort_of_numeric hnum .real).not.2 hreal) ht hu
  simp [Term.number, Term.datum, Meaning.apart]

end

end Bound

namespace Program

/-! ## Comparisons -/

/-- The terms of a comparison, and how its program ends. -/
theorem ok_of_boundComparison {env : Environment} {actual required : Bound} {text : String}
    (h : boundComparison env actual required = .ok text) :
    ∃ d s₁ sF left right w, (header env).run (.start env) = .ok ((), d) ∧
      (actual.readAs env .real).run ⟨d, []⟩ = .ok (left, s₁) ∧
      (required.readAs env .real).run s₁ = .ok (right, sF) ∧
      text = (bothBounds.write ((boundProcedure "right" right).write
        ((boundProcedure "left" left).write w))).blank.text := by
  obtain ⟨⟨_, dF⟩, hrun, h⟩ := except_bind_eq_ok h
  cases h
  obtain ⟨_, d, hheader, h⟩ := ok_of_bind hrun
  obtain ⟨terms, d', hterms, h⟩ := ok_of_bind h
  obtain ⟨⟨pair, sF⟩, hboth, heq⟩ := except_bind_eq_ok hterms
  obtain ⟨left, s₁, hleft, hboth⟩ := ok_of_bind hboth
  obtain ⟨right, s₂, hright, hboth⟩ := ok_of_bind hboth
  obtain ⟨rfl, rfl⟩ := eq_of_pure hboth
  obtain ⟨rfl, rfl⟩ := Prod.mk.inj (Except.ok.inj heq)
  -- the procedures come last, whether adversaries are declared before them or not
  by_cases hnone : (!s₂.adversaries.isEmpty) = true
  · simp only [hnone, if_true] at h
    obtain ⟨_, d₁, -, h⟩ := ok_of_bind h
    cases h
    exact ⟨d, s₁, s₂, left, right, _, hheader, hleft, hright, rfl⟩
  · simp only [hnone] at h
    cases h
    exact ⟨d, s₁, s₂, left, right, _, hheader, hleft, hright, rfl⟩

/-- The bound that is a name. -/
def nameBound (x : String) : Bound :=
  .lookup .nowhere (.plain x)

/-- How the terms `left` and `right` stand for two bounds, if `convert` gives the terms that names,
    contexts and applications are converted to by readings. -/
structure StandFor (sorts : Bound → TermSort) (actual required : Bound) (left right : Term)
    (convert : Reading → Bound → Term) : Prop where
  /-- A name is converted as its sort and the reading say. -/
  name : ∀ m x, (m, nameBound x) ∈ actual.reads sorts .real ++ required.reads sorts .real →
    ∃ v, numeric (.ofName (sorts (nameBound x)) x) = .ok v ∧ v.read m = .ok (convert m (nameBound x))
  /-- The terms are the bounds, up to what is read in two ways. -/
  left_eq : ∀ M, left.number M =
    actual.numberBy sorts M (fun m k => (convert m k).number M) .real
  right_eq : ∀ M, right.number M =
    required.numberBy sorts M (fun m k => (convert m k).number M) .real
  /-- What is read in two ways is one number in every meaning iff it is an integer. -/
  one_number : ∀ k, (.integer, k) ∈ actual.reads sorts .real ++ required.reads sorts .real →
    (.real, k) ∈ actual.reads sorts .real ++ required.reads sorts .real →
    ((∀ M, (convert .integer k).number M = (convert .real k).number M) ↔ sorts k = .integer)

theorem standFor_of_readAs {env : Environment} {actual required : Bound} {left right : Term}
    {s s₁ sF : BoundState} (hleft : (actual.readAs env .real).run s = .ok (left, s₁))
    (hright : (required.readAs env .real).run s₁ = .ok (right, sF)) :
    StandFor (Bound.leafSort s.draft.scope env.functions) actual required left right
      fun m k => k.converted env sF m := by
  have hright' := (required.settles_readAs env .real s₁ right sF hright).1
  have hscope := ((actual.settles_readAs env .real s left s₁ hleft).1.trans hright').scope
  obtain ⟨hreadsl, hnumberl⟩ := Bound.number_of_readAs hleft hright' (fun h => by cases h)
  obtain ⟨hreadsr, hnumberr⟩ := Bound.number_of_readAs hright (.refl sF) (fun h => by cases h)
  have hreads := List.forall_mem_append.2 ⟨hreadsl, hreadsr⟩
  rw [← hscope]
  refine ⟨fun m x hx => ?_, hnumberl, hnumberr, fun k hinteger hreal => ?_⟩
  · obtain ⟨v, v', hv, hnum, hread⟩ := Bound.readAs_eq_ok.1 (hreads _ hx)
    rw [Bound.sort_of_value_lookup hv] at hnum
    exact ⟨v', hnum, hread⟩
  · have hk : k.isLeaf = true := by
      rcases List.mem_append.1 hinteger with h | h <;> exact Bound.isLeaf_of_reads h
    constructor
    · intro heq
      by_contra hsort
      have hsort' : k.leafSort sF.draft.scope env.functions ≠ .real := by
        rcases List.mem_append.1 hinteger with h | h <;>
          exact Bound.sort_ne_real_of_reads (Bound.leafSort_bare _ _) (fun h => by cases h) h
      exact Bound.number_ne_of_sort hk hsort hsort' (hreads _ hinteger) (hreads _ hreal) (heq _)
    · intro hsort M
      exact Bound.number_eq_of_integer hk hsort (hreads _ hinteger) (hreads _ hreal) M

/-- **Where nothing but integers is read in two ways, a bound is its term**, for some numbers that the
    names, contexts and applications are. -/
theorem StandFor.exists_numbers {sorts : Bound → TermSort} {actual required : Bound}
    {left right : Term} {convert : Reading → Bound → Term}
    (h : StandFor sorts actual required left right convert)
    (hone : ∀ k, (.integer, k) ∈ actual.reads sorts .real ++ required.reads sorts .real →
      (.real, k) ∈ actual.reads sorts .real ++ required.reads sorts .real → sorts k = .integer)
    (M : Meaning) :
    ∃ leaf, left.number M = actual.number M leaf ∧ right.number M = required.number M leaf := by
  classical
  let reads := actual.reads sorts .real ++ required.reads sorts .real
  let leaf : Bound → ℝ := fun k =>
    (convert (if (.real, k) ∈ reads then .real else .integer) k).number M
  have hleaf : ∀ p ∈ reads, (convert p.1 p.2).number M = leaf p.2 := by
    rintro ⟨m, k⟩ hp
    by_cases hreal : (.real, k) ∈ reads
    · simp only [leaf, if_pos hreal]
      cases m with
      | integer => exact (h.one_number k hp hreal).2 (hone k hp hreal) M
      | real => rfl
    · simp only [leaf, if_neg hreal]
      cases m with
      | integer => rfl
      | real => exact absurd hp hreal
  refine ⟨leaf, ?_, ?_⟩
  · rw [h.left_eq, Bound.numberBy_eq_number fun p hp => hleaf p (List.mem_append_left _ hp)]
  · rw [h.right_eq, Bound.numberBy_eq_number fun p hp => hleaf p (List.mem_append_right _ hp)]

/-- **The numbers of a comparison.** The terms in its program stand for the bounds, where names,
    contexts and applications are read as integers by operations on integers and as reals otherwise.
    If nothing but integers is read in two ways, then bounds that are equal as arithmetic have equal
    terms. Anything else that is read in two ways may be two numbers. -/
theorem boundComparison_numbers {env : Environment} {actual required : Bound} {text : String}
    (h : boundComparison env actual required = .ok text) :
    ∃ d w left right convert, (header env).run (.start env) = .ok ((), d) ∧
      text = (bothBounds.write ((boundProcedure "right" right).write
        ((boundProcedure "left" left).write w))).blank.text ∧
      let sorts := Bound.leafSort d.scope env.functions
      let reads := actual.reads sorts .real ++ required.reads sorts .real
      StandFor sorts actual required left right convert ∧
      ((∀ k, (.integer, k) ∈ reads → (.real, k) ∈ reads → sorts k = .integer) →
        ∀ M : Meaning, (∀ leaf, actual.number M leaf = required.number M leaf) →
          left.number M = right.number M) := by
  obtain ⟨d, s₁, sF, left, right, w, hheader, hleft, hright, htext⟩ := ok_of_boundComparison h
  have hstand := standFor_of_readAs hleft hright
  refine ⟨d, w, left, right, _, hheader, htext, hstand, fun hone M heq => ?_⟩
  obtain ⟨leaf, hl, hr⟩ := hstand.exists_numbers hone M
  rw [hl, hr, heq]

/-- An environment in which a constant holds bits. -/
def constantBits (x : String) : Environment :=
  ⟨⟨[⟨.constant, [(x, .bits)]⟩]⟩, .empty, [], [], .detached ""⟩

theorem boundComparison_numbers_product :
    let l : Bound := .binary .nowhere .mul (nameBound "n") (nameBound "adv")
    let r : Bound := .binary .nowhere .mul (nameBound "adv") (nameBound "n")
    ∃ text w left right, boundComparison (constantBits "n") l r = .ok text ∧
      text = (bothBounds.write ((boundProcedure "right" right).write
        ((boundProcedure "left" left).write w))).blank.text ∧
      ∀ M : Meaning, left.number M = right.number M := by
  intro l r
  obtain ⟨text, hrun⟩ : ∃ text, boundComparison (constantBits "n") l r = .ok text := ⟨_, rfl⟩
  obtain ⟨d, w, left, right, convert, hheader, htext, -, heq⟩ := boundComparison_numbers hrun
  refine ⟨text, w, left, right, hrun, htext, fun M => heq ?_ M fun leaf => mul_comm _ _⟩
  cases hheader
  have hreads : ∀ p ∈ l.reads (Bound.leafSort (constantBits "n").scope .empty) .real ++
      r.reads (Bound.leafSort (constantBits "n").scope .empty) .real, p.1 = .real := by decide
  intro k hk
  cases hreads _ hk

/-- Bounds may be equal as arithmetic when their terms are not. The subtraction is on integers and
    reads `n` as one, and the product by an adversary reads it as a real. -/
theorem boundComparison_two_numbers :
    let l : Bound := .binary .nowhere .mul
      (.paren .nowhere (.binary .nowhere .sub (nameBound "n") (.int .nowhere 0))) (nameBound "adv")
    let r : Bound := .binary .nowhere .mul (nameBound "n") (nameBound "adv")
    let left : Term := .numeric .mul
      (.call "real" [.numeric .sub (.call "toInt" [.name "n"]) (.int 0)]) (.name "adv")
    let right : Term := .numeric .mul (.call "toReal" [.name "n"]) (.name "adv")
    (∀ (M : Meaning) leaf, l.number M leaf = r.number M leaf) ∧
      (∃ w, boundComparison (constantBits "n") l r =
        .ok (bothBounds.write ((boundProcedure "right" right).write
          ((boundProcedure "left" left).write w))).blank.text) ∧
      ∃ M : Meaning, left.number M ≠ right.number M := by
  intro l r left right
  refine ⟨fun M leaf => ?_, ?_, .apart, ?_⟩
  · simp [l, r, Bound.number, BoundOp.on]
  · obtain ⟨text, hrun⟩ : ∃ text, boundComparison (constantBits "n") l r = .ok text := ⟨_, rfl⟩
    obtain ⟨d, s₁, sF, _, _, w, hheader, hleft, hright, rfl⟩ := ok_of_boundComparison hrun
    cases hheader
    cases hleft
    cases hright
    exact ⟨w, hrun⟩
  · simp [left, right, Term.number, Term.datum, Term.data, Meaning.apart, BoundOp.on]

end Program

end GameHop
