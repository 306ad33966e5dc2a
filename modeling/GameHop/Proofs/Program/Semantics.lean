import GameHop.Program.Code
import Mathlib.Logic.Function.Basic

/-!
What terms and statements mean, as far as they are scalar: they read and assign variables that hold
values, and they coerce between values, bit strings, integers and truth values.
-/

namespace GameHop.Program

/-! ## Meanings of the prelude -/

/-- A meaning for the scalar part of the prelude. The laws are its axioms, and the rule that division
    is Euclidean unless the divisor is zero. -/
structure Interpretation where
  /-- The sort `T`. -/
  Val : Type
  /-- The sort `Bitstring`. -/
  Bits : Type
  [valEq : DecidableEq Val]
  [bitsEq : DecidableEq Bits]
  toBits : Val → Bits
  ofBits : Bits → Val
  nil : Bits
  toInt : Bits → Int
  ofInt : Int → Bits
  ofBool : Bool → Bits
  div : Int → Int → Int
  mod : Int → Int → Int
  toBits_ofBits : ∀ b, toBits (ofBits b) = b
  toInt_ofInt : ∀ n, toInt (ofInt n) = n
  toInt_injective : Function.Injective toInt
  ofInt_zero : ofInt 0 = nil
  ofInt_ne_nil : ∀ n, n ≠ 0 → ofInt n ≠ nil
  ofBool_false : ofBool false = nil
  ofBool_true : ofBool true ≠ nil
  div_of_ne_zero : ∀ m n, n ≠ 0 → div m n = m / n
  mod_of_ne_zero : ∀ m n, n ≠ 0 → mod m n = m % n

namespace Interpretation

attribute [instance] valEq bitsEq
attribute [simp] toBits_ofBits toInt_ofInt

/-- Values and bit strings are integers. -/
@[reducible] def integers : Interpretation where
  Val := Int
  Bits := Int
  toBits := id
  ofBits := id
  nil := 0
  toInt := id
  ofInt := id
  ofBool b := if b then 1 else 0
  div := (· / ·)
  mod := (· % ·)
  toBits_ofBits _ := rfl
  toInt_ofInt _ := rfl
  toInt_injective := Function.injective_id
  ofInt_zero := rfl
  ofInt_ne_nil _ h := h
  ofBool_false := rfl
  ofBool_true := by decide
  div_of_ne_zero _ _ _ := rfl
  mod_of_ne_zero _ _ _ := rfl

variable (I : Interpretation)

/-- The integer that a value stands for. -/
def int (v : I.Val) : Int :=
  I.toInt (I.toBits v)

/-- Whether a value counts as true. -/
def truth (v : I.Val) : Bool :=
  I.toBits v ≠ I.nil

/-- The value of an integer. -/
def ofInteger (n : Int) : I.Val :=
  I.ofBits (I.ofInt n)

/-- The value of a truth value. -/
def ofTruth (b : Bool) : I.Val :=
  I.ofBits (I.ofBool b)

@[simp] theorem int_ofInteger (n : Int) : I.int (I.ofInteger n) = n := by
  simp [int, ofInteger]

@[simp] theorem truth_ofTruth (b : Bool) : I.truth (I.ofTruth b) = b := by
  cases b
  · simp [truth, ofTruth, I.ofBool_false]
  · simp [truth, ofTruth, I.ofBool_true]

theorem int_eq_int {v w : I.Val} : I.int v = I.int w ↔ I.toBits v = I.toBits w :=
  I.toInt_injective.eq_iff

/-- Arithmetic on integers. -/
def arith : ArithOp → Int → Int → Int
  | .add, m, n => m + n
  | .sub, m, n => m - n
  | .mul, m, n => m * n
  | .div, m, n => I.div m n
  | .mod, m, n => I.mod m n

/-- Comparisons of values: values are equal if their bits are, and they are ordered as integers. -/
def compare : CmpOp → I.Val → I.Val → Bool
  | .eq, v, w => I.toBits v = I.toBits w
  | .ne, v, w => I.toBits v ≠ I.toBits w
  | .lt, v, w => I.int v < I.int w
  | .le, v, w => I.int v ≤ I.int w
  | .gt, v, w => I.int w < I.int v
  | .ge, v, w => I.int w ≤ I.int v
  | .same, v, w => v = w

end Interpretation

/-! ## Terms -/

/-- What a scalar term may stand for. -/
inductive Datum (I : Interpretation) where
  | value (v : I.Val)
  | bits (b : I.Bits)
  | int (n : Int)
  | bool (b : Bool)

namespace Datum

variable {I : Interpretation}

def sort : Datum I → TermSort
  | value _ => .value
  | bits _ => .bitstring
  | int _ => .integer
  | bool _ => .boolean

/-- The datum as a value. -/
def toVal : Datum I → I.Val
  | value v => v
  | bits b => I.ofBits b
  | int n => I.ofInteger n
  | bool b => I.ofTruth b

/-- The coercions of the prelude. -/
def coerced : String → Datum I → Option (Datum I)
  | "toBitstring", value v => some (bits (I.toBits v))
  | "fromBitstring", bits b => some (value (I.ofBits b))
  | "toInt", bits b => some (int (I.toInt b))
  | "fromInt", int n => some (bits (I.ofInt n))
  | "fromBool", bool b => some (bits (I.ofBool b))
  | _, _ => none

/-- Equality and its negation. -/
def equality {α : Type} [DecidableEq α] : CmpOp → α → α → Option Bool
  | .eq, a, b | .same, a, b => some (a = b)
  | .ne, a, b => some (a ≠ b)
  | _, _, _ => none

/-- Comparisons of data of one sort. -/
def compared (op : CmpOp) : Datum I → Datum I → Option Bool
  | value v, value w => equality op v w
  | bits a, bits b => equality op a b
  | int m, int n => match op with
    | .lt => some (m < n)
    | .le => some (m ≤ n)
    | .gt => some (n < m)
    | .ge => some (n ≤ m)
    | op => equality op m n
  | _, _ => none

end Datum

/-- The values of variables. -/
abbrev Store (I : Interpretation) :=
  String → I.Val

section
variable (I : Interpretation)

/-- What a scalar term stands for. -/
def Term.eval (σ : Store I) : Term → Option (Datum I)
  | .name x => some (.value (σ x))
  | .int n => some (.int n.toNat)
  | .bool b => some (.bool b)
  | .call f [t] => (t.eval σ).bind (Datum.coerced f)
  | .nonNil t => (t.eval σ).bind fun
    | .bits b => some (.bool (b ≠ I.nil))
    | _ => none
  | .not t => (t.eval σ).bind fun
    | .bool b => some (.bool !b)
    | _ => none
  | .arith op a b => (a.eval σ).bind fun
    | .int m => (b.eval σ).bind fun
      | .int n => some (.int (I.arith op m n))
      | _ => none
    | _ => none
  | .binary (.compare op) a b =>
    (a.eval σ).bind fun x => (b.eval σ).bind fun y => (Datum.compared op x y).map .bool
  | _ => none

/-! ## Statements -/

/-- The store after an assignment of a value. -/
def Store.assign (σ : Store I) (x : String) (t : Term) : Option (Store I) :=
  (t.eval I σ).bind fun
    | .value v => some (Function.update σ x v)
    | _ => none

mutual

/-- The store after a scalar statement. -/
def Stmt.exec : Stmt → Store I → Option (Store I)
  | .assign (.name x) t, σ | .set (.name x) t, σ => Store.assign I σ x t
  | .ifThen c body, σ => (c.eval I σ).bind fun
    | .bool true => Stmt.execList body σ
    | .bool false => some σ
    | _ => none
  | .ifElse c yes no, σ => (c.eval I σ).bind fun
    | .bool true => Stmt.execList yes σ
    | .bool false => Stmt.execList no σ
    | _ => none
  | _, _ => none

def Stmt.execList : List Stmt → Store I → Option (Store I)
  | [], σ => some σ
  | s :: ss, σ => (s.exec σ).bind (Stmt.execList ss)

end

end

namespace Stmt

variable {I : Interpretation} {σ τ : Store I}

theorem execList_append (ss ts : List Stmt) (σ : Store I) :
    execList I (ss ++ ts) σ = (execList I ss σ).bind (execList I ts) := by
  induction ss generalizing σ with
  | nil => rfl
  | cons s ss ih =>
    simp only [List.cons_append, execList, Option.bind_assoc]
    exact congrArg _ (funext ih)

theorem execList_append_of_eq {ss ts : List Stmt} (h : execList I ss σ = some τ) :
    execList I (ss ++ ts) σ = execList I ts τ := by
  rw [execList_append, h]
  rfl

theorem execList_singleton (s : Stmt) (σ : Store I) : execList I [s] σ = s.exec I σ := by
  simp [execList]

theorem exec_assign {x : String} {t : Term} {v : I.Val} (h : t.eval I σ = some (.value v)) :
    (Stmt.assign (.name x) t).exec I σ = some (Function.update σ x v) := by
  simp [exec, Store.assign, h]

theorem exec_keep {x : String} {t : Term} {v : I.Val} (h : t.eval I σ = some (.value v)) :
    (Stmt.keep x t).exec I σ = some (Function.update σ x v) := by
  simp [keep, exec, Store.assign, h]

theorem exec_ifThen {c : Term} {b : Bool} (h : c.eval I σ = some (.bool b)) (body : List Stmt) :
    (Stmt.ifThen c body).exec I σ = if b then execList I body σ else some σ := by
  cases b <;> simp [exec, h]

theorem exec_ifElse {c : Term} {b : Bool} (h : c.eval I σ = some (.bool b)) (yes no : List Stmt) :
    (Stmt.ifElse c yes no).exec I σ = execList I (if b then yes else no) σ := by
  cases b <;> simp [exec, h]

end Stmt

/-! ## Coercions -/

namespace Value

attribute [local simp] Term.eval Datum.coerced Datum.toVal

/-- Whether the value can be read as a datum. -/
def IsScalar (v : Value) : Prop :=
  v.sort = .value ∨ v.sort = .bitstring ∨ v.sort = .integer ∨ v.sort = .boolean

/-- Whether the term stands for a datum of the sort that is the value `x`. -/
def Denotes {I : Interpretation} (v : Value) (σ : Store I) (x : I.Val) : Prop :=
  ∃ d, v.term.eval I σ = some d ∧ d.sort = v.sort ∧ d.toVal = x

/-- Whether a term stands for `read x` wherever the value is `x`. -/
def ReadBy (v : Value) (t : Term) (read : ∀ I : Interpretation, I.Val → Datum I) : Prop :=
  ∀ (I : Interpretation) (σ : Store I) x, v.Denotes σ x → t.eval I σ = some (read I x)

/-- Whether a coercion succeeds, with a term that reads the value. -/
def Reads (v : Value) (coercion : Coercion) (read : ∀ I : Interpretation, I.Val → Datum I) : Prop :=
  ∃ t, coercion = .ok t ∧ v.ReadBy t read

variable {v w : Value}

theorem reads_toBitstring (hv : v.IsScalar) :
    v.Reads v.toBitstring fun I x => .bits (I.toBits x) := by
  obtain ⟨sort, t⟩ := v
  rcases hv with hv | hv | hv | hv <;> cases hv
  all_goals
    refine ⟨_, rfl, ?_⟩
    rintro I σ x ⟨d, hd, hsort, rfl⟩
    cases d <;> cases hsort
  · simp [hd]
  · simp [hd]
  · simp [hd, Interpretation.ofInteger]
  · simp [hd, Interpretation.ofTruth]

theorem reads_toInteger (hv : v.IsScalar) : v.Reads v.toInteger fun I x => .int (I.int x) := by
  by_cases hsort : v.sort = .integer
  · refine ⟨v.term, by rw [toInteger, hsort], ?_⟩
    rintro I σ x ⟨d, hd, hd', rfl⟩
    rw [hsort] at hd'
    cases d <;> cases hd'
    simp [hd]
  · obtain ⟨t, ht, hread⟩ := reads_toBitstring hv
    refine ⟨.call "toInt" [t], ?_, ?_⟩
    · obtain ⟨sort, u⟩ := v
      rcases hv with hv | hv | hv | hv <;> cases hv <;> first | exact absurd rfl hsort | skip
      all_goals
        simp only [toInteger, ht]
        rfl
    · intro I σ x hx
      simp [hread I σ x hx, Interpretation.int]

theorem reads_toBoolean (hv : v.IsScalar) : v.Reads v.toBoolean fun I x => .bool (I.truth x) := by
  by_cases hsort : v.sort = .boolean
  · refine ⟨v.term, by rw [toBoolean, hsort], ?_⟩
    rintro I σ x ⟨d, hd, hd', rfl⟩
    rw [hsort] at hd'
    cases d <;> cases hd'
    simp [hd]
  · obtain ⟨t, ht, hread⟩ := reads_toBitstring hv
    refine ⟨.nonNil t, ?_, ?_⟩
    · obtain ⟨sort, u⟩ := v
      rcases hv with hv | hv | hv | hv <;> cases hv <;> first | exact absurd rfl hsort | skip
      all_goals
        simp only [toBoolean, ht]
        rfl
    · intro I σ x hx
      simp [hread I σ x hx, Interpretation.truth]

theorem reads_toValue (hv : v.IsScalar) : v.Reads v.toValue fun _ x => .value x := by
  obtain ⟨t, ht, hread⟩ := reads_toBitstring hv
  obtain ⟨sort, u⟩ := v
  rcases hv with hv | hv | hv | hv <;> cases hv
  · refine ⟨u, rfl, ?_⟩
    rintro I σ x ⟨d, hd, hsort, rfl⟩
    cases d <;> cases hsort
    exact hd
  all_goals
    refine ⟨.call "fromBitstring" [t], by simp only [toValue, ht]; rfl, ?_⟩
    intro I σ x hx
    have ht := hread I σ x hx
    obtain ⟨d, -, hsort, rfl⟩ := hx
    cases d <;> cases hsort
    simp [ht, Interpretation.ofInteger, Interpretation.ofTruth]

theorem coerce_value (v : Value) : v.coerce .value = v.toValue := by
  obtain ⟨sort, t⟩ := v
  cases sort <;> rfl

theorem coerce_integer (v : Value) : v.coerce .integer = v.toInteger := by
  obtain ⟨sort, t⟩ := v
  cases sort <;> rfl

theorem coerce_bitstring (v : Value) : v.coerce .bitstring = v.toBitstring := by
  obtain ⟨sort, t⟩ := v
  cases sort <;> rfl

/-- Whether two terms can be coerced to a sort at which they compare as their values do. -/
def Compares (op : CmpOp) (v w : Value) (sort : TermSort) : Prop :=
  ∃ l r, v.coerce sort = .ok l ∧ w.coerce sort = .ok r ∧
    ∀ (I : Interpretation) (σ : Store I) x y, v.Denotes σ x → w.Denotes σ y →
      (Term.binary (.compare op) l r).eval I σ = some (.bool (I.compare op x y))

theorem compares_value (hv : v.IsScalar) (hw : w.IsScalar) : Compares .same v w .value := by
  rw [Compares, coerce_value, coerce_value]
  obtain ⟨l, hl, hreadl⟩ := reads_toValue hv
  obtain ⟨r, hr, hreadr⟩ := reads_toValue hw
  refine ⟨l, r, hl, hr, fun I σ x y hx hy => ?_⟩
  simp [hreadl I σ x hx, hreadr I σ y hy, Datum.compared, Datum.equality, Interpretation.compare]

theorem compares_bitstring {op : CmpOp} (hop : op = .eq ∨ op = .ne) (hv : v.IsScalar)
    (hw : w.IsScalar) : Compares op v w .bitstring := by
  rw [Compares, coerce_bitstring, coerce_bitstring]
  obtain ⟨l, hl, hreadl⟩ := reads_toBitstring hv
  obtain ⟨r, hr, hreadr⟩ := reads_toBitstring hw
  refine ⟨l, r, hl, hr, fun I σ x y hx hy => ?_⟩
  rcases hop with rfl | rfl <;>
    simp [hreadl I σ x hx, hreadr I σ y hy, Datum.compared, Datum.equality, Interpretation.compare]

/-- Different bit strings are different integers, so that equality may be decided on integers. -/
theorem compares_integer {op : CmpOp} (hop : op ≠ .same) (hv : v.IsScalar) (hw : w.IsScalar) :
    Compares op v w .integer := by
  rw [Compares, coerce_integer, coerce_integer]
  obtain ⟨l, hl, hreadl⟩ := reads_toInteger hv
  obtain ⟨r, hr, hreadr⟩ := reads_toInteger hw
  refine ⟨l, r, hl, hr, fun I σ x y hx hy => ?_⟩
  cases op <;> simp [hreadl I σ x hx, hreadr I σ y hy, Datum.compared, Datum.equality,
    Interpretation.compare, I.int_eq_int] at hop ⊢

theorem IsScalar.sort_ne_real (hv : v.IsScalar) : v.sort ≠ .real := by
  rcases hv with hv | hv | hv | hv <;> rw [hv] <;> decide

/-- Scalar terms compare as their values do at the sort that the comparison chooses. -/
theorem compares_comparisonSort (op : CmpOp) (hv : v.IsScalar) (hw : w.IsScalar) :
    Compares op v w (comparisonSort op v.sort w.sort) := by
  have hreal : ¬ (v.sort = .real ∨ w.sort = .real) := not_or.2 ⟨hv.sort_ne_real, hw.sort_ne_real⟩
  cases op with
  | same => exact compares_value hv hw
  | eq | ne =>
    simp only [comparisonSort]
    split
    · exact compares_integer (by decide) hv hw
    · exact compares_bitstring (by decide) hv hw
  | lt | le | gt | ge =>
    simp only [comparisonSort, if_neg hreal]
    exact compares_integer (by decide) hv hw

end Value

end GameHop.Program
