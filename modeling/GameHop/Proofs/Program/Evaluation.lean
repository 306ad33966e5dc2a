import GameHop.Proofs.Program.Semantics

/-!
Scalar expressions, evaluated from left to right (`Expr.eval`) and as code evaluates them
(`Expr.late`).
-/

namespace GameHop

open Program

/-- Scalar expressions: literals, variables, assignments, branches and operators. -/
inductive Expr.Scalar : Expr → Prop where
  | int (s : Span) (n : UInt64) : Scalar (.int s n)
  | bool (s : Span) (b : Bool) : Scalar (.bool s b)
  | lookup (s : Span) (x : Ident) : Scalar (.lookup s x)
  | paren (s : Span) {e : Expr} : e.Scalar → Scalar (.paren s none e)
  | seq (s : Span) {a b : Expr} : a.Scalar → b.Scalar → Scalar (.seq s a b)
  | assign (s : Span) (x : Ident) {e : Expr} : e.Scalar → Scalar (.assign s x e)
  | ternary (s : Span) {c a b : Expr} :
    c.Scalar → a.Scalar → b.Scalar → Scalar (.ternary s c a b)
  | not (s : Span) {e : Expr} : e.Scalar → Scalar (.unary s .not e)
  | binary (s : Span) (op : BinaryOp) {a b : Expr} :
    a.Scalar → b.Scalar → Scalar (.binary s op a b)

/-! ## Two ways to evaluate -/

/-- Whether the right operand is evaluated after a left operand of the given value. -/
def Program.Interpretation.goesOn (I : Interpretation) : LogicOp → I.Val → Bool
  | .and, v => I.truth v
  | .or, v => !I.truth v

section
variable (I : Interpretation)

/-- The value of a scalar expression and the store after it. Operands are evaluated from left to
    right, and have the values that they have when they are reached. -/
def Expr.eval : Expr → Store I → Option (I.Val × Store I)
  | .int _ n, σ => some (I.ofInteger n.toNat, σ)
  | .bool _ b, σ => some (I.ofTruth b, σ)
  | .lookup _ x, σ => some (σ x.name, σ)
  | .paren _ none e, σ => e.eval σ
  | .seq _ a b, σ => do
    let (_, σ) ← a.eval σ
    b.eval σ
  | .assign _ x e, σ => do
    let (v, σ) ← e.eval σ
    return (v, Function.update σ x.name v)
  | .ternary _ c a b, σ => do
    let (v, σ) ← c.eval σ
    if I.truth v then a.eval σ else b.eval σ
  | .unary _ .not e, σ => do
    let (v, σ) ← e.eval σ
    return (I.ofTruth !I.truth v, σ)
  | .binary _ (.logic op) a b, σ => do
    let (v, σ) ← a.eval σ
    if I.goesOn op v then b.eval σ else return (v, σ)
  | .binary _ (.compare op) a b, σ => do
    let (v, σ) ← a.eval σ
    let (w, σ) ← b.eval σ
    return (I.ofTruth (I.compare op v w), σ)
  | .binary _ (.arith op) a b, σ => do
    let (v, σ) ← a.eval σ
    let (w, σ) ← b.eval σ
    return (I.ofInteger (I.arith op (I.int v) (I.int w)), σ)
  | _, _ => none

/-- A value that is still to be read from a store. -/
abbrev Program.Pending :=
  Store I → I.Val

/-- The store after a scalar expression and the value that is then read, if variables are read as
    late as possible. A branch reads the value that it ends with, and an assignment the value that it
    stores; but the value of an assignment is read once more. -/
def Expr.late : Expr → Store I → Option (Pending I × Store I)
  | .int _ n, σ => some (fun _ => I.ofInteger n.toNat, σ)
  | .bool _ b, σ => some (fun _ => I.ofTruth b, σ)
  | .lookup _ x, σ => some (fun τ => τ x.name, σ)
  | .paren _ none e, σ => e.late σ
  | .seq _ a b, σ => do
    let (_, σ) ← a.late σ
    b.late σ
  | .assign _ x e, σ => do
    let (f, σ) ← e.late σ
    return (f, Function.update σ x.name (f σ))
  | .ternary _ c a b, σ => do
    let (f, σ) ← c.late σ
    let (g, σ) ← if I.truth (f σ) then a.late σ else b.late σ
    return (fun _ => g σ, σ)
  | .unary _ .not e, σ => do
    let (f, σ) ← e.late σ
    return (fun τ => I.ofTruth !I.truth (f τ), σ)
  | .binary _ (.logic op) a b, σ => do
    let (f, σ) ← a.late σ
    let (g, σ) ← if I.goesOn op (f σ) then b.late σ else pure (f, σ)
    return (fun _ => g σ, σ)
  | .binary _ (.compare op) a b, σ => do
    let (f, σ) ← a.late σ
    let (g, σ) ← b.late σ
    return (fun τ => I.ofTruth (I.compare op (f τ) (g τ)), σ)
  | .binary _ (.arith op) a b, σ => do
    let (f, σ) ← a.late σ
    let (g, σ) ← b.late σ
    return (fun τ => I.ofInteger (I.arith op (I.int (f τ)) (I.int (g τ))), σ)
  | _, _ => none

end

/-! ## When both agree -/

/-- The variables that the value of a scalar expression is read from. -/
def Expr.pending : Expr → List String
  | .lookup _ x => [x.name]
  | .paren _ _ e => e.pending
  | .seq _ _ b => b.pending
  | .assign _ _ e => e.pending
  | .unary _ _ e => e.pending
  | .binary _ (.compare _) a b => a.pending ++ b.pending
  | .binary _ (.arith _) a b => a.pending ++ b.pending
  | _ => []

/-- Whether no variable is assigned while a value that is used is still to be read from it: an
    operand on the right assigns no variable that the one on the left is read from, and no variable
    is assigned a value that is read from it, unless the value of the assignment is not `used`. -/
def Expr.InOrder (used : Bool) : Expr → Prop
  | .paren _ _ e => e.InOrder used
  | .seq _ a b => a.InOrder false ∧ b.InOrder used
  | .assign _ x e => e.InOrder true ∧ (used = true → x.name ∉ e.pending)
  | .ternary _ c a b => c.InOrder true ∧ a.InOrder used ∧ b.InOrder used
  | .unary _ _ e => e.InOrder used
  | .binary _ (.logic _) a b => a.InOrder true ∧ b.InOrder used
  | .binary _ (.compare _) a b =>
    a.InOrder used ∧ b.InOrder used ∧ (used = true → ∀ x ∈ a.pending, x ∉ b.assigned)
  | .binary _ (.arith _) a b =>
    a.InOrder used ∧ b.InOrder used ∧ (used = true → ∀ x ∈ a.pending, x ∉ b.assigned)
  | _ => True

section
variable {I : Interpretation}

/-- Whether both ways to evaluate end in the store `σ'`, which differs from `σ` only in variables that
    the expression assigns, and whether a value that is `used` may be read while the variables that
    it is read from are unchanged. -/
structure Expr.Alike (e : Expr) (used : Bool) (σ : Store I) (v : I.Val) (f : Pending I)
    (σ' : Store I) : Prop where
  eval : e.eval I σ = some (v, σ')
  late : e.late I σ = some (f, σ')
  frame : ∀ x ∉ e.assigned, σ' x = σ x
  value : used = true → ∀ τ, (∀ x ∈ e.pending, τ x = σ' x) → f τ = v

/-- A value that is read at once is the right one. -/
theorem Expr.Alike.read {e : Expr} {used : Bool} {σ σ' : Store I} {v : I.Val} {f : Pending I}
    (h : e.Alike used σ v f σ') (hused : used = true) : f σ' = v :=
  h.value hused σ' fun _ _ => rfl

section
variable {a b : Expr} {ua ub : Bool} {σ σ₁ σ₂ : Store I} {v w : I.Val} {f g : Pending I}

theorem Expr.Alike.frame_append (ha : a.Alike ua σ v f σ₁) (hb : b.Alike ub σ₁ w g σ₂) :
    ∀ x ∉ a.assigned ++ b.assigned, σ₂ x = σ x := by
  intro x hx
  rw [List.mem_append, not_or] at hx
  rw [hb.frame x hx.2, ha.frame x hx.1]

/-- What two operands leave to be read is still there after both, if the one on the right keeps
    what the one on the left is read from. -/
theorem Expr.Alike.value_append {used : Bool} (ha : a.Alike used σ v f σ₁)
    (hb : b.Alike used σ₁ w g σ₂) (hab : used = true → ∀ x ∈ a.pending, x ∉ b.assigned)
    (k : I.Val → I.Val → I.Val) (hused : used = true) (τ : Store I)
    (hτ : ∀ x ∈ a.pending ++ b.pending, τ x = σ₂ x) : k (f τ) (g τ) = k v w := by
  rw [List.forall_mem_append] at hτ
  have hf : f τ = v := by
    refine ha.value hused τ fun x hx => ?_
    rw [hτ.1 x hx, hb.frame x (hab hused x hx)]
  rw [hf, hb.value hused τ hτ.2]

end

/-- **Nothing is read too late in an expression that is in order.** -/
theorem Expr.late_eq_eval {e : Expr} (he : e.Scalar) {used : Bool} (h : e.InOrder used)
    (σ : Store I) : ∃ v f σ', e.Alike used σ v f σ' := by
  induction he generalizing used σ with
  | int s n => exact ⟨_, _, _, rfl, rfl, fun _ _ => rfl, fun _ _ _ => rfl⟩
  | bool s b => exact ⟨_, _, _, rfl, rfl, fun _ _ => rfl, fun _ _ _ => rfl⟩
  | lookup s x =>
    refine ⟨_, _, _, rfl, rfl, fun _ _ => rfl, fun _ τ hτ => ?_⟩
    exact hτ x.name (List.mem_singleton_self _)
  | paren s _ ih =>
    obtain ⟨v, f, σ', h⟩ := ih h σ
    exact ⟨v, f, σ', h.eval, h.late, h.frame, h.value⟩
  | seq s _ _ iha ihb =>
    obtain ⟨v, f, σ₁, ha⟩ := iha h.1 σ
    obtain ⟨w, g, σ₂, hb⟩ := ihb h.2 σ₁
    refine ⟨w, g, σ₂, ?_, ?_, ha.frame_append hb, hb.value⟩
    · simp [eval, ha.eval, hb.eval]
    · simp [late, ha.late, hb.late]
  | assign s y _ ih =>
    obtain ⟨v, f, σ₁, he⟩ := ih h.1 σ
    refine ⟨v, f, Function.update σ₁ y.name v, ?_, ?_, fun x hx => ?_, fun hused τ hτ => ?_⟩
    · simp [eval, he.eval]
    · simp [late, he.late, he.read rfl]
    · rw [assigned, List.mem_append, not_or, List.mem_singleton] at hx
      rw [Function.update_of_ne hx.2, he.frame x hx.1]
    · refine he.value rfl τ fun x hx => ?_
      rw [hτ x hx, Function.update_of_ne]
      rintro rfl
      exact h.2 hused hx
  | ternary s _ _ _ ihc iha ihb =>
    obtain ⟨v, f, σ₁, hc⟩ := ihc h.1 σ
    cases htest : I.truth v with
    | true =>
      obtain ⟨w, g, σ₂, ha⟩ := iha h.2.1 σ₁
      refine ⟨w, fun _ => g σ₂, σ₂, ?_, ?_, fun x hx => ?_, fun hused _ _ => ha.read hused⟩
      · simp [eval, hc.eval, htest, ha.eval]
      · simp [late, hc.late, hc.read rfl, htest, ha.late]
      · exact hc.frame_append ha x fun hx' => hx (List.mem_append_left _ hx')
    | false =>
      obtain ⟨w, g, σ₂, hb⟩ := ihb h.2.2 σ₁
      refine ⟨w, fun _ => g σ₂, σ₂, ?_, ?_, fun x hx => ?_, fun hused _ _ => hb.read hused⟩
      · simp [eval, hc.eval, htest, hb.eval]
      · simp [late, hc.late, hc.read rfl, htest, hb.late]
      · refine hc.frame_append hb x fun hx' => hx ?_
        rw [assigned, List.append_assoc]
        exact List.append_subset.2 ⟨List.subset_append_left _ _,
          List.Subset.trans (List.subset_append_right _ _) (List.subset_append_right _ _)⟩ hx'
  | not s _ ih =>
    obtain ⟨v, f, σ', he⟩ := ih h σ
    refine ⟨I.ofTruth !I.truth v, fun τ => I.ofTruth !I.truth (f τ), σ', ?_, ?_, he.frame, ?_⟩
    · simp [eval, he.eval]
    · simp [late, he.late]
    · intro hused τ hτ
      rw [he.value hused τ hτ]
  | binary s op _ _ iha ihb =>
    cases op with
    | logic op =>
      obtain ⟨v, f, σ₁, ha⟩ := iha h.1 σ
      cases htest : I.goesOn op v with
      | true =>
        obtain ⟨w, g, σ₂, hb⟩ := ihb h.2 σ₁
        refine ⟨w, fun _ => g σ₂, σ₂, ?_, ?_, ha.frame_append hb, fun hused _ _ => hb.read hused⟩
        · simp [eval, ha.eval, htest, hb.eval]
        · simp [late, ha.late, ha.read rfl, htest, hb.late]
      | false =>
        refine ⟨v, fun _ => v, σ₁, ?_, ?_, fun x hx => ?_, fun _ _ _ => rfl⟩
        · simp [eval, ha.eval, htest]
        · simp [late, ha.late, ha.read rfl, htest]
        · exact ha.frame x fun hx' => hx (List.mem_append_left _ hx')
    | compare op =>
      obtain ⟨v, f, σ₁, ha⟩ := iha h.1 σ
      obtain ⟨w, g, σ₂, hb⟩ := ihb h.2.1 σ₁
      refine ⟨_, _, σ₂, ?_, ?_, ha.frame_append hb,
        ha.value_append hb h.2.2 fun v w => I.ofTruth (I.compare op v w)⟩
      · simp [eval, ha.eval, hb.eval]
      · simp [late, ha.late, hb.late]
    | arith op =>
      obtain ⟨v, f, σ₁, ha⟩ := iha h.1 σ
      obtain ⟨w, g, σ₂, hb⟩ := ihb h.2.1 σ₁
      refine ⟨_, _, σ₂, ?_, ?_, ha.frame_append hb,
        ha.value_append hb h.2.2 fun v w => I.ofInteger (I.arith op (I.int v) (I.int w))⟩
      · simp [eval, ha.eval, hb.eval]
      · simp [late, ha.late, hb.late]

end

end GameHop
