import GameHop.Check.Error

/-!
Arithmetic on bounds, and arithmetic expressions read as bounds and back.
-/

namespace GameHop.Bound

/-- Whether the bound is the number zero, perhaps in parentheses. -/
def isZero : Bound → Bool
  | int _ n => n == 0
  | paren _ b => b.isZero
  | _ => false

/-- The sum; a zero is dropped. -/
def add (a b : Bound) : Bound :=
  if a.isZero then b else if b.isZero then a else binary .nowhere .add a b

def sub (a b : Bound) : Bound :=
  binary .nowhere .sub a b

def mul (a b : Bound) : Bound :=
  binary .nowhere .mul a b

/-- The operator of expressions for an operator of bounds; there are no powers. -/
def arithOp? : BoundOp → Option ArithOp
  | .add => some .add
  | .sub => some .sub
  | .mul => some .mul
  | .div => some .div
  | .pow => none

/-- The operator of bounds for an operator of expressions; there are no remainders. -/
def ofArithOp? : ArithOp → Option BoundOp
  | .add => some .add
  | .sub => some .sub
  | .mul => some .mul
  | .div => some .div
  | .mod => none

mutual

/-- The bound as an expression. Contexts and powers have none. -/
def toExpr : Bound → Except InternalFault Expr
  | .int s n => .ok (.int s n)
  | .lookup s x => .ok (.lookup s x)
  | .paren s b => do return .paren s none (← b.toExpr)
  | .call s f args => do return .call s f (← toExprList args)
  | .env s cs => .error (.boundNotExpr (.env s cs))
  | .binary s op a b =>
    match arithOp? op with
    | none => .error (.boundNotExpr (.binary s op a b))
    | some op => do
      let a ← a.toExpr
      let b ← b.toExpr
      return .binary s (.arith op) a b

def toExprList : List Bound → Except InternalFault (List Expr)
  | [] => .ok []
  | b :: bs => do
    let b ← b.toExpr
    let bs ← toExprList bs
    return b :: bs

end

mutual

/-- The arithmetic expression as a bound. -/
def ofExpr : Expr → Except InternalFault Bound
  | .int s n => .ok (.int s n)
  | .lookup s x => .ok (.lookup s x)
  | .paren s _ e => do return .paren s (← ofExpr e)
  | .call s f args => do return .call s f (← ofExprList args)
  | .binary s (.arith op) a b =>
    match ofArithOp? op with
    | none => .error (.exprNotBound (.binary s (.arith op) a b))
    | some op => do
      let a ← ofExpr a
      let b ← ofExpr b
      return .binary s op a b
  | e => .error (.exprNotBound e)

def ofExprList : List Expr → Except InternalFault (List Bound)
  | [] => .ok []
  | e :: es => do
    let b ← ofExpr e
    let bs ← ofExprList es
    return b :: bs

end

end GameHop.Bound
