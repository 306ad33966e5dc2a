import GameHop.Program.Sort
import GameHop.Term.Bound

/-!
Terms of verification programs, and their text. The functions on values, memories and heaps that a
term applies are those of the prelude, unless the development declares them.
-/

namespace GameHop.Program

inductive Term where
  /-- A variable or a constant. -/
  | name (x : String)
  | int (n : UInt64)
  | bool (b : Bool)
  /-- `f(a,b)` -/
  | call (f : String) (args : List Term)
  /-- `f(a, b)`, for functions on the state. -/
  | onState (f : String) (args : List Term)
  /-- `m[k]` -/
  | index (map key : Term)
  /-- `m[k := v]` -/
  | store (map key value : Term)
  /-- `b!=nil` -/
  | nonNil (bits : Term)
  | not (t : Term)
  | paren (t : Term)
  /-- `(a+b)` on integers. -/
  | arith (op : ArithOp) (left right : Term)
  /-- `(a+b)` on numbers of a bound. -/
  | numeric (op : BoundOp) (left right : Term)
  /-- `(a)op(b)` -/
  | binary (op : FormulaOp) (left right : Term)
  /-- `a==b`, for parts of the state. -/
  | same (left right : Term)
  /-- `a == b` -/
  | equal (left right : Term)
  /-- `(a ==> b)` -/
  | implies (left right : Term)
  /-- `a && b && c` -/
  | conj (ts : List Term)
  | quant (q : Quantifier) (params : List (String × TermSort)) (body : Term)
  /-- `frame(h,k, a,b)`: the objects `a` in `h` and `b` in `k` reach equal parts. -/
  | frame (leftHeap rightHeap left right : Term)

/-- The spelling of a comparison in programs. -/
def comparisonSymbol : CmpOp → String
  | .eq | .same => "=="
  | .ne => "!="
  | .lt => "<"
  | .le => "<="
  | .gt => ">"
  | .ge => ">="

/-- The spelling of integer arithmetic in programs. -/
def arithSymbol : ArithOp → String
  | .add => "+"
  | .sub => "-"
  | .mul => "*"
  | .div => " div "
  | .mod => " mod "

/-- The spelling of an operator between parenthesised terms. -/
def operatorSymbol : FormulaOp → String
  | .logic .and => "&&"
  | .logic .or => "||"
  | .logic .implies => "==>"
  | .compare op => comparisonSymbol op
  | .arith op => arithSymbol op

/-- `x:sort` -/
def typedName (x : String) (sort : TermSort) : String :=
  x ++ ":" ++ sort.name

mutual

def Term.text : Term → String
  | .name x => x
  | .int n => toString n.toNat
  | .bool b => if b then "true" else "false"
  | .call f args => f ++ "(" ++ ",".intercalate (Term.textList args) ++ ")"
  | .onState f args => f ++ "(" ++ ", ".intercalate (Term.textList args) ++ ")"
  | .index m k => m.text ++ "[" ++ k.text ++ "]"
  | .store m k v => m.text ++ "[" ++ k.text ++ " := " ++ v.text ++ "]"
  | .nonNil t => t.text ++ "!=nil"
  | .not t => "!(" ++ t.text ++ ")"
  | .paren t => "(" ++ t.text ++ ")"
  | .arith op a b => "(" ++ a.text ++ arithSymbol op ++ b.text ++ ")"
  | .numeric op a b => "(" ++ a.text ++ op.symbol ++ b.text ++ ")"
  | .binary op a b => "(" ++ a.text ++ ")" ++ operatorSymbol op ++ "(" ++ b.text ++ ")"
  | .same a b => a.text ++ "==" ++ b.text
  | .equal a b => a.text ++ " == " ++ b.text
  | .implies a b => "(" ++ a.text ++ " ==> " ++ b.text ++ ")"
  | .conj ts => " && ".intercalate (Term.textList ts)
  | .quant q params body =>
    "(" ++ q.keyword ++ " " ++ ",".intercalate (params.map fun (x, s) => typedName x s) ++ " :: " ++
      body.text ++ ")"
  | .frame h k a b => "frame(" ++ h.text ++ "," ++ k.text ++ ", " ++ a.text ++ "," ++ b.text ++ ")"

def Term.textList : List Term → List String
  | [] => []
  | t :: ts => t.text :: Term.textList ts

end

end GameHop.Program
