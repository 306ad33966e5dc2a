import GameHop.Printer.Layout
import GameHop.Term.Bound

/-!
The canonical text of terms. A subterm gets parentheses exactly when it binds less tightly than its
position asks for; the terms that were written with parentheses keep them.
-/

namespace GameHop

/-! ## Symbols of operators -/

def CmpOp.sym : CmpOp → Sym
  | eq => .eqEq | ne => .neq | lt => .lt | le => .le | gt => .gt | ge => .ge | same => .eq

def ArithOp.sym : ArithOp → Sym
  | add => .plus | sub => .minus | mul => .star | div => .slash | mod => .percent

def LogicOp.sym : LogicOp → Sym
  | and => .amp | or => .pipe

def Connective.sym : Connective → Sym
  | and => .andAnd | or => .orOr | implies => .arrow

def BoundOp.sym : BoundOp → Sym
  | add => .plus | sub => .minus | mul => .star | div => .slash | pow => .caret

def BinaryOp.sym : BinaryOp → Sym
  | logic op => op.sym
  | compare op => op.sym
  | arith op => op.sym

def FormulaOp.sym : FormulaOp → Sym
  | logic op => op.sym
  | compare op => op.sym
  | arith op => op.sym

/-! ## Precedence -/

/-- How tightly an expression binds, from sequences to what takes suffixes. -/
inductive ExprPrec where
  | lowest | assign | ternary | or | and | not | cmp | add | mul | suffix
deriving DecidableEq, Repr

inductive FormulaPrec where
  | lowest | implies | or | and | not | cmp | add | mul | suffix
deriving DecidableEq, Repr

inductive BoundPrec where
  | lowest | mul | pow | primary
deriving DecidableEq, Repr

def ExprPrec.rank : ExprPrec → Nat
  | lowest => 0 | assign => 1 | ternary => 2 | or => 3 | and => 4 | not => 5 | cmp => 6 | add => 7
  | mul => 8 | suffix => 9

def FormulaPrec.rank : FormulaPrec → Nat
  | lowest => 0 | implies => 1 | or => 2 | and => 3 | not => 4 | cmp => 5 | add => 6 | mul => 7
  | suffix => 8

def BoundPrec.rank : BoundPrec → Nat
  | lowest => 0 | mul => 1 | pow => 2 | primary => 3

/-- The level of an operation, and the levels that its operands have to reach. -/
def BinaryOp.precs : BinaryOp → ExprPrec × ExprPrec × ExprPrec
  | logic .or => (.or, .or, .and)
  | logic .and => (.and, .and, .not)
  | compare _ => (.cmp, .add, .add)
  | arith op => if op.isAdditive then (.add, .add, .mul) else (.mul, .mul, .suffix)

def FormulaOp.precs : FormulaOp → FormulaPrec × FormulaPrec × FormulaPrec
  | logic .implies => (.implies, .or, .lowest)
  | logic .or => (.or, .or, .and)
  | logic .and => (.and, .and, .not)
  | compare _ => (.cmp, .add, .add)
  | arith op => if op.isAdditive then (.add, .add, .mul) else (.mul, .mul, .suffix)

def BoundOp.precs : BoundOp → BoundPrec × BoundPrec × BoundPrec
  | add | sub => (.lowest, .lowest, .mul)
  | mul | div => (.mul, .mul, .pow)
  | pow => (.pow, .primary, .pow)

/-- Where an expression stands. -/
inductive Position where
  /-- As a body between braces: each element of a sequence gets a line. -/
  | body
  /-- On a line, where it has to bind at least this tightly. -/
  | operand (prec : ExprPrec)

/-- The layout of an expression of a given level, with parentheses if its position needs them. -/
def Position.place (position : Position) (prec : ExprPrec) (inner : Layout) : Layout :=
  match position with
  | .body => inner
  | .operand least => Layout.parensIf (prec.rank < least.rank) inner

/-- The layout of a formula of a given level where `least` is asked for. -/
def FormulaPrec.place (least prec : FormulaPrec) (inner : Layout) : Layout :=
  Layout.parensIf (prec.rank < least.rank) inner

/-! ## Parameters -/

namespace Layout

/-- `: ty`, if there is a type. -/
def typeAnnotation : Option Ty → Layout
  | none => []
  | some ty => sym .colon ++ space ++ ident ty.keyword

/-- `(x, y: ty)` -/
def formals (ps : List Param) : Layout :=
  parens (commas (ps.map fun p => ident p.name.name ++ typeAnnotation p.ty))

/-- `x, y` -/
def idents (xs : List Ident) : Layout :=
  commas (xs.map fun x => ident x.name)

/-- `<C, D>`, if there are classes. -/
def classHints : List Ident → Layout
  | [] => []
  | cs => sym .lt ++ idents cs ++ sym .gt

/-- `L@`, if there is a label. -/
def label : Option Ident → Layout
  | none => []
  | some l => ident l.name ++ sym .at_

end Layout

/-! ## Expressions and formulas -/

mutual

open Layout

def Expr.layout (depth : Nat) (position : Position) : Expr → Layout
  | .int _ n => number n
  | .bool _ b => truth b
  | .lookup _ x => ident x.name
  | .paren _ l inner => label l ++ parens (inner.layout depth (.operand .lowest))
  | .seq _ head tail =>
    match position with
    | .body => head.layout depth (.operand .assign) ++ sym .semi ++ newline depth ++
        tail.layout depth .body
    | .operand _ => position.place .lowest
        (head.layout depth (.operand .assign) ++ sym .semi ++ space ++
          tail.layout depth (.operand .lowest))
  | .assign _ x value =>
    position.place .assign (infixed (ident x.name) .eq (value.layout depth (.operand .assign)))
  | .ternary _ cond yes no =>
    position.place .ternary <| cond.layout depth (.operand .or) ++ space ++ sym .question ++ space ++
      yes.layout depth (.operand .assign) ++ space ++ sym .colon ++ space ++
      no.layout depth (.operand .assign)
  | .unary _ .not inner => position.place .not (sym .bang ++ inner.layout depth (.operand .not))
  | .unary _ .ref inner => word .ref_ ++ parens (inner.layout depth (.operand .lowest))
  | .unary _ .tobits inner => word .tobits_ ++ parens (inner.layout depth (.operand .lowest))
  | .binary _ op left right =>
    let (own, leftLeast, rightLeast) := op.precs
    position.place own <|
      infixed (left.layout depth (.operand leftLeast)) op.sym
        (right.layout depth (.operand rightLeast))
  | .call _ f args => ident f.name ++ parens (commas (Expr.layouts depth args))
  | .invoke _ target m classes args =>
    target.layout depth (.operand .suffix) ++ sym .dot ++ ident m.name ++ classHints classes ++
      parens (commas (Expr.layouts depth args))
  | .new _ o => o.layout depth
  | .index _ map key =>
    map.layout depth (.operand .suffix) ++ sym .lBracket ++ key.layout depth (.operand .assign) ++
      sym .rBracket
  | .update _ map key value =>
    map.layout depth (.operand .suffix) ++ sym .lBracket ++
      infixed (key.layout depth (.operand .assign)) .colonEq
        (value.layout depth (.operand .assign)) ++
      sym .rBracket
  | .assert _ p => word .assert_ ++ parens (p.layout .lowest)
  | .assume _ p => word .admit_ ++ parens (p.layout .lowest)
  | .ellipsis _ => sym .ellipsis
  | .hole _ => sym .lBracket ++ sym .rBracket

def Expr.layouts (depth : Nat) : List Expr → List Layout
  | [] => []
  | e :: es => e.layout depth (.operand .assign) :: Expr.layouts depth es

def Object.layout (depth : Nat) : Object → Layout
  | ⟨className, fields, methods⟩ =>
    word .new_ ++ space ++ (match className with | none => [] | some c => ident c.name) ++
      parens (commas (Field.layouts depth fields)) ++ space ++
      (if methods.isEmpty then sym .lBrace ++ sym .rBrace
        else braces depth (Method.layouts (depth + 1) methods))

def Field.layouts (depth : Nat) : List Field → List Layout
  | [] => []
  | ⟨_, x, value⟩ :: fs =>
    infixed (ident x.name) .eq (value.layout depth (.operand .assign)) :: Field.layouts depth fs

def Method.layout (depth : Nat) : Method → Layout
  | ⟨_, m, ps, body⟩ =>
    word .method_ ++ space ++ ident m.name ++ formals ps ++ space ++
      braces depth [body.layout (depth + 1) .body]

def Method.layouts (depth : Nat) : List Method → List Layout
  | [] => []
  | m :: ms => m.layout depth :: Method.layouts depth ms

/-- The layout of contexts, each in parentheses after a blank. -/
def Expr.contextLayout : List Expr → Layout
  | [] => []
  | c :: cs => space ++ parens (c.layout 0 (.operand .lowest)) ++ Expr.contextLayout cs

/-- The layout of a formula where `least` is asked for. -/
def Formula.layout (least : FormulaPrec) : Formula → Layout
  | .int _ n => number n
  | .bool _ b => truth b
  | .lookup _ x => ident x.name
  | .paren _ inner => parens (inner.layout .lowest)
  | .quant _ q ps body =>
    least.place .lowest <| word (match q with | .all => .forall_ | .some => .exists_) ++ space ++
      formals ps ++ sym .dot ++ space ++ body.layout .lowest
  | .unary _ .not inner => least.place .not (sym .bang ++ inner.layout .not)
  | .unary _ .tobits inner => word .tobits_ ++ parens (inner.layout .lowest)
  | .unary _ .isBits inner => word .isbits_ ++ parens (inner.layout .lowest)
  | .binary _ op left right =>
    let (own, leftLeast, rightLeast) := op.precs
    least.place own (infixed (left.layout leftLeast) op.sym (right.layout rightLeast))
  | .call _ f args => ident f.name ++ parens (commas (Formula.layouts args))
  | .index _ map key =>
    map.layout .suffix ++ sym .lBracket ++ key.layout .lowest ++ sym .rBracket
  | .update _ map key value =>
    map.layout .suffix ++ sym .lBracket ++
      infixed (key.layout .lowest) .colonEq (value.layout .lowest) ++ sym .rBracket
  | .env _ contexts => word .env_ ++ Expr.contextLayout contexts
  | .sameObject _ left right => ident "same" ++ parens (commas [left.layout, right.layout])
  | .independence _ heap left right =>
    word .independence_ ++ parens (commas [heap.layout, left.layout .lowest, right.layout .lowest])
  | .objectIs _ object cls =>
    object.layout ++ space ++ word .is_ ++ space ++
      ident (match cls with | .named c => c.name | .invalid => "invalid")
  | .field _ object x => object.layout ++ sym .dot ++ ident x.name
  | .frameAll _ => word .frame_
  | .frame _ left right =>
    word .frame_ ++ parens (commas [left.layout .lowest, right.layout .lowest])
  | .frameHeap _ leftHeap rightHeap left right =>
    word .frameHeap_ ++ parens (commas
      [leftHeap.layout, rightHeap.layout, left.layout .lowest, right.layout .lowest])
  | .fieldsEqual _ => word .fieldsEqual_
  | .fieldsEqualExcept _ fields => word .fieldsEqualExcept_ ++ parens (idents fields)

def Formula.layouts : List Formula → List Layout
  | [] => []
  | p :: ps => p.layout .lowest :: Formula.layouts ps

def ObjectTerm.layout : ObjectTerm → Layout
  | .side s => ident s.text
  | .inHeap heap reference =>
    ident "object" ++ parens (commas [heap.layout, reference.layout .lowest])

def HeapTerm.layout : HeapTerm → Layout
  | .side s => ident "heap" ++ parens (ident s.text)
  | .inHeap heap reference =>
    ident "from_heap" ++ parens (commas [heap.layout, reference.layout .lowest])

end

/-! ## Bounds -/

mutual

open Layout

def Bound.layout (least : BoundPrec) : Bound → Layout
  | .int _ n => number n
  | .lookup _ x => ident x.name
  | .paren _ inner => parens (inner.layout .lowest)
  | .call _ f args => ident f.name ++ parens (commas (Bound.layouts args))
  | .env _ contexts => word .env_ ++ Expr.contextLayout contexts
  | .binary _ op left right =>
    let (own, leftLeast, rightLeast) := op.precs
    parensIf (own.rank < least.rank)
      (infixed (left.layout leftLeast) op.sym (right.layout rightLeast))

def Bound.layouts : List Bound → List Layout
  | [] => []
  | b :: bs => b.layout .lowest :: Bound.layouts bs

end

/-! ## Texts -/

def Expr.text (e : Expr) : String :=
  (e.layout 0 (.operand .lowest)).text

def Formula.text (p : Formula) : String :=
  (p.layout .lowest).text

def Bound.text (b : Bound) : String :=
  (b.layout .lowest).text

end GameHop
