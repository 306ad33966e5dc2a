import GameHop.Printer.Term
import GameHop.Term.Development

/-!
The canonical text of proofs, items and developments.
-/

namespace GameHop

open Layout

/-! ## Facts -/

/-- `~` or `~[b]` -/
def Layout.distance : Option Bound → Layout
  | none => sym .tilde
  | some b => sym .tilde ++ sym .lBracket ++ b.layout .lowest ++ sym .rBracket

def Statement.layout (s : Statement) : Layout :=
  ident s.name.name ++ formals s.params ++ sym .colon ++ space ++
    s.left.layout 0 (.operand .assign) ++ space ++ distance s.bound ++ space ++
    s.right.layout 0 (.operand .assign)

/-! ## Proofs -/

def BisimScope.layout : BisimScope → Layout
  | .invariant => ident "invariant"
  | .checkpoint left right =>
    ident "checkpoint" ++ parens (commas [ident left.name, ident right.name])

def BisimClause.layout (c : BisimClause) : Layout :=
  (if c.scopes.isEmpty then []
    else commas (c.scopes.map BisimScope.layout) ++ sym .colon ++ space) ++
    c.claim.layout .lowest ++ sym .semi

def Replacement.layout (depth : Nat) : Replacement → Layout
  | .fields _ fs => word .new_ ++ parens (commas (Field.layouts depth fs))
  | .method m => m.layout depth

def Target.layout (depth : Nat) : Target → Layout
  | .expr e => e.layout depth (.operand .assign)
  | .changed changes =>
    word .with_ ++ (changes.map fun c => space ++ c.layout depth).flatten

/-- Names after a reserved word, if there are any. -/
def Layout.named (k : Keyword) : List Ident → Layout
  | [] => word k ++ sym .semi
  | xs => word k ++ space ++ idents xs ++ sym .semi

mutual

/-- The layout of a step whose line has the given depth. -/
def Tactic.layout (depth : Nat) : Tactic → Layout
  | .subgoal _ bound target proof =>
    distance bound ++ space ++ target.layout depth ++ space ++
      braces depth (Tactic.layouts (depth + 1) proof)
  | .symmetry _ => word .symmetry_ ++ sym .semi
  | .giveUp _ => word .admit_ ++ sym .semi
  | .trivial _ => word .trivial_ ++ sym .semi
  | .auto _ => word .auto_ ++ sym .semi
  | .bisim _ none => word .bisim_ ++ sym .semi
  | .bisim _ (some clauses) =>
    word .bisim_ ++ space ++ braces depth (clauses.map BisimClause.layout)
  | .rewrite _ fact => word .rewrite_ ++ space ++ ident fact.name ++ sym .semi
  | .hybrid _ fact start stop =>
    word .hybrid_ ++
      parens (commas [ident fact.name, start.layout .lowest, stop.layout .lowest]) ++ sym .semi
  | .unfold _ functions => named .unfold_ functions
  | .inline _ names => named .inline_ names

def Tactic.layouts (depth : Nat) : List Tactic → List Layout
  | [] => []
  | t :: ts => t.layout depth :: Tactic.layouts depth ts

end

/-! ## Items -/

def Function.layout (f : Function) : Layout :=
  (if f.isPure then word .pure_ ++ space else []) ++
    (if f.isStatic then word .static_ ++ space else []) ++
    word .function_ ++ space ++ ident f.name.name ++ formals f.params ++ typeAnnotation f.result ++
    match f.body with
    | some body => space ++ braces 0 [body.layout 1 .body]
    | none => sym .semi

/-- `a.b.c` -/
def Layout.dotted : List Ident → Layout
  | [] => []
  | [x] => ident x.name
  | x :: y :: rest => ident x.name ++ sym .dot ++ dotted (y :: rest)

/-- The layout of an item, without the line end after it. -/
def Item.layout : Item → Layout
  | .imported i => word .import_ ++ space ++ dotted i.path ++ sym .semi
  | .constant c =>
    word .const_ ++ space ++ ident c.name.name ++ typeAnnotation c.ty ++ sym .semi
  | .function f => f.layout
  | .postulate p => word .axiom_ ++ space ++ p.claim.layout .lowest ++ sym .semi
  | .proved t =>
    word .theorem_ ++ space ++ t.statement.layout ++ space ++ braces 0 (Tactic.layouts 1 t.proof)
  | .assumed s => word .assume_ ++ space ++ s.layout ++ sym .semi

/-- The layout of items with an empty line between them. -/
def Development.layout : Development → Layout
  | [] => []
  | [i] => i.layout ++ newline 0
  | i :: j :: rest => i.layout ++ newline 0 ++ newline 0 ++ layout (j :: rest)

def Development.text (d : Development) : String :=
  d.layout.text

end GameHop
