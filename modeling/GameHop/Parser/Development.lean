import GameHop.Parser.Term
import GameHop.Source.Lexer
import GameHop.Term.Development

/-!
Parsers of proofs, items and developments, and of whole source texts.
-/

namespace GameHop.Parser

/-! ## Facts -/

/-- `~` or `~[b]` -/
def distance (terms : Level) : Parser (Option Bound) := do
  discard <| sym .tilde
  if ← accept .lBracket then
    let b ← terms.bound
    discard <| sym .rBracket
    return some b
  else
    return none

/-- `Name(params): left ~[b] right` -/
def statement (terms : Level) : Parser Statement := do
  let name ← ident
  let params ← params
  discard <| sym .colon
  let left ← terms.assign
  let bound ← distance terms
  let right ← terms.assign
  return ⟨name.span.join right.span, name, params, left, bound, right⟩

/-! ## Proofs -/

/-- `new(x = e)` or a method, repeated; at least one. -/
def replacements (terms : Level) : Parser (List Replacement) := do
  let changes ← many
    (fun k => k == some (.keyword .new_) || k == some (.keyword .method_)) do
      if ← sees (.keyword .new_) then
        let start ← keyword .new_
        let fields ← terms.fields
        return Replacement.fields (start.join (← prevSpan)) fields
      else
        return Replacement.method (← terms.method)
  if changes.isEmpty then failHere .expectedReplacement
  return changes

/-- Whether a scope list comes next. -/
def atBisimScope : Parser Bool := do
  match ← peek, ← peekSecond with
  | some (.ident name), some (.sym .comma) => return name == "invariant"
  | some (.ident name), some (.sym .colon) => return name == "invariant"
  | some (.ident name), some (.sym .lParen) => return name == "checkpoint"
  | _, _ => return false

/-- `invariant` or `checkpoint(L, R)` -/
def bisimScope : Parser BisimScope := do
  let head ← ident
  match head.name with
  | "invariant" => return .invariant
  | "checkpoint" => parens do
    let left ← ident
    discard <| sym .comma
    let right ← ident
    return .checkpoint left right
  | _ => fail .expectedScope head.span

/-- `scope, scope: p;` or `p;` -/
def bisimClause (terms : Level) : Parser BisimClause := do
  let start ← here
  let scopes ← if ← atBisimScope then
      let scopes ← items bisimScope
      discard <| sym .colon
      pure scopes
    else
      pure []
  let claim ← terms.formula
  let stop ← sym .semi
  return ⟨start.join stop, scopes, claim⟩

/-- The clauses of a bisimulation, up to the closing brace. -/
def bisimClauses (terms : Level) : Parser (List BisimClause) :=
  manyUntil (.sym .rBrace) (bisimClause terms)

/-- `;` after a step that started at `start`. -/
def stepEnd (start : Span) (build : Span → Tactic) : Parser Tactic := do
  let stop ← sym .semi
  return build (start.join stop)

/-- A step of a proof; `block` reads the proofs inside it. -/
def tactic (terms : Level) (block : Parser (List Tactic × Span)) : Parser Tactic := do
  let start ← here
  match ← peek with
  | some (.sym .tilde) =>
    let bound ← distance terms
    let target ← if ← sees (.keyword .with_) then
        discard next
        Target.changed <$> replacements terms
      else
        Target.expr <$> terms.assign
    let (proof, stop) ← block
    return .subgoal (start.join stop) bound target proof
  | some (.keyword .symmetry_) =>
    discard next
    stepEnd start .symmetry
  | some (.keyword .admit_) =>
    discard next
    stepEnd start .giveUp
  | some (.keyword .trivial_) =>
    discard next
    stepEnd start .trivial
  | some (.keyword .auto_) =>
    discard next
    stepEnd start .auto
  | some (.keyword .bisim_) =>
    discard next
    if ← accept .lBrace then
      let clauses ← bisimClauses terms
      let stop ← sym .rBrace
      return .bisim (start.join stop) (some clauses)
    else
      stepEnd start (.bisim · none)
  | some (.keyword .rewrite_) =>
    discard next
    let fact ← ident
    stepEnd start (.rewrite · fact)
  | some (.keyword .hybrid_) =>
    discard next
    discard <| sym .lParen
    let fact ← ident
    discard <| sym .comma
    let first ← terms.bound
    discard <| sym .comma
    let last ← terms.bound
    discard <| sym .rParen
    stepEnd start (.hybrid · fact first last)
  | some (.keyword .unfold_) =>
    discard next
    let functions ← itemsBefore .semi ident
    stepEnd start (.unfold · functions)
  | some (.keyword .inline_) =>
    discard next
    let names ← itemsBefore .semi ident
    stepEnd start (.inline · names)
  | _ => failHere .expectedTactic

/-- `{ steps }` with at most `n` levels of proofs; also gives the span of the closing brace. -/
def proofBlock (terms : Level) : Nat → Parser (List Tactic × Span)
  | 0 => fail .outOfTokens .nowhere
  | n + 1 => do
    discard <| sym .lBrace
    let steps ← manyUntil (.sym .rBrace) (tactic terms (proofBlock terms n))
    let stop ← sym .rBrace
    return (steps, stop)

/-! ## Items -/

/-- `import a.b;` -/
def importItem : Parser Import := do
  let start ← keyword .import_
  let first ← ident
  let rest ← many (· == some (.sym .dot)) do
    discard next
    ident
  let stop ← sym .semi
  return ⟨start.join stop, first :: rest⟩

/-- `const x: ty;` -/
def constantItem : Parser Constant := do
  let start ← keyword .const_
  let name ← ident
  let ty ← typeAnnotation
  let stop ← sym .semi
  return ⟨start.join stop, name, ty⟩

def isModifier (k : Option TokenKind) : Bool :=
  k == some (.keyword .pure_) || k == some (.keyword .static_)

/-- A function with its modifiers, and with a body or a semicolon. -/
def functionItem (terms : Level) : Parser Function := do
  let start ← here
  let modifiers ← many isModifier next
  discard <| keyword .function_
  let name ← ident
  let params ← params
  let result ← typeAnnotation
  let isPure := modifiers.any (·.kind == .keyword .pure_)
  let isStatic := modifiers.any (·.kind == .keyword .static_)
  if ← sees (.sym .semi) then
    let stop ← sym .semi
    return ⟨start.join stop, name, isPure, isStatic, params, result, none⟩
  else
    discard <| sym .lBrace
    let body ← terms.expr
    let stop ← sym .rBrace
    return ⟨start.join stop, name, isPure, isStatic, params, result, some body⟩

/-- `axiom p;` -/
def postulateItem (terms : Level) : Parser Postulate := do
  let start ← keyword .axiom_
  let claim ← terms.formula
  let stop ← sym .semi
  return ⟨start.join stop, claim⟩

/-- `theorem` with a fact and its proof. -/
def theoremItem (terms : Level) : Parser Theorem := do
  let start ← keyword .theorem_
  let fact ← statement terms
  let (proof, stop) ← proofBlock terms ((← remaining) + 1)
  return ⟨start.join stop, fact, proof⟩

def item (terms : Level) : Parser Item := do
  match ← peek with
  | some (.keyword .import_) => .imported <$> importItem
  | some (.keyword .const_) => .constant <$> constantItem
  | some (.keyword .pure_) => .function <$> functionItem terms
  | some (.keyword .static_) => .function <$> functionItem terms
  | some (.keyword .function_) => .function <$> functionItem terms
  | some (.keyword .axiom_) => .postulate <$> postulateItem terms
  | some (.keyword .theorem_) => .proved <$> theoremItem terms
  | some (.keyword .assume_) =>
    discard next
    let fact ← statement terms
    discard <| sym .semi
    return .assumed fact
  | _ => failHere .expectedDeclaration

def development (terms : Level) : Parser Development :=
  manyUntil .eof (item terms)

end GameHop.Parser

namespace GameHop

/-- The development that a token list spells. -/
def Development.ofTokens : List Token → Except ParseError Development :=
  Parser.run Parser.development

/-- The clauses that a token list spells, up to the closing brace after them. -/
def BisimClause.listOfTokens : List Token → Except ParseError (List BisimClause) :=
  Parser.run fun terms => do
    let clauses ← Parser.bisimClauses terms
    discard <| Parser.sym .rBrace
    return clauses

/-! ## Source texts -/

/-- Reads a phrase from a text by way of its tokens. -/
def readSource {α : Type} (ofTokens : List Token → Except ParseError α) (source : String) :
    Except SourceError α :=
  match tokenize source with
  | .error e => .error (.lex e)
  | .ok tokens =>
    match ofTokens tokens with
    | .error e => .error (.parse e)
    | .ok a => .ok a

def Expr.parse : String → Except SourceError Expr :=
  readSource Expr.ofTokens

def Formula.parse : String → Except SourceError Formula :=
  readSource Formula.ofTokens

def Bound.parse : String → Except SourceError Bound :=
  readSource Bound.ofTokens

def Development.parse : String → Except SourceError Development :=
  readSource Development.ofTokens

end GameHop
