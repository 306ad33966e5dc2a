import GameHop.Term.Names
import GameHop.Term.Substitution

/-!
Matching of a pattern with variables against a program.
-/

namespace GameHop

/-! ## Equations -/

inductive MatchTerm where
  | expr (e : Expr)
  /-- A name that stands for no expression, such as the target of an assignment. -/
  | name (x : String)

namespace MatchTerm

def text : MatchTerm → String
  | expr e => e.text
  | name x => x

def name? : MatchTerm → Option String
  | expr e => e.varName?
  | name x => some x

def toExpr : MatchTerm → Expr
  | expr e => e
  | name x => .var x

def mentionsAny (names : List String) : MatchTerm → Bool
  | expr e => e.identifiers.any (names.contains ·)
  | name x => names.contains x

end MatchTerm

/-- A part of the pattern and the part of the program that it has to match. -/
structure Equation where
  left : MatchTerm
  right : MatchTerm

namespace Equation

def exprs (l r : Expr) : Equation :=
  ⟨.expr l, .expr r⟩

def names (l r : Ident) : Equation :=
  ⟨.name l.name, .name r.name⟩

def sameTexts (a b : Equation) : Bool :=
  a.left.text == b.left.text && a.right.text == b.right.text

/-- Whether the equation holds and says nothing on variables or bound names. -/
def isTrivial (vars bound : List String) (e : Equation) : Bool :=
  e.left.text == e.right.text && !e.left.mentionsAny vars && !e.left.mentionsAny bound

end Equation

/-- The equations between the parts of two expressions of the same shape. -/
def Expr.equateParts : Expr → Expr → Except InternalFault (Option (List Equation))
  | .lookup _ x, .lookup _ y => .ok (some [.names x y])
  | .paren _ none a, .paren _ none b => .ok (some [.exprs a b])
  | .paren _ (some l) a, .paren _ (some m) b => .ok (some [.names l m, .exprs a b])
  | .seq _ a b, .seq _ c d => .ok (some [.exprs a c, .exprs b d])
  | .assign _ x a, .assign _ y b => .ok (some [.names x y, .exprs a b])
  | .ternary _ a b c, .ternary _ d e f => .ok (some [.exprs a d, .exprs b e, .exprs c f])
  | .unary _ op a, .unary _ op' b => .ok (if op = op' then some [.exprs a b] else none)
  | .binary _ op a b, .binary _ op' c d =>
    .ok (if op = op' then some [.exprs a c, .exprs b d] else none)
  | .call _ f args, .call _ g args' =>
    if f.name ≠ g.name then .ok none
    else if args.length ≠ args'.length then .error (.arityMismatch f.name)
    else .ok (some (List.zipWith .exprs args args'))
  | .invoke _ t m cs args, .invoke _ t' m' cs' args' =>
    .ok <|
      if m.name = m'.name ∧ cs.map (·.name) = cs'.map (·.name) ∧ args.length = args'.length then
        some (.exprs t t' :: List.zipWith .exprs args args')
      else none
  | .index _ a b, .index _ c d => .ok (some [.exprs a c, .exprs b d])
  | .update _ a b c, .update _ d e f => .ok (some [.exprs a d, .exprs b e, .exprs c f])
  | _, _ => .ok none

/-- The equations that an equation is split into, if its sides have the same shape. -/
def Equation.parts (e : Equation) : Except InternalFault (Option (List Equation)) :=
  match e.left, e.right with
  | .expr l, .expr r => l.equateParts r
  | _, _ => .ok none

/-! ## Steps -/

namespace Matching

/-- The values of the variables, if each equation gives one to a variable of its own. -/
def solved? (vars : List String) : List Equation → Option Substitution
  | [] => some []
  | e :: es => do
    let x ← e.left.name?
    let s ← solved? vars es
    if vars.contains x && (s.get? x).isNone then some ((x, e.right.toExpr) :: s) else none

/-- Deletes the first equation after `seen` that is trivial or occurs twice. -/
def delete? (vars bound : List String) (seen : List Equation) :
    List Equation → Option (List Equation)
  | [] => none
  | e :: es =>
    if e.isTrivial vars bound || (seen ++ es).any e.sameTexts then some (seen ++ es)
    else delete? vars bound (seen ++ [e]) es

/-- Splits the first equation after `seen` that can be split; its parts come last. -/
def split? (seen : List Equation) : List Equation → Except InternalFault (Option (List Equation))
  | [] => .ok none
  | e :: es => do
    match ← e.parts with
    | some parts => return some (seen ++ es ++ parts)
    | none => split? (seen ++ [e]) es

/-! ## Sizes

Every step makes the equations smaller. -/

end Matching

mutual

/-- The number of parts of an expression that equations can come to speak about. -/
def Expr.matchSize : Expr → Nat
  | .paren _ _ e | .unary _ _ e | .assign _ _ e => e.matchSize + 2
  | .seq _ a b | .binary _ _ a b | .index _ a b => a.matchSize + b.matchSize + 2
  | .ternary _ a b c | .update _ a b c => a.matchSize + b.matchSize + c.matchSize + 2
  | .call _ _ args => Expr.matchSizeList args + 2
  | .invoke _ t _ _ args => t.matchSize + Expr.matchSizeList args + 2
  | _ => 2

def Expr.matchSizeList : List Expr → Nat
  | [] => 0
  | e :: es => e.matchSize + Expr.matchSizeList es

end

def MatchTerm.size : MatchTerm → Nat
  | .expr e => e.matchSize
  | .name _ => 1

namespace Matching

def size : List Equation → Nat
  | [] => 0
  | e :: es => e.left.size + size es

@[simp] theorem size_nil : size [] = 0 := rfl

@[simp] theorem size_cons (e : Equation) (es : List Equation) :
    size (e :: es) = e.left.size + size es := rfl

@[simp] theorem size_append (as bs : List Equation) : size (as ++ bs) = size as + size bs := by
  induction as with
  | nil => simp
  | cons a as ih => simp [ih, Nat.add_assoc]

end Matching

theorem Expr.matchSize_pos (e : Expr) : 0 < e.matchSize := by
  cases e <;> simp [Expr.matchSize]

theorem MatchTerm.size_pos (t : MatchTerm) : 0 < t.size := by
  cases t with
  | expr e => exact e.matchSize_pos
  | name x => simp [MatchTerm.size]

@[simp] theorem Equation.size_left_exprs (l r : Expr) :
    (Equation.exprs l r).left.size = l.matchSize := rfl

@[simp] theorem Equation.size_left_names (l r : Ident) : (Equation.names l r).left.size = 1 := rfl

namespace Matching

theorem size_zipWith_le (as bs : List Expr) :
    size (List.zipWith Equation.exprs as bs) ≤ Expr.matchSizeList as := by
  induction as generalizing bs with
  | nil => simp
  | cons a as ih =>
    cases bs with
    | nil => simp [Expr.matchSizeList]
    | cons b bs => simpa [Expr.matchSizeList] using ih bs

theorem size_equateParts {l r : Expr} {parts : List Equation}
    (h : l.equateParts r = .ok (some parts)) : size parts < l.matchSize := by
  unfold Expr.equateParts at h
  split at h <;> try simp only [Except.ok.injEq, Option.some.injEq, reduceCtorEq] at h
  case h_7 =>
    split at h <;> simp_all
    subst h; simp [Expr.matchSize]
  case h_8 =>
    split at h <;> simp_all
    subst h; simp [Expr.matchSize]
  case h_9 f args _ _ args' =>
    split at h
    · simp at h
    · split at h
      · simp at h
      · simp only [Except.ok.injEq, Option.some.injEq] at h
        have := size_zipWith_le args args'
        subst h; simp [Expr.matchSize]; omega
  case h_10 t _ _ args _ t' _ _ args' =>
    split at h <;> simp only [Option.some.injEq, reduceCtorEq] at h
    have := size_zipWith_le args args'
    subst h; simp [Expr.matchSize]; omega
  all_goals (subst h; simp [Expr.matchSize]; try omega)

theorem size_parts {e : Equation} {parts : List Equation} (h : e.parts = .ok (some parts)) :
    size parts < e.left.size := by
  unfold Equation.parts at h
  split at h
  · rename_i l r hl hr
    rw [hl]; exact size_equateParts h
  · simp at h

theorem size_delete {vars bound : List String} {seen es out : List Equation}
    (h : delete? vars bound seen es = some out) : size out < size (seen ++ es) := by
  induction es generalizing seen with
  | nil => simp [delete?] at h
  | cons e es ih =>
    have := e.left.size_pos
    simp only [delete?] at h
    split at h
    · simp only [Option.some.injEq] at h
      subst h; simp; omega
    · have := ih h
      simp at this ⊢; omega

theorem size_split {seen es out : List Equation} (h : split? seen es = .ok (some out)) :
    size out < size (seen ++ es) := by
  induction es generalizing seen with
  | nil => simp [split?] at h
  | cons e es ih =>
    simp only [split?, bind, Except.bind] at h
    cases hp : e.parts with
    | error f => simp [hp] at h
    | ok parts =>
      cases parts with
      | none =>
        simp only [hp] at h
        have := ih h
        simp at this ⊢; omega
      | some parts =>
        simp only [hp, pure, Except.pure, Except.ok.injEq, Option.some.injEq] at h
        have := size_parts hp
        subst h; simp; omega

/-! ## Solving -/

def solve (vars bound : List String) (es : List Equation) :
    Except InternalFault (Option Substitution) :=
  match solved? vars es with
  | some s => .ok (some s)
  | none =>
    match _hd : delete? vars bound [] es with
    | some es' => solve vars bound es'
    | none =>
      match _hs : split? [] es with
      | .error f => .error f
      | .ok none => .ok none
      | .ok (some es') => solve vars bound es'
termination_by size es
decreasing_by
  · simpa using size_delete _hd
  · simpa using size_split _hs

end Matching

/-- The values of the variables `vars` that turn the pattern into the program, if there are some.
    Names in `bound` are bound around the program. -/
def Expr.matchWith (pattern : Expr) (vars : List String) (program : Expr) (bound : List String) :
    Except InternalFault (Option Substitution) :=
  Matching.solve vars bound [.exprs pattern program]

end GameHop
