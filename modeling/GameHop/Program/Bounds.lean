import GameHop.Program.Header

/-!
The program that compares two bounds as real numbers. A name that the development does not declare
is the advantage of some adversary: an unknown real number.
-/

namespace GameHop.Program

/-- A program in the making, and the undeclared names of its bounds in order. -/
structure BoundState where
  draft : Draft
  adversaries : List String

abbrev BuildBound := StateT BoundState (Except CheckError)

namespace BuildBound

def onDraft {α : Type} (x : Build α) : BuildBound α := do
  let s ← get
  let (a, d) ← x.run s.draft
  set { s with draft := d }
  return a

def addAdversary (x : String) : BuildBound Unit :=
  modify fun s =>
    if s.adversaries.contains x then s else { s with adversaries := s.adversaries ++ [x] }

end BuildBound

/-- A context takes part in arithmetic as a value. -/
def numeric (v : Value) : Except CheckError Value :=
  match v.sort with
  | .expr => do return ⟨.value, ← orInternal v.toValue⟩
  | _ => return v

/-- The sort of arithmetic on two numbers: real as soon as one is, and for quotients. -/
def numericSort (op : BoundOp) (left right : TermSort) : TermSort :=
  if op = .div ∨ left = .real ∨ right = .real then .real else .integer

end GameHop.Program

namespace GameHop

open Program

mutual

def Bound.value (env : Environment) : Bound → BuildBound Value
  | .int _ n => return ⟨.integer, .int n⟩
  | .lookup _ x => do
    match ← BuildBound.onDraft (Build.typeOf? x.name) with
    | some ty => return .ofName (.ofTy ty) x.name
    | none =>
      BuildBound.addAdversary x.name
      return .ofName .real x.name
  | .paren _ b => b.value env
  | .call _ f args => do
    match env.functions.get? f.name with
    | none => throw (env.fault (.functionNotDeclared f.name))
    | some decl =>
      if !decl.isPure then
        throw (env.fault .impureBoundCall)
      let actuals ← Bound.arguments env decl 0 args
      return ⟨decl.resultSort, .call f.name actuals⟩
  | .env s contexts => do
    let id ← BuildBound.onDraft (Build.internExpr (Bound.env s contexts).text)
    return .ofName .expr id
  | .binary _ op a b => do
    let a ← numeric (← a.value env)
    let b ← numeric (← b.value env)
    if op = .pow then
      let l ← orInternal a.toReal
      let r ← orInternal b.toReal
      return ⟨.real, .call "real_pow" [l, r]⟩
    else
      let sort := numericSort op a.sort b.sort
      let l ← orInternal (a.coerce sort)
      let r ← orInternal (b.coerce sort)
      return ⟨sort, .numeric op l r⟩

/-- The arguments of a function from a position on. -/
def Bound.arguments (env : Environment) (f : Function) (i : Nat) :
    List Bound → BuildBound (List Term)
  | [] => return []
  | b :: bs => do
    let v ← b.value env
    let t ← orInternal (v.coerce (f.paramSort i))
    let ts ← Bound.arguments env f (i + 1) bs
    return t :: ts

end

def Bound.real (env : Environment) (b : Bound) : BuildBound Term := do
  let v ← numeric (← b.value env)
  orInternal v.toReal

end GameHop

namespace GameHop.Program

/-- The procedure that returns a number. -/
def boundProcedure (name : String) (value : Term) : Procedure where
  signature := ["procedure \x7b:inline 1\x7d " ++ name ++ "() returns (internal.r : real)", "\x7b"]
  declarations := []
  spaced := false
  body := [.keep "internal.r" value]

/-- The procedure that compares both numbers. -/
def bothBounds : Procedure where
  signature := ["procedure both() returns (internal.r1:real, internal.r2:real)",
    "ensures internal.r1<=internal.r2;", "\x7b"]
  declarations := []
  spaced := false
  body := [.call "internal.r1" "left" [], .call "internal.r2" "right" []]

def boundTerms (env : Environment) (actual required : Bound) :
    Build (Term × Term × List String) := fun d => do
  let terms : BuildBound (Term × Term) := do
    let l ← actual.real env
    let r ← required.real env
    return (l, r)
  let ((l, r), s) ← terms.run ⟨d, []⟩
  return ((l, r, s.adversaries), s.draft)

/-- The program for `actual ≤ required`. -/
def boundComparison (env : Environment) (actual required : Bound) : Except CheckError String :=
  Build.program env do
    header env
    let (left, right, adversaries) ← boundTerms env actual required
    if !adversaries.isEmpty then
      Build.lines (adversaries.map fun x => "const " ++ typedName x .real ++ ";")
      Build.blank
    Build.write (boundProcedure "left" left).write
    Build.write (boundProcedure "right" right).write
    writeProcedures [bothBounds]

end GameHop.Program
