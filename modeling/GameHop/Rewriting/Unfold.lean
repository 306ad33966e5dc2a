import GameHop.Check.Functions
import GameHop.Check.Error
import GameHop.Term.Traverse

/-!
Unfolding of functions. A call is replaced by the body of the function if every parameter occurs
exactly once in the body and not in a branch, so that each argument is still evaluated once.
-/

namespace GameHop

/-! ## Bodies with arguments -/

/-- The arguments that were put into a body. -/
structure Uses where
  /-- The parameters in the order of their occurrences. -/
  names : List String
  /-- Whether one of them stands in a branch. -/
  inBranch : Bool

namespace Uses

def none : Uses :=
  ⟨[], false⟩

def append (a b : Uses) : Uses :=
  ⟨a.names ++ b.names, a.inBranch || b.inBranch⟩

instance : Append Uses := ⟨append⟩

end Uses

mutual

/-- The expression with arguments in the place of parameters, and the arguments it uses. Methods are
    left alone. `branch` says whether the expression may be skipped when the whole is evaluated. -/
def Expr.putArgs (args : List (String × Expr)) (branch : Bool) : Expr → Expr × Uses
  | .lookup s x =>
    match args.lookup x.name with
    | some arg => (arg, ⟨[x.name], branch⟩)
    | none => (.lookup s x, .none)
  | .paren s l e =>
    let (e, u) := e.putArgs args branch
    (.paren s l e, u)
  | .seq s a b =>
    let (a, u) := a.putArgs args branch
    let (b, v) := b.putArgs args branch
    (.seq s a b, u ++ v)
  | .assign s x e =>
    let (e, u) := e.putArgs args branch
    (.assign s x e, u)
  | .ternary s a b c =>
    let (a, u) := a.putArgs args branch
    let (b, v) := b.putArgs args true
    let (c, w) := c.putArgs args true
    (.ternary s a b c, u ++ v ++ w)
  | .unary s op e =>
    let (e, u) := e.putArgs args branch
    (.unary s op e, u)
  | .binary s (.logic op) a b =>
    let (a, u) := a.putArgs args branch
    let (b, v) := b.putArgs args true
    (.binary s (.logic op) a b, u ++ v)
  | .binary s op a b =>
    let (a, u) := a.putArgs args branch
    let (b, v) := b.putArgs args branch
    (.binary s op a b, u ++ v)
  | .call s f es =>
    let (es, u) := Expr.putArgsList args branch es
    (.call s f es, u)
  | .invoke s t m cs es =>
    let (t, u) := t.putArgs args branch
    let (es, v) := Expr.putArgsList args branch es
    (.invoke s t m cs es, u ++ v)
  | .new s ⟨c, fields, methods⟩ =>
    let (fields, u) := Expr.putArgsFields args branch fields
    (.new s ⟨c, fields, methods⟩, u)
  | .index s a b =>
    let (a, u) := a.putArgs args branch
    let (b, v) := b.putArgs args branch
    (.index s a b, u ++ v)
  | .update s a b c =>
    let (a, u) := a.putArgs args branch
    let (b, v) := b.putArgs args branch
    let (c, w) := c.putArgs args branch
    (.update s a b c, u ++ v ++ w)
  | .int s n => (.int s n, .none)
  | .bool s b => (.bool s b, .none)
  | .assert s p => (.assert s p, .none)
  | .assume s p => (.assume s p, .none)
  | .ellipsis s => (.ellipsis s, .none)
  | .hole s => (.hole s, .none)

def Expr.putArgsList (args : List (String × Expr)) (branch : Bool) : List Expr → List Expr × Uses
  | [] => ([], .none)
  | e :: es =>
    let (e, u) := e.putArgs args branch
    let (es, v) := Expr.putArgsList args branch es
    (e :: es, u ++ v)

def Expr.putArgsFields (args : List (String × Expr)) (branch : Bool) :
    List Field → List Field × Uses
  | [] => ([], .none)
  | ⟨s, x, value⟩ :: fs =>
    let (value, u) := value.putArgs args branch
    let (fs, v) := Expr.putArgsFields args branch fs
    (⟨s, x, value⟩ :: fs, u ++ v)

end

/-- The arguments of a call by the names of the parameters. A missing argument is zero; of two
    parameters of one name the last counts. -/
def Function.bindArgs (f : Function) (args : List Expr) : List (String × Expr) :=
  (f.params.mapIdx fun i p => (p.name.name, args[i]?.getD (.ofNat 0))).reverse

/-- The body with the arguments of a call, if each argument is used once and in no branch. -/
def Function.instantiate? (f : Function) (args : List Expr) : Option Expr := do
  let body ← f.body
  let (result, uses) := body.putArgs (f.bindArgs args) false
  let linear := f.params.all fun p => uses.names.count p.name.name == 1
  if f.params.isEmpty || (linear && !uses.inBranch) then some result else none

/-! ## Programs -/

namespace Unfolding

/-- Replaces a call of one of the functions `only`, or of any if there are none, unless a call before
    it was of no function. -/
def visit (functions : Functions) (only : List String) (e : Expr) : StateM (Option Fault) Expr := do
  match ← get, e with
  | none, .call _ f args =>
    if !only.isEmpty && !only.contains f.name then
      return e
    match functions.get? f.name with
    | none =>
      set (some (Fault.functionDoesNotExist f.name))
      return e
    | some decl => return (decl.instantiate? args).getD e
  | _, _ => return e

end Unfolding

/-- Unfolds calls, those inside arguments first. Gives the program, as far as it came, and what went
    wrong. -/
def Expr.unfold (functions : Functions) (only : List String) (e : Expr) : Expr × Option Fault :=
  (e.bottomUpM true (Unfolding.visit functions only)).run none

end GameHop
