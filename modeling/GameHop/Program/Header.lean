import GameHop.Program.Class
import GameHop.Program.Prelude

/-!
What comes before the obligation of a program: the prelude, and the constants, functions and
postulates of the development.
-/

namespace GameHop.Program

/-! ## Functions -/

def pureFunction (f : Function) : String :=
  let params := f.params.mapIdx fun i p => p.name.name ++ ": " ++ (f.paramSort i).name
  "function " ++ f.name.name ++ "(" ++ ", ".intercalate params ++ ") : " ++ f.resultSort.name ++ ";"

/-- A function without a definition: what it does to the state and what it returns are functions of
    the state and of its arguments. A static function neither reads nor writes the heap. -/
def abstractFunction (f : Function) : List String :=
  let name := f.name.name
  let result := f.resultSort.name
  let sorts := (List.range f.params.length).map fun i => (i, (f.paramSort i).name)
  let formals := String.join (sorts.map fun (i, s) => ", a" ++ toString i ++ ":" ++ s)
  let types := (if f.isStatic then "" else ", ObjectId, Heap") ++
    String.join (sorts.map fun (_, s) => ", " ++ s)
  let actuals := (if f.isStatic then "" else ", internal.objectId, old(heap)") ++
    Build.actuals f.params.length
  let unlessStatic := fun (s : String) => if f.isStatic then [] else [s]
  ["function " ++ name ++ "#State(FunctionState" ++ types ++ ") : FunctionState;",
    "function " ++ name ++ "#Value(FunctionState" ++ types ++ ") : " ++ result ++ ";"] ++
  unlessStatic ("function " ++ name ++ "#Heap(FunctionState" ++ types ++ ") : Heap;") ++
  ["procedure " ++ name ++ "(internal.objectId : ObjectId" ++ formals ++ ") returns (r: " ++
      result ++ ");",
    "modifies functionState;"] ++
  unlessStatic "modifies heap;" ++
  ["ensures functionState == " ++ name ++ "#State(old(functionState)" ++ actuals ++ ");",
    "ensures r == " ++ name ++ "#Value(old(functionState)" ++ actuals ++ ");"] ++
  unlessStatic ("ensures heap == " ++ name ++ "#Heap(old(functionState)" ++ actuals ++ ");")

def definedFunction (env : Environment) (f : Function) (body : Expr) : Build Procedure := do
  Build.declareAll env body
  let params := f.params.map fun p => (p.name.name, p.ty.getD .value)
  let c ← Build.inFrame .variables params
    (finishCode ⟨env, Build.require env, []⟩ .empty body)
  let result ← orInternal (c.code.value.coerce f.resultSort)
  let formals := String.join (params.map fun (x, ty) =>
    ", " ++ x ++ ": " ++ (TermSort.ofTy ty).name)
  return {
    signature := [
      "procedure \x7b:inline 1\x7d " ++ f.name.name ++ "(internal.objectId : ObjectId" ++ formals ++
        ") returns (result : " ++ f.resultSort.name ++ ")",
      "modifies checkpoints;",
      "modifies functionState;",
      "modifies heap; \x7b"]
    declarations := c.locals.declarations
    spaced := true
    body := c.locals.defaults ++ c.code.body ++ [.keep "result" result] }

def declareFunction (env : Environment) (f : Function) : Build Unit := do
  if f.isPure then
    Build.line (pureFunction f)
  else match f.body with
    | some body =>
      let p ← definedFunction env f body
      Build.write p.write
    | none => Build.lines (abstractFunction f)
  Build.blank

/-! ## Header -/

def declareConstants (scope : Scope) : Build Unit := do
  Build.lines (scope.symbols.map fun (x, ty) => "const " ++ typedName x (.ofTy ty) ++ ";")
  Build.blank

def declarePostulates (env : Environment) : Build Unit := do
  env.postulates.forM fun p => do
    let t ← p.claim.claim ⟨env, Build.require env, [], none⟩
    Build.line ("axiom (" ++ t.text ++ ");")
  Build.blank

/-- The prelude, the constants, the functions and the postulates. -/
def header (env : Environment) : Build Unit := do
  Build.lines Prelude.lines
  declareConstants env.scope
  env.functions.toList.forM (declareFunction env)
  declarePostulates env

def Build.program (env : Environment) (x : Build Unit) : Except CheckError String := do
  let ((), d) ← x.run (.start env)
  return d.out.text

end GameHop.Program
