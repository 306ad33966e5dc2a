import GameHop.Check.Proof
import GameHop.Files.Tree
import GameHop.Parser.Development

/-!
Checks of developments, item by item. A failing item ends the check of its source; a failing theorem
leaves nothing of itself behind but the classes that it names. A module is imported once.
-/

namespace GameHop

/-- What a check reads from and hands on to. -/
structure CheckSetup (α : Type) where
  backend : Backend α
  files : FileTree
  /-- Where imports are searched after the directory of the importing file. -/
  searchPaths : List String

namespace Checker

variable {α : Type}

open CheckM

/-! ## Declarations -/

def checkConstant (file : SourceFile) (c : Constant) : CheckM α Unit :=
  naming file (NamingM.declareParam .bits ⟨c.span, c.name, c.ty⟩)

def checkFunction (file : SourceFile) (f : Function) : CheckM α Unit := do
  if f.isPure && f.body.isSome then
    fail (file.locate f.span) .bodyOfPureFunction
  let functions := (← get).functions
  naming file <| NamingM.inFrame .variables do
    NamingM.declareParams f.defaultTy f.params
    match f.body with
    | some body => body.check functions
    | none => return ()
  modify fun c => { c with functions := c.functions.insert f }

def checkPostulate (file : SourceFile) (p : Postulate) : CheckM α Unit := do
  naming file p.claim.check
  modify fun c => { c with postulates := c.postulates ++ [p] }

/-- Checks the names of a fact. The frame with its parameters stays open. -/
def checkStatement (file : SourceFile) (s : Statement) : CheckM α Fact := do
  naming file do
    NamingM.modifyScope (·.push .logical)
    NamingM.declareParams .value s.params
  if ((← get).facts.lookup s.name.name).isSome then
    fail (file.locate s.name.span) (.factAlreadyDeclared s.name.name)
  let functions := (← get).functions
  naming file do
    NamingM.inFrame .variables (s.left.check functions)
    NamingM.inFrame .variables (s.right.check functions)
  return ⟨s.left, s.right, s.params.map (·.name.name), s.bound.getD .zero⟩

def addFact (name : String) (f : Fact) : CheckM α Unit :=
  modify fun c => { c with facts := insertEntry name f c.facts }

def checkAssumption (file : SourceFile) (s : Statement) : CheckM α Unit := do
  let f ← checkStatement file s
  modifyScope (·.pop)
  addFact s.name.name f

/-! ## Theorems -/

def prove (ctx : ProofContext α) (t : Theorem) : CheckM α Unit := do
  let f ← checkStatement ctx.file t.statement
  pushObligation (.goal (.ofFact f))
  Tactic.runAll ctx t.proof
  let stop := ctx.file.locate t.span.closing
  Proof.close ctx stop
  let _ ← popGoal stop
  located stop (← get).obligations.ensureEmpty
  modifyScope (·.pop)
  addFact t.statement.name.name f

/-- Drops the obligations and the frames above those of another state. -/
def rollback (before after : Checker α) : Checker α :=
  { after with
    obligations := after.obligations.truncate before.obligations.size
    scope := after.scope.truncate before.scope.depth }

/-- Checks a theorem. A failing proof leaves obligations and frames as they were. -/
def checkTheorem (ctx : ProofContext α) (t : Theorem) : CheckM α Unit := do
  let before ← get
  tryCatch (prove ctx t) fun e => do
    modify (rollback before)
    throw e

/-! ## Modules -/

/-- The file of a module, from one of the directories of the search. -/
def modulePath (i : Import) : String :=
  "/".intercalate (i.path.map (·.name)) ++ ".qvl"

def findModule (setup : CheckSetup α) (file : SourceFile) (i : Import) : Option SourceFile :=
  let here := (Path.parent? file.path).getD ""
  let candidates := (here :: setup.searchPaths).map (Path.join · (modulePath i))
  match candidates.find? setup.files.isFile with
  | none => none
  | some path =>
    match setup.files.read path with
    | .ok text => some ⟨path, text⟩
    | .error _ => none

/-- Imports a module, unless its import has begun before. -/
def checkImport (setup : CheckSetup α) (checkSource : SourceFile → CheckM α Unit)
    (file : SourceFile) (i : Import) : CheckM α Unit := do
  if !(← get).imported.contains i.moduleName then
    modify fun c => { c with imported := i.moduleName :: c.imported }
    match findModule setup file i with
    | none => fail (file.locate i.span) (.importNotFound (modulePath i))
    | some module => checkSource module

def checkItem (setup : CheckSetup α) (checkSource : SourceFile → CheckM α Unit)
    (file : SourceFile) : Item → CheckM α Unit
  | .imported i => checkImport setup checkSource file i
  | .constant c => checkConstant file c
  | .function f => checkFunction file f
  | .postulate p => checkPostulate file p
  | .proved t => checkTheorem ⟨file, setup.backend⟩ t
  | .assumed s => checkAssumption file s

/-- Checks a source with imports nested less than `depth` deep. -/
def checkNested (setup : CheckSetup α) : (depth : Nat) → SourceFile → CheckM α Unit
  | 0, file => fail (.detached file.path) (.importNotFound file.path)
  | depth + 1, file => do
    match Development.parse file.text with
    | .error e => fail (file.locate e.span) (.source e)
    | .ok items => items.forM (checkItem setup (checkNested setup depth) file)

/-- More than the number of imports that can be nested. Each of them but the first names a module
    that no import before it names, in the text of some file, and a text of `n` characters has at most
    `n + 2` items. -/
def importDepth (files : FileTree) : Nat :=
  files.files.foldl (fun n f => n + (f.2.length + 2)) 2

def checkSource (setup : CheckSetup α) (file : SourceFile) : CheckM α Unit :=
  checkNested setup (importDepth setup.files) file

def checkFile (setup : CheckSetup α) (path : String) : CheckM α Unit := do
  match setup.files.read path with
  | .error f => throw (.file f)
  | .ok text => checkSource setup ⟨path, text⟩

end Checker

end GameHop
