import GameHop.Files.Error
import GameHop.Printer.Term
import GameHop.Program.Sort
import GameHop.Source.Error
import GameHop.Source.Location

/-!
What a check can object to. A `Fault` concerns a place in a development and is for its author; an
`InternalFault` has no place. `message` gives the wording of each.
-/

namespace GameHop

/-- Objections to a development. -/
inductive Fault where
  | source (e : SourceError)
  | importNotFound (path : String)
  | alreadyDeclared (name : String)
  | alreadyDefined (name : String)
  | fieldAlreadyDeclared (name : String)
  | factAlreadyDeclared (name : String)
  | notDeclared (name : String)
  | functionNotDeclared (name : String)
  | functionDoesNotExist (name : String)
  | factNotDeclared (name : String)
  | isConstant (name : String)
  | bodyOfPureFunction
  /-- Two sides that were to be equal; both are simplified. -/
  | sidesDiffer (left right : Expr)
  /-- The side of a subgoal to be changed is no object. -/
  | changedNonObject (e : Expr)
  /-- A side of a bisimulation is no object. -/
  | bisimOfNonObject (e : Expr)
  | nothingToRewrite
  | hybridOfManyParameters
  | hybridLeftNotCall
  | hybridRightNotCall
  | hybridLeftArgument (expected : String)
  | hybridRightArgument (expected : String)
  | hybridDistanceVaries (name : String)
  | hybridWithoutOccurrence (e : Expr)
  | inlineUnknownMethod (name : String)
  | inlineStillReferenced (name : String)
  | noGoal
  | noBuilder
  | obligationsRemain
  | bisimSignaturesDiffer
  | impureBoundCall
  | impureFormulaCall
  | outsideBisim
  | noCommonFields
  /-- A verification program was rejected. -/
  | rejected (failure programFile : String)

namespace Fault

def message : Fault → String
  | source e => e.message
  | importNotFound path => "Unable to read file: " ++ path
  | alreadyDeclared x => x ++ " already declared."
  | alreadyDefined x => x ++ " already defined."
  | fieldAlreadyDeclared x => "Already declared: " ++ x
  | factAlreadyDeclared x => "theorem identifier already declared: " ++ x
  | notDeclared x => x ++ " not declared."
  | functionNotDeclared x => "Function not declared: " ++ x
  | functionDoesNotExist x => "function does not exist: " ++ x
  | factNotDeclared x => "Undeclared symbol: " ++ x
  | isConstant x => x ++ " is constant."
  | bodyOfPureFunction => "Function body is not pure."
  | sidesDiffer l r => l.text ++ "\n != \n" ++ r.text
  | changedNonObject e => "Not a new expression: " ++ e.text
  | bisimOfNonObject e => "not a new expression: " ++ e.text
  | nothingToRewrite => "Nothing to rewrite"
  | hybridOfManyParameters => "Hybrid argument facts must take a single parameter"
  | hybridLeftNotCall =>
    "A hybrid argument fact expressions must be a function call with a single parameter."
  | hybridRightNotCall =>
    "A hybrid argument fact expressions must be a function with a single parameter."
  | hybridLeftArgument expected =>
    "The parameter of the left hybrid fact expression must be " ++ expected
  | hybridRightArgument expected =>
    "The parameter of the right hybrid fact expression must be " ++ expected
  | hybridDistanceVaries x => x ++ " may not appear in the distance of the hybrid fact."
  | hybridWithoutOccurrence e => "Found no occurences of " ++ e.text ++ " to rewrite."
  | inlineUnknownMethod m => "method of invocation target class does not exist: " ++ m
  | inlineStillReferenced x => x ++ " is still referenced after inlining."
  | noGoal => "Not an equivalence obligation"
  | noBuilder => "Not an equivalence builder obligation"
  | obligationsRemain => "Proof obligations remain."
  | bisimSignaturesDiffer => "Objects in bisimulation must have identical method signatures."
  | impureBoundCall => "Only pure functions allowed in bounds expressions."
  | impureFormulaCall => "Only pure functions allowed in propositions."
  | outsideBisim =>
    "Objects and heaps can only be referenced in bisimulation invariants."
  | noCommonFields => "No common fields remain."
  | rejected failure file => failure ++ " Try analyzing " ++ file ++ " using boogie."

end Fault

/-- Objections without a place. -/
inductive InternalFault where
  /-- A power or a context in a bound that is to be an expression. -/
  | boundNotExpr (b : Bound)
  | exprNotBound (e : Expr)
  | arityMismatch (function : String)
  | noCoercion (source target : TermSort)
  | functionNotDeclared (name : String)
  | ellipsisLeft
  | holeLeft
  /-- Two classes of one name. -/
  | classRedefined (name : String)
  /-- Two names of one class. -/
  | classRenamed (template : String)
  | classNotDeclared
  /-- Classes refer to each other without end. -/
  | classesUnbounded
  | verifierNotStarted (path : String) (fault : FileFault)
  | verifier (message : String)

def InternalFault.message : InternalFault → String
  | boundNotExpr b => "Conversion of bound " ++ b.text ++ " to an expression not implemented."
  | exprNotBound e => "Unable to convert " ++ e.text ++ " to bounds expr"
  | arityMismatch f => "Argument length mismatch for function " ++ f
  | noCoercion s t => "cannot convert " ++ s.name ++ " to " ++ t.name
  | functionNotDeclared f => "Function not declared: " ++ f
  | ellipsisLeft => "... not rewritten to previous expression."
  | holeLeft => "rewrite context marker left in expression"
  | classRedefined x => "Redefinition of class with name: " ++ x
  | classRenamed template => "Renaming of class with definition: " ++ template
  | classNotDeclared => "object constructed before its class was declared"
  | classesUnbounded => "class declarations do not end"
  | verifierNotStarted path f => "failed to start verifier " ++ path ++ ": " ++ f.message
  | verifier m => m

inductive CheckError where
  | located (at_ : Location) (fault : Fault)
  | internal (fault : InternalFault)
  | file (fault : FileFault)

def Location.report (l : Location) (message : String) : String :=
  "error at " ++ l.file ++ "(" ++ toString l.line ++ "," ++ toString l.column ++ "):\n" ++ message

namespace CheckError

def message : CheckError → String
  | located _ f => f.message
  | internal f => f.message
  | file f => f.message

def report : CheckError → String
  | located l f => l.report f.message
  | internal f => "internal error: " ++ f.message
  | file f => "I/O error: " ++ f.message

end CheckError

end GameHop
