import GameHop.Text.Blank
import GameHop.Text.Digit

/-!
What the verifier prints. It accepts a program if some line of its output ends in a summary without
errors.
-/

namespace GameHop.Verifier

/-- What is left of a list before a given end. -/
def dropSuffix? (suffix cs : List Char) : Option (List Char) :=
  if suffix.isSuffixOf cs then some (cs.take (cs.length - suffix.length)) else none

/-- Whether a line ends in `Boogie program verifier finished with N verified, 0 errors`. -/
def isSummary (line : List Char) : Bool :=
  match dropSuffix? " verified, 0 errors".toList line with
  | none => false
  | some rest =>
    let digits := rest.reverse.takeWhile Text.isDigit
    let before := (rest.reverse.dropWhile Text.isDigit).reverse
    !digits.isEmpty && "Boogie program verifier finished with ".toList.isSuffixOf before

def accepts (output : String) : Bool :=
  (Text.lines output.toList).any fun l => isSummary (Text.trimEnd l)

end GameHop.Verifier
