/-!
What can go wrong with files.
-/

namespace GameHop

inductive FileFault where
  | notFound
  | permissionDenied
  | exists_
  | notADirectory
  | isADirectory
deriving DecidableEq, Repr

/-- The number of the fault in the list of the operating system. -/
def FileFault.code : FileFault → Nat
  | notFound => 2
  | permissionDenied => 13
  | exists_ => 17
  | notADirectory => 20
  | isADirectory => 21

def FileFault.reason : FileFault → String
  | notFound => "No such file or directory"
  | permissionDenied => "Permission denied"
  | exists_ => "File exists"
  | notADirectory => "Not a directory"
  | isADirectory => "Is a directory"

def FileFault.message (f : FileFault) : String :=
  f.reason ++ " (os error " ++ toString f.code ++ ")"

end GameHop
