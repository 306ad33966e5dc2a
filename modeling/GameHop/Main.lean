import GameHop.Command.Run

/-!
The command line. The files below the working directory are read once, the call runs on them, and
what it changes is written back.
-/

namespace GameHop.Main

def maxDepth : Nat :=
  64

def readText? (entry : IO.FS.DirEntry) : IO (Option String) := do
  try
    return some (← IO.FS.readFile entry.path)
  catch _ =>
    return none

/-- Reads what is in a directory. Links to directories are not followed. -/
def snapshot : (depth : Nat) → List String → Array IO.FS.DirEntry → FileTree → IO FileTree
  | 0, _, _, tree => return tree
  | depth + 1, place, entries, tree => do
    let mut tree := tree
    for entry in entries do
      let here := place ++ [entry.fileName]
      let kind := (← entry.path.symlinkMetadata).type
      if kind == .dir then
        tree := { tree with dirs := tree.dirs ++ [here] }
        tree ← snapshot depth here (← entry.path.readDir) tree
      else if !(← entry.path.isDir) then
        if let some text ← readText? entry then
          tree := { tree with files := tree.files ++ [(here, text)] }
    return tree

/-- Writes the changes between two trees. -/
def writeBack (before after : FileTree) : IO Unit := do
  for dir in after.dirs do
    if !before.dirs.contains dir then
      IO.FS.createDirAll ("/".intercalate dir)
  for (place, text) in after.files do
    if before.fileAt? place != some text then
      IO.FS.writeFile ("/".intercalate place) text

def host : Command.Host where
  launch := fun _ _ _ files => (.error .permissionDenied, files)
  cores := 1

end GameHop.Main

open GameHop in
def main (args : List String) : IO UInt32 := do
  let dir ← IO.currentDir
  let before ← Main.snapshot Main.maxDepth [] (← dir.readDir) (FileTree.empty dir.toString)
  let outcome := Command.run Main.host before args
  Main.writeBack before outcome.files
  IO.print outcome.output
  if let some complaint := outcome.complaint then
    IO.eprintln ("Error: " ++ complaint)
  return outcome.status.toUInt32
