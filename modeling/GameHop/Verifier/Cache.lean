import GameHop.Digest.Text
import GameHop.Files.Tree
import GameHop.Text.Blank

/-!
The programs that were accepted before, kept as digests in a file with one digest on a line.
-/

namespace GameHop

/-- Digests of accepted programs. Without a path nothing is found and nothing is kept. -/
structure ProofCache where
  path : Option String
  digests : List String

namespace ProofCache

def disabled : ProofCache :=
  ⟨none, []⟩

def parse (text : String) : List String :=
  (((Text.splitLines text.toList).map Text.trim).filter (· != [])).map String.ofList |>.eraseDups

/-- Reads a cache file. A file that is not there holds nothing. -/
def load (files : FileTree) (path : String) : Except FileFault ProofCache :=
  match files.read path with
  | .ok text => .ok ⟨some path, parse text⟩
  | .error .notFound => .ok ⟨some path, []⟩
  | .error f => .error f

def size (c : ProofCache) : Nat :=
  c.digests.length

def containsDigest (c : ProofCache) (d : String) : Bool :=
  c.path.isSome && c.digests.contains d

def contains (c : ProofCache) (program : String) : Bool :=
  c.containsDigest (digest program)

/-- Keeps an accepted program, unless it is kept. -/
def insert (c : ProofCache) (files : FileTree) (program : String) :
    Except FileFault (ProofCache × FileTree) :=
  match c.path with
  | none => .ok (c, files)
  | some path =>
    let d := digest program
    if c.digests.contains d then .ok (c, files)
    else do
      let files ← files.append path (d ++ "\n")
      return ({ c with digests := c.digests ++ [d] }, files)

end ProofCache

end GameHop
