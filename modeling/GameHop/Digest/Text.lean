import GameHop.Digest.Base64
import GameHop.Digest.Sha384

/-!
Digests of program texts.
-/

namespace GameHop

/-- The hash of the bytes of a text, in 64 characters. -/
def digest (text : String) : String :=
  String.ofList (Base64.encode (Sha384.hash text.toUTF8.toList))

end GameHop
