/-!
# Byte offsets

Positions in a text count the bytes of its UTF-8 form. A cut is only defined between two characters.
-/

namespace CiWorkflow.Text

/-- The number of bytes of the UTF-8 form. -/
def byteLength : List Char → Nat
  | [] => 0
  | c :: r => c.utf8Size + byteLength r

/-- The first `n` bytes; `none` where `n` lies past the end or inside a character. -/
def takeBytes : Nat → List Char → Option (List Char)
  | 0, _ => some []
  | _ + 1, [] => none
  | n + 1, c :: r => if c.utf8Size ≤ n + 1 then (takeBytes (n + 1 - c.utf8Size) r).map (c :: ·) else none

/-- All but the first `n` bytes; `none` where `n` lies past the end or inside a character. -/
def dropBytes : Nat → List Char → Option (List Char)
  | 0, s => some s
  | _ + 1, [] => none
  | n + 1, c :: r => if c.utf8Size ≤ n + 1 then dropBytes (n + 1 - c.utf8Size) r else none

/-- The bytes from `start` up to `stop`; `none` where that is no range between two characters of the text. -/
def slice (s : List Char) (start stop : Nat) : Option (List Char) :=
  if start ≤ stop then (dropBytes start s).bind (takeBytes (stop - start)) else none

/-- `slice` on strings. -/
def sliceString (s : String) (start stop : Nat) : Option String :=
  (slice s.toList start stop).map String.ofList

/-- The number of line feeds. -/
def lineFeeds (s : List Char) : Nat :=
  s.count '\n'

end CiWorkflow.Text
