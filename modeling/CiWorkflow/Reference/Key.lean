import CiWorkflow.Digest.Sha256
import CiWorkflow.Reference.Basic

/-!
# Keys of references

The content of a reference is kept under a key that a file can be named by: a readable part, and a part of a digest that tells
references with the same readable part apart.
-/

namespace CiWorkflow.Reference

/-- The characters of keys: ASCII letters, digits, points, dashes and underscores. -/
def isKeyChar (c : Char) : Bool := c.isAlphanum || c == '.' || c == '-' || c == '_'

/-- Puts underscores in place of the characters that keys do not have. -/
def flatten (t : List Char) : List Char := t.map fun c => if isKeyChar c then c else '_'

/-- Drops `./` at the start as often as it is there. -/
def dropDotSlash : List Char → List Char
  | '.' :: '/' :: r => dropDotSlash r
  | t => t

variable (r : Reference)

/-- The readable part of the key: name, subpath and ref, or the path. -/
def cacheId : String :=
  match r.target with
  | .action .. | .workflow .. => String.ofList (flatten (r.name ++ r.subpath ++ "_" ++ r.ref).toList)
  | _ => String.ofList (flatten (dropDotSlash r.text))

/-- The first eight bytes of the digest of the reference without the blanks around it. -/
def storageKey : String :=
  String.ofList (Digest.hex ((Digest.sha256 (String.ofList r.text).toUTF8.toList).take 8))

/-- The key of the content. -/
def contentKey : String := r.cacheId ++ "-" ++ r.storageKey

end CiWorkflow.Reference
