/-!
# TOML values

The values of a TOML document. Fractions and points of time are kept as they are written.
-/

namespace CiWorkflow.Toml

inductive Value where
  | text (s : String)
  | integer (n : Int)
  | float (written : String)
  | boolean (b : Bool)
  | moment (written : String)
  | list (items : List Value)
  | table (entries : List (String × Value))
  deriving Repr, Inhabited

/-- The bindings of a table, in the order they were made. -/
abbrev Table := List (String × Value)

end CiWorkflow.Toml
