import CiWorkflow.Text.Blank

/-!
# Surrounding quotes

A scalar is read without the blanks around it and without one pair of quotes of the same kind.
-/

namespace CiWorkflow.Text

/-- The text between two marks `q` at its ends. -/
def between? (q : Char) : List Char → Option (List Char)
  | [] => none
  | c :: r => if c = q ∧ r.getLast? = some q then some r.dropLast else none

/-- Drops the blanks on both sides and then one pair of `"` or, where there is none, of `'`. -/
def unquote (s : List Char) : List Char :=
  let t := trim s
  ((between? '"' t).orElse fun _ => between? '\'' t).getD t

/-- `unquote` on strings. -/
def unquoteString (s : String) : String :=
  String.ofList (unquote s.toList)

theorem between?_append (q : Char) (s : List Char) : between? q (q :: s ++ [q]) = some s := by
  simp [between?]

end CiWorkflow.Text
