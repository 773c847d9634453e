/-!
# Lines

A line ends at a line feed, or at a carriage return and a line feed together. A line feed at the end of the text
starts no further line.
-/

namespace CiWorkflow.Text

/-- The lines of a text, without their ends. -/
def lines : List Char → List (List Char)
  | [] => []
  | '\n' :: r => [] :: lines r
  | '\r' :: '\n' :: r => [] :: lines r
  | c :: r =>
    match lines r with
    | [] => [[c]]
    | l :: ls => (c :: l) :: ls

/-- The text up to the first line feed, and what follows it. -/
def splitLine (s : List Char) : List Char × List Char :=
  (s.takeWhile (· != '\n'), (s.dropWhile (· != '\n')).drop 1)

end CiWorkflow.Text
