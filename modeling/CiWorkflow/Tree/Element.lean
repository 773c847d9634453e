import CiWorkflow.Text.BlockScalar
import CiWorkflow.Text.Quotes
import CiWorkflow.Text.Span

/-!
# Elements

What a node of a document says: its range, its key and its text. Two elements are the same when all of these agree.
-/

namespace CiWorkflow.Tree

open Text (Span)

/-- A key, a text or neither, with its offsets; an offset that is not known is `-1`. -/
structure Element where
  start : Int := -1
  stop : Int := -1
  key : Option String := none
  text : Option String := none
  deriving DecidableEq, Repr, Inhabited

namespace Element

/-- An entry of a mapping, whose value is below it. -/
def keyed (s : Span) (key : String) : Element := ⟨s.start, s.stop, some key, none⟩

/-- A scalar as written. -/
def scalar (s : Span) (text : String) : Element := ⟨s.start, s.stop, none, some text⟩

/-- A node that only holds others. -/
def container (s : Span) : Element := ⟨s.start, s.stop, none, none⟩

/-- The range, where both offsets are known and in order. -/
def range? (e : Element) : Option Span :=
  if -1 < e.start ∧ e.start ≤ e.stop then some ⟨e.start.toNat, e.stop.toNat⟩ else none

/-- The value of the text: a block scalar folded, any other text without its quotes. -/
def value? (e : Element) : Option String :=
  e.text.map fun t => (Text.foldBlockString t).getD (Text.unquoteString t)

/-- Whether a byte lies in the range. -/
def covers (e : Element) (offset : Nat) : Bool :=
  (e.range?.map (·.contains offset)).getD false

end Element

end CiWorkflow.Tree
