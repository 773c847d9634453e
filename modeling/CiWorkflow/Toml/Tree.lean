import CiWorkflow.Toml.Value

/-!
# TOML tables under construction

A document builds its tables statement by statement. How a table came to be decides what may still be added to it: one that
was named by a header is complete but for its sub-tables, one that was only passed through by a header may still be named, and
one that a dotted key made grows by dotted keys only.
-/

namespace CiWorkflow.Toml

/-- How a table came to be. -/
inductive Making where
  /-- a header named it -/
  | header
  /-- a header went through it -/
  | passed
  /-- a dotted key went through it -/
  | dotted
  deriving DecidableEq, Repr

/-- A binding under construction. Values are complete. -/
inductive Node where
  | value (v : Value)
  | table (making : Making) (entries : List (String × Node))
  /-- the tables of an array of tables, last one first -/
  | tables (last : List (String × Node)) (earlier : List (List (String × Node)))
  deriving Repr, Inhabited

abbrev Nodes := List (String × Node)

namespace Nodes

def find? (ns : Nodes) (k : String) : Option Node := ns.lookup k

/-- Changes what a key is bound to, or binds it behind the others. -/
def put (k : String) (n : Node) : Nodes → Nodes
  | [] => [(k, n)]
  | (j, m) :: r => if j = k then (k, n) :: r else (j, m) :: put k n r

/-- Binds a value to a dotted key. A key is bound once, and tables that a header named do not grow this way. -/
def bind (v : Value) : List String → Nodes → Option Nodes
  | [], _ => none
  | [k], ns => if (ns.find? k).isSome then none else some (ns ++ [(k, .value v)])
  | k :: path, ns =>
    match ns.find? k with
    | none => (bind v path []).map fun es => ns ++ [(k, .table .dotted es)]
    | some (.table .header _) => none
    | some (.table making es) => (bind v path es).map fun es => put k (.table making es) ns
    | some (.tables last earlier) => (bind v path last).map fun es => put k (.tables es earlier) ns
    | some (.value _) => none

/-- Works on the table that a header's path leads to; of an array of tables that is the last one. -/
def within (f : Nodes → Option Nodes) : List String → Nodes → Option Nodes
  | [], ns => f ns
  | k :: path, ns =>
    match ns.find? k with
    | none => (within f path []).map fun es => put k (.table .passed es) ns
    | some (.table making es) => (within f path es).map fun es => put k (.table making es) ns
    | some (.tables last earlier) => (within f path last).map fun es => put k (.tables es earlier) ns
    | some (.value _) => none

/-- Opens the table that a header names. -/
def openTable (k : String) (ns : Nodes) : Option Nodes :=
  match ns.find? k with
  | none => some (put k (.table .header []) ns)
  | some (.table .passed es) => some (put k (.table .header es) ns)
  | some _ => none

/-- Starts another table of an array of tables. -/
def appendTable (k : String) (ns : Nodes) : Option Nodes :=
  match ns.find? k with
  | none => some (put k (.tables [] []) ns)
  | some (.tables last earlier) => some (put k (.tables [] (last :: earlier)) ns)
  | some _ => none

end Nodes

mutual

/-- The value of a binding. -/
def Node.toValue : Node → Value
  | .value v => v
  | .table _ es => .table (toTable es)
  | .tables last earlier => .list (toTables earlier [.table (toTable last)])

/-- The values of bindings. -/
def toTable : List (String × Node) → Table
  | [] => []
  | (k, n) :: r => (k, n.toValue) :: toTable r

/-- The values of tables, last one first, in front of others. -/
def toTables : List (List (String × Node)) → List Value → List Value
  | [], acc => acc
  | ns :: r, acc => toTables r (.table (toTable ns) :: acc)

end

end CiWorkflow.Toml
