import CiWorkflow.Text.Blank

/-!
# Paths

A path is written as names with slashes between them. Repeated slashes and the name `.` say nothing, `..` takes back the
name before it, and a path that starts with a slash starts at the top.
-/

namespace CiWorkflow.Files

/-- The name that takes back the name before it. -/
def parentName : String := ".."

/-- The names of a path as they are written, with `..` among them and without the ones that say nothing. -/
def components (path : String) : List String :=
  ((path.toList.splitOn '/').map String.ofList).filter fun s => s != "" && s != "."

def isAbsolute (path : String) : Bool := path.toList.head? == some '/'

/-- Puts a slash between two paths where it is needed. A path from the top stands alone. -/
def join (base path : String) : String :=
  if isAbsolute path then path
  else if base.toList.getLast?.all (· == '/') then base ++ path
  else base ++ "/" ++ path

/-- The directory that a path names its last part in; `none` where that is the working directory or the top. -/
def directoryOf? (path : String) : Option String :=
  match (components path).dropLast with
  | [] => none
  | names => some (join (if isAbsolute path then "/" else "") (String.intercalate "/" names))

/-! ### Paths that stay inside -/

/-- Adds a name to those kept so far, last one first, or takes one back. -/
def settleStep (kept : List String) (s : String) : Option (List String) :=
  if s = parentName then
    match kept with
    | [] => none
    | _ :: r => some r
  else some (s :: kept)

/-- The names that are left when each `..` has taken back the nearest one before it; `none` where one has nothing to take
back. -/
def settle? (names : List String) : Option (List String) :=
  (names.foldlM settleStep []).map List.reverse

/-- The names of a path that stays inside the directory it starts from. Blanks around the path do not count. -/
def inside? (path : String) : Option (List String) :=
  let path := Text.trimString path
  if isAbsolute path then none else settle? (components path)

/-- The path to `names` inside `base`. -/
def below (base : String) (names : List String) : String := join base (String.intercalate "/" names)

/-! ### Extensions -/

/-- The part of a name behind its last point, where something stands before that point. -/
def extension? (name : String) : Option String :=
  let r := name.toList.reverse
  match r.dropWhile (· != '.') with
  | [] => none
  | [_] => none
  | _ :: _ :: _ => if name = parentName then none else some (String.ofList (r.takeWhile (· != '.')).reverse)

end CiWorkflow.Files
