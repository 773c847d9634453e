import CiWorkflow.Yaml.Token.Scalar

/-!
# Anchors, tags and directives

The tokens that start with `&`, `*`, `!` and `%`.
-/

namespace CiWorkflow.Yaml

/-- Reads the name of an anchor or alias, from its mark on. -/
def nameToken (i : Input) : Option (String × Input) :=
  let (name, j) := i.next.span isNameChar
  let ends := j.blankAt 0 || ((j.peek 0).map ['?', ':', ',', ']', '}', '%', '@', '\x60'].contains).getD false
  if name.isEmpty || !ends then none else some (String.ofList name, j)

/-- Reads `!`, or word characters between two exclamation marks. Outside of directives a lone `!` may be followed by word
characters alone. -/
def tagHandle (inDirective : Bool) (i : Input) : Option (String × Input) :=
  if i.rest.head? ≠ some '!' then none
  else
    let (word, j) := i.next.span isNameChar
    if j.rest.head? = some '!' then some (String.ofList ('!' :: word ++ ['!']), j.next)
    else if inDirective && !word.isEmpty then none
    else some (String.ofList ('!' :: word), j)

/-- The number of octets of the UTF-8 form of a character, by the first one. -/
def octetWidth? (n : Nat) : Option Nat :=
  if n < 0x80 then some 1 else if n / 32 = 6 then some 2 else if n / 16 = 14 then some 3
  else if n / 8 = 30 then some 4 else none

/-- Reads an octet written as `%` and two hexadecimal digits. -/
def octetToken (i : Input) : Option (Nat × Input) :=
  match i.rest with
  | '%' :: a :: b :: _ =>
    (Text.hexValue? a).bind fun x => (Text.hexValue? b).map fun y => (x * 16 + y, i.skip 3)
  | _ => none

/-- Reads the further octets of a character. -/
def tailOctets : Nat → Input → Nat → Option (Nat × Input)
  | 0, i, acc => some (acc, i)
  | n + 1, i, acc =>
    match octetToken i with
    | none => none
    | some (o, j) => if o / 64 = 2 then tailOctets n j (acc * 64 + o % 64) else none

/-- Reads a character whose octets are escaped. -/
def uriEscape (i : Input) : Option (Char × Input) :=
  match octetToken i with
  | none => none
  | some (o, j) =>
    match octetWidth? o with
    | none => none
    | some 1 => some (Char.ofNat o, j)
    | some w => (tailOctets (w - 1) j (o % Nat.pow 2 (7 - w))).map fun (n, k) => (Char.ofNat n, k)

/-- Reads the characters of a tag, or of a tag's lead; `full` also admits commas and brackets. -/
def uriChars (full : Bool) : Nat → Input → Option (List Char × Input)
  | 0, _ => none
  | fuel + 1, i =>
    match i.rest with
    | [] => some ([], i)
    | c :: _ =>
      let admitted := isNameChar c ||
        [';', '/', '?', ':', '@', '&', '=', '+', '$', '.', '!', '~', '*', '\'', '(', ')'].contains c ||
        full && [',', '[', ']'].contains c
      if c = '%' then
        match uriEscape i with
        | none => none
        | some (v, j) => (uriChars full fuel j).map fun (vs, e) => (v :: vs, e)
      else if admitted then (uriChars full fuel i.next).map fun (vs, e) => (c :: vs, e)
      else some ([], i)

/-- Reads a tag, from its `!` on: its handle and its suffix. -/
def tagToken (flow : Bool) (i : Input) : Option (Token × Input) :=
  let fuel := i.size + 1
  let read : Option (Token × Input) :=
    if i.peek 1 = some '<' then
      match uriChars true fuel (i.skip 2) with
      | none => none
      | some (cs, j) =>
        if cs.isEmpty || j.rest.head? != some '>' then none else some (.tag "" (String.ofList cs), j.next)
    else
      match tagHandle false i with
      | none => none
      | some (handle, j) =>
        let named := handle.length > 1 && handle.toList.getLast? == some '!'
        match uriChars false fuel j with
        | none => none
        | some (cs, k) =>
          if named then (if cs.isEmpty then none else some (.tag handle (String.ofList cs), k))
          else
            let suffix := handle.toList.drop 1 ++ cs
            if suffix.isEmpty then some (.tag "" "!", k) else some (.tag "!" (String.ofList suffix), k)
  read.bind fun (t, j) =>
    if j.blankAt 0 || flow && j.rest.head? == some ',' then some (t, j) else none

/-- Reads a number of at most nine digits. -/
def versionNumber (i : Input) : Option (Nat × Input) :=
  let (ds, j) := i.span Char.isDigit
  if ds.isEmpty || ds.length > 9 then none else some (ds.foldl (fun n c => n * 10 + (c.toNat - 48)) 0, j)

/-- Reads a directive, from its `%` to the start of the next line. -/
def directiveToken (i : Input) : Option (Token × Input) :=
  let (name, j) := i.next.span isNameChar
  let read : Option (Token × Input) :=
    if !j.blankAt 0 then none
    else if name = "YAML".toList then
      match versionNumber j.skipSpaces with
      | none => none
      | some (major, k) =>
        if k.rest.head? ≠ some '.' then none
        else (versionNumber k.next).map fun (minor, l) => (.version major minor, l)
    else if name = "TAG".toList then
      match tagHandle true j.skipSpaces with
      | none => none
      | some (handle, k) =>
        if !((k.peek 0).map isSpace).getD false then none
        else
          match uriChars true (i.size + 1) k.skipSpaces with
          | none => none
          | some (cs, l) => if cs.isEmpty || !l.blankAt 0 then none else some (.tagDirective handle (String.ofList cs), l)
    else none
  read.bind fun (t, k) =>
    let l := k.skipSpaces
    let l := if l.rest.head? = some '#' then l.skipLine else l
    if l.atLineEnd then some (t, l.next) else none

end CiWorkflow.Yaml
