import CiWorkflow.Text.Slice
import CiWorkflow.Yaml.Block

/-!
# Streams

A text is a series of documents. The first one, and one behind `...`, may start without a mark; any may start with `---`,
and directives may stand in front of that.
-/

namespace CiWorkflow.Yaml

open ConcreteTree (node)

/-- Reads a word of visible characters on the same line. -/
def directiveWord (p : Cursor) : Option (List Char × Cursor) :=
  let g := p.gap
  if g.newline || g.atEnd then none
  else
    let e := skipWhile isVisible g.ahead.rest g.ahead.toPosition
    if e.offset = g.ahead.offset then none else some (g.ahead.rest.take (e.column - g.ahead.column), e)

/-- Reads all words of a directive's line. -/
def directiveWords : Nat → Cursor → List (List Char) × Cursor
  | 0, p => ([], p)
  | fuel + 1, p =>
    match directiveWord p with
    | none => ([], p)
    | some (w, e) =>
      let (ws, f) := directiveWords fuel e
      (w :: ws, f)

/-- Two runs of digits with a point between them. -/
def isVersion (w : List Char) : Bool :=
  let major := w.takeWhile Char.isDigit
  let minor := w.drop (major.length + 1)
  !major.isEmpty && w[major.length]? == some '.' && !minor.isEmpty && minor.all Char.isDigit

/-- `!`, `!!`, or word characters between two exclamation marks. -/
def isTagHandle : List Char → Bool
  | ['!'] => true
  | '!' :: r => r.getLast? == some '!' && r.dropLast.all isWordChar
  | _ => false

/-- Reads a directive, from its `%` on. -/
def directive (p : Cursor) : Option Cursor :=
  match directiveWords (p.rest.length + 1) p with
  | (['%'] :: _, _) => none
  | (name :: words, e) =>
    let fits :=
      if name = "%YAML".toList then words.length == 1 && words.all isVersion
      else if name = "%TAG".toList then
        words.length == 2 && (words.head?.map isTagHandle).getD false && (words.drop 1).all (·.all isUriChar)
      else true
    if fits && (e.gap.newline || e.gap.atEnd) then some e else none
  | _ => none

/-- Reads directives up to the `---` behind them. -/
def directives : Nat → Cursor → Option Cursor
  | 0, _ => none
  | fuel + 1, p =>
    if p.atDocumentMark && p.rest.head? == some '-' then some p
    else if p.column == 0 && p.rest.head? == some '%' then
      (directive p).bind fun e => directives fuel e.gap.ahead
    else none

/-- Reads the documents from `p` on; `bare` tells whether the next one may go without a mark. -/
def documents : Nat → Bool → Cursor → Option (List ConcreteTree)
  | 0, _, _ => none
  | fuel + 1, bare, p =>
    let g := p.gap
    let document (start : Cursor) (found : List ConcreteTree × Option ConcreteTree × Cursor) : Option (List ConcreteTree) :=
      (documents fuel false found.2.2).map fun ts =>
        g.comments ++ node .document .part ⟨start.offset, found.2.2.offset⟩ (found.1 ++ found.2.1.toList) :: ts
    if g.atEnd then some g.comments
    else if g.ahead.atDocumentMark then
      if g.ahead.rest.head? = some '-' then document g.ahead (blockValue fuel ⟨0, false, false⟩ (g.ahead.skip 3))
      else (documents fuel true (g.ahead.skip 3)).map (g.comments ++ ·)
    else if !bare then none
    else if g.ahead.column = 0 ∧ g.ahead.rest.head? = some '%' then
      match directives fuel g.ahead with
      | none => none
      | some q => document q (blockValue fuel ⟨0, false, false⟩ (q.skip 3))
    else
      match blockContent fuel ⟨0, true, false⟩ true g.ahead with
      | none => none
      | some (t, e) => document g.ahead ([], some t, e)

/-- The concrete tree of a text; `none` where the text is malformed. A byte order mark in front is skipped, and a text with
a null character is malformed. -/
def ConcreteTree.ofText? (s : List Char) : Option ConcreteTree :=
  if s.contains '\x00' then none
  else
    let start : Cursor := if s.head? = some '\uFEFF' then ⟨⟨3, 0, 0⟩, s.drop 1⟩ else ⟨⟨0, 0, 0⟩, s⟩
    (documents (8 * s.length + 16) true start).map (node .stream .part ⟨0, Text.byteLength s⟩)

end CiWorkflow.Yaml
