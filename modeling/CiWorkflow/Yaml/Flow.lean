import CiWorkflow.Yaml.Lexeme

/-!
# Flow style

Values in flow style: scalars, aliases, and collections in brackets, which may span lines as long as each line stays right
of the enclosing block. The readers take fuel, which bounds the depth of their calls.
-/

namespace CiWorkflow.Yaml

open ConcreteTree (node leaf)

/-- What a reader answers: the construct it has read and the place behind it. -/
abbrev Parsed := Option (ConcreteTree × Cursor)

/-- Reads at most one anchor and one tag, in either order, on one line. -/
def properties (p : Cursor) : Option (List ConcreteTree × Cursor) :=
  let anchor (q : Cursor) : Parsed := (anchorName q.next).map fun e => (leaf .anchor q.offset e.offset, e)
  let tag (q : Cursor) : Parsed := (tagEnd q).map fun e => (leaf .tag q.offset e.offset, e)
  let also (c : Char) (read : Cursor → Parsed) (first : ConcreteTree × Cursor) : Option (List ConcreteTree × Cursor) :=
    let g := first.2.gap
    if !g.newline && g.ahead.rest.head? == some c then (read g.ahead).map fun (t, e) => ([first.1, t], e)
    else some ([first.1], first.2)
  match p.rest.head? with
  | some '&' => (anchor p).bind (also '!' tag)
  | some '!' => (tag p).bind (also '&' anchor)
  | _ => some ([], p)

/-- Reads an alias, from its `*` on. -/
def aliasNode (p : Cursor) : Parsed :=
  (anchorName p.next).map fun e => (node .flowNode .part ⟨p.offset, e.offset⟩ [leaf .aliasNode p.offset e.offset], e)

/-- Reads a scalar in flow style. -/
def flowScalar (flow : Bool) (margin : Nat) (p : Cursor) : Parsed :=
  let done (k : Kind) (e : Cursor) := (leaf k p.offset e.offset, e)
  match p.rest.head? with
  | some '"' => (doubleQuoted margin p.next.rest p.next.toPosition none .none).map (done .doubleQuoted)
  | some '\'' => (singleQuoted margin p.next.rest p.next.toPosition none).map (done .singleQuoted)
  | _ => (plainScalar flow margin p).map (done .plain)

/-- Whether the next lexeme may belong to a flow collection below `margin`. -/
def Gap.inside (g : Gap) (margin : Nat) : Bool := !g.newline || g.below margin

/-- Whether the next lexeme may close a flow collection below `margin`. -/
def Gap.mayClose (g : Gap) (margin : Nat) : Bool := g.inside margin || g.level margin

/-- Whether a colon stands here that may follow a key in a flow collection. -/
def Cursor.atFlowColon (p : Cursor) : Bool :=
  p.rest.head? == some ':' &&
    (p.blankAt 1 || ((p.rest.drop 1).head?.map fun c => [',', ']', '}'].contains c).getD false)

/-- Whether a value is quoted or in brackets, apart from its properties. -/
def endsQuoted (t : ConcreteTree) : Bool :=
  (t.children.getLast?.map fun c => c.kind.isQuotedOrFlow).getD false

mutual

/-- Reads a value in flow style with its properties. -/
def flowNode : Nat → Bool → Nat → Cursor → Parsed
  | 0, _, _, _ => none
  | fuel + 1, flow, margin, p =>
    if p.rest.head? = some '*' then aliasNode p
    else
      match properties p with
      | none => none
      | some ([], _) =>
        (flowContent fuel flow margin p).map fun (t, e) => (node .flowNode .part ⟨p.offset, e.offset⟩ [t], e)
      | some (props, q) =>
        let g := q.gap
        match if g.inside margin then flowContent fuel flow margin g.ahead else none with
        | some (t, e) => some (node .flowNode .part ⟨p.offset, e.offset⟩ (props ++ g.comments ++ [t]), e)
        | none => some (node .flowNode .part ⟨p.offset, q.offset⟩ props, q)

/-- Reads a scalar or a collection in flow style. -/
def flowContent : Nat → Bool → Nat → Cursor → Parsed
  | 0, _, _, _ => none
  | fuel + 1, flow, margin, p =>
    match p.rest.head? with
    | some '[' =>
      (flowEntries fuel ']' margin p.next).map fun (ts, e) => (node .flowSequence .part ⟨p.offset, e.offset⟩ ts, e)
    | some '{' =>
      (flowEntries fuel '}' margin p.next).map fun (ts, e) => (node .flowMapping .part ⟨p.offset, e.offset⟩ ts, e)
    | _ => flowScalar flow margin p

/-- Reads the entries of a collection up to its closing bracket. -/
def flowEntries : Nat → Char → Nat → Cursor → Option (List ConcreteTree × Cursor)
  | 0, _, _, _ => none
  | fuel + 1, close, margin, p =>
    let g := p.gap
    if g.ahead.rest.head? = some close ∧ g.mayClose margin then some (g.comments, g.ahead.next)
    else if g.inside margin then
      match flowEntry fuel (close == ']') margin g.ahead with
      | none => none
      | some (t, q) =>
        let h := q.gap
        if h.ahead.rest.head? = some close ∧ h.mayClose margin then
          some (g.comments ++ t :: h.comments, h.ahead.next)
        else if h.ahead.rest.head? = some ',' ∧ h.inside margin then
          (flowEntries fuel close margin h.ahead.next).map fun (ts, e) => (g.comments ++ t :: (h.comments ++ ts), e)
        else none
    else none

/-- Reads one entry: a value or a pair. In a sequence the key of a pair stands on one line with its colon. -/
def flowEntry : Nat → Bool → Nat → Cursor → Parsed
  | 0, _, _, _ => none
  | fuel + 1, inSequence, margin, p =>
    if p.atIndicator '?' then
      let g := p.next.gap
      let key := if g.inside margin && !g.ahead.atFlowColon then flowNode fuel true margin g.ahead else none
      match key with
      | none => flowPair fuel margin p g.comments none p.next
      | some (k, q) => flowPair fuel margin p g.comments (some k) q
    else if p.atFlowColon then flowPair fuel margin p [] none p
    else
      match flowNode fuel true margin p with
      | none => none
      | some (t, q) =>
        let g := q.gap
        let colon := g.ahead.rest.head? == some ':' && (endsQuoted t || g.ahead.atFlowColon)
        let near := if inSequence then !g.newline && p.row == q.row else g.inside margin
        if colon && near then flowPair fuel margin p [] (some t) q else some (t, q)

/-- Reads the colon and the value of a pair that starts at `p` and whose key, if any, ends at `q`. -/
def flowPair : Nat → Nat → Cursor → List ConcreteTree → Option ConcreteTree → Cursor → Parsed
  | 0, _, _, _, _, _ => none
  | fuel + 1, margin, p, comments, key, q =>
    let g := q.gap
    let keyParts := (key.map fun k => comments ++ [k.withRole .key]).getD []
    let colon := g.ahead.rest.head? == some ':' && ((key.map endsQuoted).getD false || g.ahead.atFlowColon)
    if colon && g.inside margin then
      let h := g.ahead.next.gap
      match if h.inside margin then flowNode fuel true margin h.ahead else none with
      | some (v, e) =>
        some (node .pair .part ⟨p.offset, e.offset⟩ (keyParts ++ g.comments ++ h.comments ++ [v.withRole .value]), e)
      | none => some (node .pair .part ⟨p.offset, g.ahead.next.offset⟩ (keyParts ++ g.comments), g.ahead.next)
    else some (node .pair .part ⟨p.offset, q.offset⟩ keyParts, q)

end

end CiWorkflow.Yaml
