import CiWorkflow.Yaml.Flow

/-!
# Block style

Mappings and sequences that are told by indentation. The lines of a value stay right of the column of the collection that
holds it; a collection ends where a lexeme stands too far left for it, where a document ends, or with the text.
-/

namespace CiWorkflow.Yaml

open ConcreteTree (node leaf)

/-- Where a value is expected. -/
structure Slot where
  /-- the first column that later lines of the value may use -/
  margin : Nat
  /-- whether a collection may start on the same line -/
  compact : Bool
  /-- whether a sequence may stand in the column of the enclosing mapping -/
  level : Bool
  deriving DecidableEq, Repr

/-- Whether a collection in column `col` ends in this gap; `margin` is the first column of the values around it. A sequence
in the column of the enclosing mapping ends at anything but a dash. -/
def Gap.ends (g : Gap) (col margin : Nat) : Bool :=
  g.atEnd || g.ahead.atDocumentMark ||
    (!g.tab && g.ahead.column ≤ col &&
      if col + 1 = margin then g.ahead.column < col || g.ahead.rest.head? != some '-' else g.ahead.column < margin)

/-- Whether the next lexeme is the colon of a key that ends before this gap on the same line. -/
def Gap.colonFollows (g : Gap) : Bool := !g.newline && g.ahead.atIndicator ':'

/-- Wraps a collection. -/
def asBlockNode (r : ConcreteTree × Cursor) : ConcreteTree × Cursor :=
  (node .blockNode .part r.1.span [r.1], r.2)

/-- Whether a value has no anchor and no tag. -/
def isUndecorated (t : ConcreteTree) : Bool :=
  t.children.all fun c => c.kind != .anchor && c.kind != .tag && c.kind != .aliasNode

mutual

/-- Reads what stands behind an indicator: comments, and a value where there is one. -/
def blockValue : Nat → Slot → Cursor → List ConcreteTree × Option ConcreteTree × Cursor
  | 0, _, p => ([], none, p)
  | fuel + 1, slot, p =>
    let g := p.gap
    let found :=
      if g.atEnd || g.ahead.atDocumentMark then none
      else if !g.newline then blockContent fuel slot slot.compact g.ahead
      else if g.below slot.margin then blockContent fuel slot true g.ahead
      else if slot.level && g.level slot.margin && g.ahead.atIndicator '-' then
        (blockSequence fuel slot.margin g.ahead).map asBlockNode
      else none
    match found with
    | some (t, e) => (g.comments, some t, e)
    | none => ([], none, p)

/-- Reads a value, from its first character on; `collections` tells whether it may be one that goes by indentation. -/
def blockContent : Nat → Slot → Bool → Cursor → Parsed
  | 0, _, _, _ => none
  | fuel + 1, slot, collections, p =>
    if collections && p.atIndicator '-' then (blockSequence fuel slot.margin p).map asBlockNode
    else if collections && (p.atIndicator '?' || p.atIndicator ':') then
      (blockMapping fuel slot.margin p none).map asBlockNode
    else
      match properties p with
      | none => none
      | some (props, q) =>
        let g := q.gap
        let bare : Parsed :=
          if props.isEmpty then none else some (node .flowNode .part ⟨p.offset, q.offset⟩ props, q)
        let decorate (r : ConcreteTree × Cursor) : ConcreteTree × Cursor :=
          (node r.1.kind .part ⟨p.offset, r.2.offset⟩ (props ++ g.comments ++ r.1.children), r.2)
        if !props.isEmpty && g.newline then
          if g.ahead.atDocumentMark then bare
          else if g.below slot.margin then
            match blockContent fuel slot true g.ahead with
            | some r => if isUndecorated r.1 then some (decorate r) else bare
            | none => bare
          else if slot.level && g.level slot.margin && g.ahead.atIndicator '-' then
            (blockSequence fuel slot.margin g.ahead).map fun r => decorate (asBlockNode r)
          else bare
        else if g.ahead.rest.head? = some '|' ∨ g.ahead.rest.head? = some '>' then
          (blockScalar slot.margin g.ahead).map fun e =>
            (node .blockNode .part ⟨p.offset, e.offset⟩ (props ++ [leaf .blockScalar g.ahead.offset e.offset]), e)
        else
          let plainValue : Parsed :=
            if props.isEmpty && p.rest.head? == some '*' then aliasNode p
            else
              match flowContent fuel false slot.margin g.ahead with
              | some (t, e) => some (node .flowNode .part ⟨p.offset, e.offset⟩ (props ++ [t]), e)
              | none => bare
          match plainValue with
          | none => none
          | some (t, e) =>
            if collections && p.row == e.row && e.gap.colonFollows then
              (blockMapping fuel slot.margin p (some (t, e.gap.ahead))).map asBlockNode
            else some (t, e)

/-- Reads a mapping whose first entry starts at `p`; `key` is the first entry's key and colon where they are read
already. -/
def blockMapping : Nat → Nat → Cursor → Option (ConcreteTree × Cursor) → Parsed
  | 0, _, _, _ => none
  | fuel + 1, margin, p, key =>
    (mappingEntries fuel margin p.column p key).map fun (ts, e) => (node .blockMapping .part ⟨p.offset, e.offset⟩ ts, e)

/-- Reads the entries of a mapping in column `col`, and answers where the mapping ends. -/
def mappingEntries : Nat → Nat → Nat → Cursor → Option (ConcreteTree × Cursor) → Option (List ConcreteTree × Cursor)
  | 0, _, _, _, _ => none
  | fuel + 1, margin, col, p, key =>
    match mappingEntry fuel col p key with
    | none => none
    | some (t, q) =>
      let g := q.gap
      if g.ends col margin then some (t :: g.comments, g.closing)
      else if g.level (col + 1) then
        (mappingEntries fuel margin col g.ahead none).map fun (ts, e) => (t :: (g.comments ++ ts), e)
      else none

/-- Reads one entry: a key behind `?` and a value behind a later `:`, a value without a key, or a key on one line with
its colon. -/
def mappingEntry : Nat → Nat → Cursor → Option (ConcreteTree × Cursor) → Parsed
  | 0, _, _, _ => none
  | fuel + 1, col, p, some (k, colon) =>
    match blockValue fuel ⟨col + 1, false, true⟩ colon.next with
    | (cs, some v, e) => some (node .pair .part ⟨p.offset, e.offset⟩ (k.withRole .key :: (cs ++ [v.withRole .value])), e)
    | (_, none, _) => some (node .pair .part ⟨p.offset, colon.next.offset⟩ [k.withRole .key], colon.next)
  | fuel + 1, col, p, none =>
    if p.atIndicator '?' then
      let (cs, key, q) := blockValue fuel ⟨col + 1, true, true⟩ p.next
      let keyParts := (key.map fun k => cs ++ [k.withRole .key]).getD []
      let g := q.gap
      if g.level (col + 1) && g.ahead.atIndicator ':' then
        match blockValue fuel ⟨col + 1, true, true⟩ g.ahead.next with
        | (ds, some v, e) =>
          some (node .pair .part ⟨p.offset, e.offset⟩ (keyParts ++ g.comments ++ ds ++ [v.withRole .value]), e)
        | (_, none, _) =>
          some (node .pair .part ⟨p.offset, g.ahead.next.offset⟩ (keyParts ++ g.comments), g.ahead.next)
      else some (node .pair .part ⟨p.offset, q.offset⟩ keyParts, q)
    else if p.atIndicator ':' then
      match blockValue fuel ⟨col + 1, true, true⟩ p.next with
      | (cs, some v, e) => some (node .pair .part ⟨p.offset, e.offset⟩ (cs ++ [v.withRole .value]), e)
      | (_, none, _) => some (node .pair .part ⟨p.offset, p.next.offset⟩ [], p.next)
    else
      match flowNode fuel false (col + 1) p with
      | none => none
      | some (k, q) =>
        if p.row == q.row && q.gap.colonFollows then mappingEntry fuel col p (some (k, q.gap.ahead)) else none

/-- Reads a sequence whose first dash stands at `p`. -/
def blockSequence : Nat → Nat → Cursor → Parsed
  | 0, _, _ => none
  | fuel + 1, margin, p =>
    (sequenceItems fuel margin p.column p).map fun (ts, e) => (node .blockSequence .part ⟨p.offset, e.offset⟩ ts, e)

/-- Reads the items of a sequence in column `col`, and answers where the sequence ends. -/
def sequenceItems : Nat → Nat → Nat → Cursor → Option (List ConcreteTree × Cursor)
  | 0, _, _, _ => none
  | fuel + 1, margin, col, p =>
    let (t, q) : ConcreteTree × Cursor :=
      match blockValue fuel ⟨col + 1, true, false⟩ p.next with
      | (cs, some v, e) => (node .item .part ⟨p.offset, e.offset⟩ (cs ++ [v]), e)
      | (_, none, _) => (node .item .part ⟨p.offset, p.next.offset⟩ [], p.next)
    let g := q.gap
    if g.ends col margin then some (t :: g.comments, g.closing)
    else if g.level (col + 1) && g.ahead.atIndicator '-' then
      (sequenceItems fuel margin col g.ahead).map fun (ts, e) => (t :: (g.comments ++ ts), e)
    else none

end

end CiWorkflow.Yaml
