import CiWorkflow.Yaml.Token.Queue

/-!
# Node graphs

The first document of a text as a tree of nodes with anchors, aliases and resolved tags. The readers take fuel, which bounds
the depth of their calls.
-/

namespace CiWorkflow.Yaml

/-- A node of a document, with anchors named by `ν`. A tag is given in full. -/
inductive Graph (ν : Type) where
  | aliasOf (name : ν)
  | scalar (anchor : Option ν) (tag : Option String) (plain : Bool) (text : String)
  | sequence (anchor : Option ν) (tag : Option String) (items : List (Graph ν))
  | mapping (anchor : Option ν) (tag : Option String) (entries : List (Graph ν × Graph ν))
  deriving Repr

instance {ν : Type} : Inhabited (Graph ν) := ⟨.scalar none none true ""⟩

namespace Graph

/-- A node that is not written out. -/
def empty : Graph String := scalar none none true ""

/-- The leads of tags, by handle. -/
abbrev Leads := List (String × String)

/-- A tag in full; `none` where its handle is not declared. -/
def resolveTag (leads : Leads) (handle suffix : String) : Option String :=
  if handle = "" then some suffix
  else
    match (leads.lookup handle).orElse fun _ => [("!", "!"), ("!!", "tag:yaml.org,2002:")].lookup handle with
    | some lead => some (lead ++ suffix)
    | none => none

/-- Reads at most one anchor and one tag, in either order. -/
def properties (leads : Leads) (q : Queue) : Option (Option String × Option String × Queue) :=
  match q.peek with
  | some (.anchor a, q) =>
    match q.drop.peek with
    | some (.tag h s, r) => (resolveTag leads h s).map fun t => (some a, some t, r.drop)
    | some (_, r) => some (some a, none, r)
    | none => none
  | some (.tag h s, q) =>
    match q.drop.peek with
    | some (.anchor a, r) => (resolveTag leads h s).map fun t => (some a, some t, r.drop)
    | some (_, r) => (resolveTag leads h s).map fun t => (none, some t, r)
    | none => none
  | some (_, q) => some (none, none, q)
  | none => none

/-- Reads a node where the next token does not belong to `stop`, and the empty node otherwise. -/
def orEmpty (stop : List Token) (read : Queue → Option (Graph String × Queue)) (q : Queue) : Option (Graph String × Queue) :=
  match q.peek with
  | none => none
  | some (t, q) => if stop.contains t then some (empty, q) else read q

mutual

/-- Reads a node. `block` admits collections in block style, `indentless` a sequence in the column of its mapping. -/
def readNode (leads : Leads) : Nat → Bool → Bool → Queue → Option (Graph String × Queue)
  | 0, _, _, _ => none
  | fuel + 1, block, indentless, q =>
    match q.peek with
    | none => none
    | some (.aliasOf n, q) => some (aliasOf n, q.drop)
    | some (_, q) =>
      match properties leads q with
      | none => none
      | some (anchor, tag, q) =>
        match q.peek with
        | none => none
        | some (t, q) =>
          match t with
          | .scalar plain text => some (scalar anchor (if tag = some "!" then none else tag) plain text, q.drop)
          | .flowSequenceStart => (readFlowItems leads fuel true q.drop).map fun (gs, q) => (sequence anchor tag gs, q)
          | .flowMappingStart => (readFlowPairs leads fuel true q.drop).map fun (es, q) => (mapping anchor tag es, q)
          | _ =>
            if indentless && t == .blockEntry then
              (readIndentless leads fuel q).map fun (gs, q) => (sequence anchor tag gs, q)
            else if block && t == .blockSequenceStart then
              (readItems leads fuel q.drop).map fun (gs, q) => (sequence anchor tag gs, q)
            else if block && t == .blockMappingStart then
              (readPairs leads fuel q.drop).map fun (es, q) => (mapping anchor tag es, q)
            else if anchor.isSome || tag.isSome then some (scalar anchor tag true "", q)
            else none

/-- Reads the items of a block sequence and its end. -/
def readItems (leads : Leads) : Nat → Queue → Option (List (Graph String) × Queue)
  | 0, _ => none
  | fuel + 1, q =>
    match q.peek with
    | some (.blockEntry, q) =>
      match orEmpty [.blockEntry, .blockEnd] (readNode leads fuel true false) q.drop with
      | none => none
      | some (g, q) => (readItems leads fuel q).map fun (gs, q) => (g :: gs, q)
    | some (.blockEnd, q) => some ([], q.drop)
    | _ => none

/-- Reads the items of a sequence in the column of its mapping. -/
def readIndentless (leads : Leads) : Nat → Queue → Option (List (Graph String) × Queue)
  | 0, _ => none
  | fuel + 1, q =>
    match q.peek with
    | some (.blockEntry, q) =>
      match orEmpty [.blockEntry, .key, .value, .blockEnd] (readNode leads fuel true false) q.drop with
      | none => none
      | some (g, q) => (readIndentless leads fuel q).map fun (gs, q) => (g :: gs, q)
    | some (_, q) => some ([], q)
    | none => none

/-- Reads the entries of a block mapping and its end. -/
def readPairs (leads : Leads) : Nat → Queue → Option (List (Graph String × Graph String) × Queue)
  | 0, _ => none
  | fuel + 1, q =>
    let node := orEmpty [.key, .value, .blockEnd] (readNode leads fuel true true)
    match q.peek with
    | some (.key, q) =>
      match node q.drop with
      | none => none
      | some (k, q) =>
        match q.peek with
        | none => none
        | some (t, q) =>
          match if t == .value then node q.drop else some (empty, q) with
          | none => none
          | some (v, q) => (readPairs leads fuel q).map fun (es, q) => ((k, v) :: es, q)
    | some (.blockEnd, q) => some ([], q.drop)
    | _ => none

/-- Moves to the next entry of a flow collection, past the comma in front of it. -/
def readFlowItems (leads : Leads) : Nat → Bool → Queue → Option (List (Graph String) × Queue)
  | 0, _, _ => none
  | fuel + 1, first, q =>
    match q.peek with
    | none => none
    | some (.flowSequenceEnd, q) => some ([], q.drop)
    | some (t, q) =>
      match if first then some (t, q) else if t == .flowEntry then q.drop.peek else none with
      | none => none
      | some (.flowSequenceEnd, q) => some ([], q.drop)
      | some (.key, q) =>
        match readFlowPair leads fuel q.drop with
        | none => none
        | some (g, q) => (readFlowItems leads fuel false q).map fun (gs, q) => (g :: gs, q)
      | some (_, q) =>
        match readNode leads fuel false false q with
        | none => none
        | some (g, q) => (readFlowItems leads fuel false q).map fun (gs, q) => (g :: gs, q)

/-- Reads a pair in a flow sequence, from behind its key's mark on: a mapping of one entry. -/
def readFlowPair (leads : Leads) : Nat → Queue → Option (Graph String × Queue)
  | 0, _ => none
  | fuel + 1, q =>
    match q.peek with
    | none => none
    | some (t, q) =>
      let key :=
        if [.value, .flowEntry, .flowSequenceEnd].contains t then some (empty, q.drop)
        else readNode leads fuel false false q
      match key with
      | none => none
      | some (k, q) =>
        match q.peek with
        | none => none
        | some (t, q) =>
          (if t == .value then orEmpty [.flowEntry, .flowSequenceEnd] (readNode leads fuel false false) q.drop
            else some (empty, q)).map fun (v, q) => (mapping none none [(k, v)], q)

/-- Reads the entries of a flow mapping and its end. -/
def readFlowPairs (leads : Leads) : Nat → Bool → Queue → Option (List (Graph String × Graph String) × Queue)
  | 0, _, _ => none
  | fuel + 1, first, q =>
    let valueOf (q : Queue) : Option (Graph String × Queue) :=
      match q.peek with
      | none => none
      | some (t, q) =>
        if t == .value then orEmpty [.flowEntry, .flowMappingEnd] (readNode leads fuel false false) q.drop
        else some (empty, q)
    match q.peek with
    | none => none
    | some (.flowMappingEnd, q) => some ([], q.drop)
    | some (t, q) =>
      match if first then some (t, q) else if t == .flowEntry then q.drop.peek else none with
      | none => none
      | some (.flowMappingEnd, q) => some ([], q.drop)
      | some (.key, q) =>
        match orEmpty [.value, .flowEntry, .flowMappingEnd] (readNode leads fuel false false) q.drop with
        | none => none
        | some (k, q) =>
          match valueOf q with
          | none => none
          | some (v, q) => (readFlowPairs leads fuel false q).map fun (es, q) => ((k, v) :: es, q)
      | some (_, q) =>
        match readNode leads fuel false false q with
        | none => none
        | some (k, q) => (readFlowPairs leads fuel false q).map fun (es, q) => ((k, empty) :: es, q)

end

/-- Reads the directives in front of a document: at most one version, and tag leads with different handles. -/
def readDirectives : Nat → Bool → Leads → Queue → Option (Leads × Queue)
  | 0, _, _, _ => none
  | fuel + 1, versioned, leads, q =>
    match q.peek with
    | some (.version major minor, q) =>
      if versioned || major != 1 || (minor != 1 && minor != 2) then none
      else readDirectives fuel true leads q.drop
    | some (.tagDirective handle lead, q) =>
      if (leads.lookup handle).isSome then none else readDirectives fuel versioned ((handle, lead) :: leads) q.drop
    | some (_, q) => some (leads, q)
    | none => none

/-- Reads the first document of a text up to the token behind it: `none` for a malformed one, and the inner `none` for a
text without documents. -/
def ofText? (s : List Char) : Option (Option (Graph String)) :=
  let fuel := 8 * s.length + 16
  let finish (r : Option (Graph String × Queue)) : Option (Option (Graph String)) :=
    r.bind fun (g, q) => q.peek.map fun _ => some g
  if !s.all isAdmitted then none
  else
    match (Queue.ofText s).peek with
    | none => none
    | some (.streamEnd, _) => some none
    | some (t, q) =>
      let marked := match t with
        | .version .. | .tagDirective .. | .documentStart => true
        | _ => false
      if marked then
        match readDirectives fuel false [] q with
        | some (leads, q) =>
          match q.peek with
          | some (.documentStart, q) =>
            match q.drop.peek with
            | none => none
            | some (t, q) =>
              let absent := match t with
                | .version .. | .tagDirective .. | .documentStart | .documentEnd | .streamEnd => true
                | _ => false
              finish (if absent then some (empty, q) else readNode leads fuel true false q)
          | _ => none
        | none => none
      else finish (readNode [] fuel true false q)

end Graph

end CiWorkflow.Yaml
