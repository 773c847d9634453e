import CiWorkflow.Reference.Location
import CiWorkflow.Resolution.Cache
import CiWorkflow.Tree.Reading

/-!
# Resolving

To resolve an entry is to read the manifest that its reference names and to note the manifest's interface. The work falls in
three: first it is planned where the manifest's text comes from, then the answer is judged, and then what it comes to is
noted. While a fetch is under way the cache may change, and an entry that is not stored any more when the answer comes gets
its interface but leaves nothing behind for others. Whether it is stored is asked once, when the answer comes: where several
entries are resolved at once and the text has to be written, others may get on before the rest is noted.
-/

namespace CiWorkflow.Resolution

open Time (Instant)
open CiWorkflow.Tree (Document)

/-- How long results hold, in seconds. -/
structure Retention where
  success : Nat := 86400
  failure : Nat := 600
  deriving DecidableEq, Repr

/-- Where text is fetched from. -/
inductive Origin where
  | repository
  | project
  deriving DecidableEq, Repr

/-- What is asked of an origin. -/
structure Request where
  origin : Origin
  location : String
  deriving DecidableEq, Repr

/-- Where the text of a manifest comes from. -/
inductive Load where
  /-- the text was kept -/
  | kept (text : String)
  | fetch (r : Request)
  deriving DecidableEq, Repr

namespace Load

/-- Whether a text that came this way is to be kept. -/
def isKeepable : Load → Bool
  | fetch ⟨.repository, _⟩ => true
  | _ => false

end Load

/-- What the answer to a load comes to for an entry. -/
inductive Finding where
  /-- there is no manifest -/
  | missing
  /-- a manifest, for an entry that is not stored any more -/
  | late (o : Outline)
  /-- a manifest, for an entry that is stored, and the text where that is to be kept -/
  | timely (o : Outline) (text : Option String)
  deriving Repr

namespace Finding

/-- Whether a text has to be written. -/
def isWriting : Finding → Bool
  | timely _ (some _) => true
  | _ => false

end Finding

/-- The outline of a manifest's text. -/
def manifest? (r : Reference) (text : String) : Except Failure Outline :=
  if Text.allBlank text.toList then .error (.emptyContent (r.location?.getD ""))
  else
    match Document.ofManifest text with
    | .error f => .error (.content r.cacheId f.reason)
    | .ok d => .ok (Outline.ofDocument d)

namespace Cache

variable (c : Cache)

/-- The text kept for a reference, where it is fresh. -/
def freshText? (keep : Retention) (r : Reference) : Option String :=
  (c.fileName? r).bind fun name => c.store.bind fun s => s.fresh? keep.success c.now name

/-- Where the text of an entry's manifest comes from; `none` where nothing is to be done. -/
def plan? (keep : Retention) (h : Nat) : Option Load :=
  match c.entry? h with
  | none => none
  | some e =>
    if e.needsResolution c.now then
      e.reference.location?.map fun location =>
        if e.reference.isLocal then .fetch ⟨.project, location⟩
        else
          match c.freshText? keep e.reference with
          | some text => .kept text
          | none => .fetch ⟨.repository, location⟩
    else none

/-- Leaves the outline for others to find, and keeps the text where there is one to keep. -/
def publish (r : Reference) (o : Outline) (text : Option String) : Cache :=
  let store :=
    match text, c.fileName? r with
    | some t, some name => c.store.map fun s => s.write name t c.now
    | _, _ => c.store
  { c with outlines := c.outlines.insert r.contentKey o, store }

/-- What an answer comes to, as the cache is when it comes. -/
def finding (h : Nat) (load : Load) (answer : Except Failure String) : Finding :=
  match c.entry? h, answer with
  | some e, .ok text =>
    match manifest? e.reference text with
    | .error _ => .missing
    | .ok o =>
      if c.isCurrent h then
        .timely o (if load.isKeepable && (c.fileName? e.reference).isSome then some text else none)
      else .late o
  | _, _ => .missing

/-- Notes that an entry has no manifest. -/
def noteFailure (keep : Retention) (h : Nat) : Cache :=
  c.modifyEntry h fun e => e.failed (c.now.after keep.failure)

/-- Notes the interface of an entry's manifest. -/
def noteManifest (keep : Retention) (h : Nat) (o : Outline) : Cache :=
  c.modifyEntry h fun e => e.resolved (Interface.ofDocument o.document e.reference) (c.now.after keep.success)

/-- Notes a finding, and publishes the manifest where the entry was stored when it came. -/
def conclude (keep : Retention) (h : Nat) : Finding → Cache
  | .missing => c.noteFailure keep h
  | .late o => c.noteManifest keep h o
  | .timely o text =>
    match c.entry? h with
    | none => c
    | some e => (c.publish e.reference o text).noteManifest keep h o

/-- Judges the answer to a load and notes what it comes to. -/
def settle (keep : Retention) (h : Nat) (load : Load) (answer : Except Failure String) : Cache :=
  c.conclude keep h (c.finding h load answer)

end Cache

/-- A way to fetch text. The cache may change while the fetch is under way. -/
abbrev Fetch (m : Type → Type) := Request → StateT Cache m (Except Failure String)

variable {m : Type → Type} [Monad m]

/-- Gets the text of a load. -/
def Fetch.text (fetch : Fetch m) : Load → StateT Cache m (Except Failure String)
  | .kept text => pure (.ok text)
  | .fetch r => fetch r

/-- Resolves an entry where that is due. -/
def resolve (keep : Retention) (fetch : Fetch m) (h : Nat) : StateT Cache m Unit := do
  match (← get).plan? keep h with
  | none => pure ()
  | some load =>
    let answer ← fetch.text load
    modify fun c => c.settle keep h load answer

/-- Resolves the entry for a text. -/
def resolveText (keep : Retention) (fetch : Fetch m) (raw : String) : StateT Cache m Nat := do
  let h ← modifyGet fun c => c.getOrCreate raw
  resolve keep fetch h
  pure h

/-! ### Several entries at once -/

/-- What is left of a resolving that was begun. -/
inductive Rest where
  /-- the kept text is being read -/
  | reading (text : String)
  /-- the text is being written -/
  | writing (f : Finding)

/-- Does what is left. -/
def Cache.finish (c : Cache) (keep : Retention) (h : Nat) : Rest → Cache
  | .reading text => c.settle keep h (.kept text) (.ok text)
  | .writing f => c.conclude keep h f

/-- Begins with several entries in turn, and goes on with each until a file has to be read or written; what is left joins
`rest`. An entry with something left is not begun again. -/
def beginAll (keep : Retention) (fetch : Fetch m) : List Nat → List (Nat × Rest) → StateT Cache m (List (Nat × Rest))
  | [], rest => pure rest
  | h :: hs, rest => do
    if (rest.lookup h).isSome then beginAll keep fetch hs rest
    else
      match (← get).plan? keep h with
      | none => beginAll keep fetch hs rest
      | some (.kept text) => beginAll keep fetch hs (rest ++ [(h, .reading text)])
      | some (.fetch r) =>
        let answer ← fetch r
        let f := (← get).finding h (.fetch r) answer
        if f.isWriting then beginAll keep fetch hs (rest ++ [(h, .writing f)])
        else
          modify fun c => c.conclude keep h f
          beginAll keep fetch hs rest

/-- Resolves several entries at once: all are begun before the first one's files are read or written. -/
def resolveAll (keep : Retention) (fetch : Fetch m) (hs : List Nat) : StateT Cache m Unit := do
  let rest ← beginAll keep fetch hs []
  modify fun c => rest.foldl (fun c (h, r) => c.finish keep h r) c

/-- The stored entries for some texts, looked up in turn. -/
def Cache.getOrCreateAll (c : Cache) : List String → List Nat × Cache
  | [] => ([], c)
  | raw :: raws =>
    let (h, c) := c.getOrCreate raw
    let (hs, c) := c.getOrCreateAll raws
    (h :: hs, c)

/-- Resolves the entries for some texts at once. -/
def resolveTexts (keep : Retention) (fetch : Fetch m) (raws : List String) : StateT Cache m (List Entry) := do
  let hs ← modifyGet fun c => c.getOrCreateAll raws
  resolveAll keep fetch hs
  let c ← get
  return hs.filterMap c.entry?

end CiWorkflow.Resolution
