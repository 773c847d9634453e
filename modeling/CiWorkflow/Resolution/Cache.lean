import CiWorkflow.Outline.Basic
import CiWorkflow.Resolution.ContentStore
import CiWorkflow.Resolution.Entry

/-!
# The resolution cache

Entries are numbered as they are made, and a number stands for its entry for good. For each text of a reference at most one
entry is stored; an entry that has expired is replaced when its text is asked for. Outlines of manifests and kept content are
found by the key of the reference.
-/

namespace CiWorkflow.Resolution

open Time (Instant)

/-- The entries and what was read for them. -/
structure Cache where
  now : Instant
  /-- every entry that was ever made, by its number -/
  entries : Array Entry := #[]
  /-- the numbers of the stored entries by the text of their reference -/
  slots : NamedCache Nat := {}
  /-- the outlines of manifests by key -/
  outlines : NamedCache Outline := {}
  /-- the kept content; none where nothing is kept -/
  store : Option ContentStore := none

namespace Cache

variable (c : Cache)

def entry? (h : Nat) : Option Entry := c.entries[h]?

/-- Changes one entry. -/
def modifyEntry (h : Nat) (f : Entry → Entry) : Cache := { c with entries := c.entries.modify h f }

/-- The stored entry for a text. -/
def get? (raw : String) : Option Nat := c.slots.get? raw

/-- Whether an entry is the one stored for its text. -/
def isCurrent (h : Nat) : Bool :=
  match c.entry? h with
  | none => false
  | some e => c.get? e.reference.raw == some h

/-- The number of stored entries. -/
def size : Nat := c.slots.size

def isEmpty : Bool := c.slots.isEmpty

/-- The file that keeps the content of a reference, where content is kept. -/
def fileName? (r : Reference) : Option String := if c.store.isSome then ContentStore.fileName? r else none

/-- The outline of an entry's manifest, where that could be read. -/
def outline? (h : Nat) : Option Outline :=
  match c.entry? h with
  | none => none
  | some e => if e.available then c.outlines.get? e.reference.contentKey else none

/-- The stored entries, ascending by the text of their reference. -/
def stored : List Nat := (c.slots.entries.mergeSort fun a b => a.1 ≤ b.1).map Prod.snd

/-- Forgets the content kept for a reference. -/
def dropFile (r : Reference) : Cache :=
  match ContentStore.fileName? r with
  | none => c
  | some name => { c with store := c.store.map fun s => s.erase name }

/-- Gives up an entry, with its outline and its kept content. -/
def detach (h : Nat) : Cache :=
  match c.entry? h with
  | none => c
  | some e =>
    Cache.dropFile
      { c.modifyEntry h Entry.invalidated with outlines := c.outlines.erase e.reference.contentKey } e.reference

/-- Makes a new entry and stores it. -/
def create (raw : String) : Nat × Cache :=
  (c.entries.size, { c with entries := c.entries.push (Entry.fresh raw), slots := c.slots.insert raw c.entries.size })

/-- The stored entry for a text. One that is missing is made, and one that has expired is given up for a new one. -/
def getOrCreate (raw : String) : Nat × Cache :=
  match c.get? raw with
  | none => c.create raw
  | some h =>
    if ((c.entry? h).map (·.isExpired c.now)).getD true then (c.detach h).create raw else (h, c)

/-- Gives up an entry. Where another one is stored for its text, that one keeps all it has. -/
def delete (h : Nat) : Cache :=
  match c.entry? h with
  | none => c
  | some e =>
    match c.get? e.reference.raw with
    | none => c.detach h
    | some k =>
      if k = h then { c.detach h with slots := c.slots.erase e.reference.raw } else c.modifyEntry h Entry.invalidated

/-- Forgets all entries and outlines. Kept content stays. -/
def clear : Cache := { c with slots := {}, outlines := {} }

/-- Removes the kept content, and counts the files. -/
def purge : Nat × Cache :=
  match c.store with
  | none => (0, c)
  | some s => (s.purge.1, { c with store := some s.purge.2 })

/-- Moves the clock. -/
def advance (ms : Int) : Cache := { c with now := c.now.addMillis ms }

end Cache

end CiWorkflow.Resolution
