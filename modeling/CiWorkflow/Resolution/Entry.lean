import CiWorkflow.Interface
import CiWorkflow.Time.Instant

/-!
# Entries

What is known of a reference: the interface of its manifest, whether the manifest could be read, and until when that holds.
-/

namespace CiWorkflow.Resolution

open Time (Instant)

/-- What is known of a reference. -/
structure Entry where
  reference : Reference
  interface : Interface := {}
  /-- whether the manifest could be read -/
  available : Bool := false
  /-- the last instant at which this holds; nothing has been tried yet where there is none -/
  expires : Option Instant := none
  /-- labels, ascending -/
  tags : List String := []
  deriving DecidableEq, Repr

namespace Entry

variable (e : Entry)

/-- An entry of which nothing is known. -/
def fresh (raw : String) : Entry := { reference := Reference.ofText raw }

/-- Whether the entry has outlived its expiry. At that very instant it has not. -/
def isExpired (now : Instant) : Bool := e.expires.any (· < now)

/-- Whether it is time to read the manifest: it could not be read, and what is known of it does not hold any more. -/
def needsResolution (now : Instant) : Bool :=
  e.reference.isResolvable && !e.available && e.expires.all (· < now)

/-- The manifest was read. -/
def resolved (i : Interface) (expires : Instant) : Entry :=
  { e with interface := i, available := true, expires := some expires }

/-- The manifest could not be read. -/
def failed (expires : Instant) : Entry :=
  { e with interface := {}, available := false, expires := some expires }

/-- The entry is given up. What was read stays. -/
def invalidated : Entry := { e with available := false }

def tagged (tag : String) : Entry := { e with tags := Text.insertSorted tag e.tags }

/-- The interface of the entry for a text, among some entries, where its manifest could be read. -/
def interfaceFor? (es : List Entry) (raw : String) : Option Interface :=
  (es.find? fun e => e.reference.raw == raw && e.available).map Entry.interface

@[simp] theorem reference_fresh (raw : String) : (fresh raw).reference = Reference.ofText raw := rfl

@[simp] theorem reference_resolved (i : Interface) (t : Instant) : (e.resolved i t).reference = e.reference := rfl

@[simp] theorem reference_failed (t : Instant) : (e.failed t).reference = e.reference := rfl

@[simp] theorem reference_invalidated : e.invalidated.reference = e.reference := rfl

@[simp] theorem reference_tagged (tag : String) : (e.tagged tag).reference = e.reference := rfl

end Entry

end CiWorkflow.Resolution
