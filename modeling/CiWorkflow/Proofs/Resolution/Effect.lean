import CiWorkflow.Resolution.Resolve
import Mathlib.Tactic.Lemma

/-!
# What the operations on a cache change

Each operation is described by the entry of every handle, the slot of every text, the outline of
every key and the file of every name, so that later proofs need not open it.
-/

namespace CiWorkflow.Resolution

namespace Cache

variable (c : Cache)

/-! ### Views -/

/-- What an entry refers to. -/
def reference? (h : Nat) : Option Reference := (c.entry? h).map Entry.reference

/-- The file of kept content that has a name. -/
def file? (name : String) : Option ContentFile := c.store.bind fun s => s.get? name

lemma reference?_of_some {c : Cache} {h : Nat} {e : Entry} (he : c.entry? h = some e) :
    c.reference? h = some e.reference := by
  simp [reference?, he]

lemma entry?_of_reference? {c : Cache} {h : Nat} {r : Reference} (hr : c.reference? h = some r) :
    ∃ e, c.entry? h = some e ∧ e.reference = r := by
  simpa [reference?] using hr

/-- An entry is stored where the slot of its text holds its handle. -/
lemma isCurrent_iff {h : Nat} :
    c.isCurrent h = true ↔ ∃ e, c.entry? h = some e ∧ c.get? e.reference.raw = some h := by
  unfold isCurrent
  cases c.entry? h <;> simp

lemma isCurrent_iff_of_some {c : Cache} {h : Nat} {e : Entry} (he : c.entry? h = some e) :
    c.isCurrent h = true ↔ c.get? e.reference.raw = some h := by
  simp [isCurrent, he]

/-- Of the entries of one text only one is stored. -/
lemma eq_of_isCurrent {c : Cache} {h k : Nat} {e d : Entry} (he : c.entry? h = some e)
    (hd : c.entry? k = some d)
    (hh : c.isCurrent h = true) (hk : c.isCurrent k = true) (hr : e.reference.raw = d.reference.raw) : h = k := by
  rw [isCurrent_iff_of_some he, hr] at hh
  rw [isCurrent_iff_of_some hd, hh] at hk
  exact Option.some.inj hk

lemma isCurrent_congr {c c' : Cache} {h : Nat} (hr : c'.reference? h = c.reference? h)
    (hs : c'.slots = c.slots) :
    c'.isCurrent h = c.isCurrent h := by
  unfold isCurrent get?
  rw [hs]
  unfold reference? at hr
  cases he : c.entry? h <;> cases he' : c'.entry? h <;> simp_all

lemma outline?_eq_some_iff {h : Nat} {o : Outline} :
    c.outline? h = some o ↔
      ∃ e, c.entry? h = some e ∧ e.available = true ∧ c.outlines.get? e.reference.contentKey = some o := by
  unfold outline?
  cases c.entry? h with
  | none => simp
  | some e => cases e.available <;> simp

lemma outline?_of_some {c : Cache} {h : Nat} {e : Entry} (he : c.entry? h = some e)
    (ha : e.available = true) :
    c.outline? h = c.outlines.get? e.reference.contentKey := by
  simp [outline?, he, ha]

lemma outline?_of_not_available {c : Cache} {h : Nat} {e : Entry} (he : c.entry? h = some e)
    (ha : e.available = false) : c.outline? h = none := by
  simp [outline?, he, ha]

/-- What an entry shows depends on nothing but the entry and the outlines. -/
lemma outline?_congr {c c' : Cache} {h : Nat} (he : c'.entry? h = c.entry? h)
    (ho : c'.outlines = c.outlines) :
    c'.outline? h = c.outline? h := by
  unfold outline?
  rw [he, ho]

/-! ### Changing one entry -/

section modifyEntry

variable (h : Nat) (f : Entry → Entry)

@[simp] lemma now_modifyEntry : (c.modifyEntry h f).now = c.now := rfl
@[simp] lemma slots_modifyEntry : (c.modifyEntry h f).slots = c.slots := rfl
@[simp] lemma outlines_modifyEntry : (c.modifyEntry h f).outlines = c.outlines := rfl
@[simp] lemma store_modifyEntry : (c.modifyEntry h f).store = c.store := rfl

@[simp] lemma size_modifyEntry :
    (c.modifyEntry h f).entries.size = c.entries.size := by
  simp [modifyEntry]

lemma entry?_modifyEntry (k : Nat) :
    Cache.entry? (c.modifyEntry h f) k = if h = k then (c.entry? k).map f else c.entry? k := by
  simp [modifyEntry, entry?, Array.getElem?_modify]

@[simp] lemma entry?_modifyEntry_self : Cache.entry? (c.modifyEntry h f) h = (c.entry? h).map f := by
  simp [entry?_modifyEntry]

lemma entry?_modifyEntry_of_ne {k : Nat} (hk : k ≠ h) :
    Cache.entry? (c.modifyEntry h f) k = c.entry? k := by
  simp [entry?_modifyEntry, hk.symm]

end modifyEntry

/-! ### Giving up an entry -/

section detach

variable (r : Reference) (h : Nat)

@[simp] lemma now_dropFile : (c.dropFile r).now = c.now := by unfold dropFile; split <;> rfl
@[simp] lemma entries_dropFile : (c.dropFile r).entries = c.entries := by unfold dropFile; split <;> rfl
@[simp] lemma slots_dropFile : (c.dropFile r).slots = c.slots := by unfold dropFile; split <;> rfl
@[simp] lemma outlines_dropFile :
    (c.dropFile r).outlines = c.outlines := by
  unfold dropFile; split <;> rfl

@[simp] lemma entry?_dropFile (k : Nat) :
    Cache.entry? (c.dropFile r) k = c.entry? k := by
  simp [Cache.entry?]

lemma file?_dropFile (name : String) :
    (c.dropFile r).file? name = if ContentStore.fileName? r = some name then none else c.file? name := by
  unfold dropFile file?
  cases hn : ContentStore.fileName? r with
  | none => simp
  | some n =>
    cases hs : c.store with
    | none => simp
    | some s => by_cases hj : name = n <;> simp [hj, eq_comm]

@[simp] lemma now_detach : (c.detach h).now = c.now := by unfold detach; split <;> simp
@[simp] lemma slots_detach : (c.detach h).slots = c.slots := by unfold detach; split <;> simp

@[simp] lemma size_detach : (c.detach h).entries.size = c.entries.size := by
  unfold detach modifyEntry; split <;> simp

@[simp] lemma isSome_store_detach : (c.detach h).store.isSome = c.store.isSome := by
  unfold detach dropFile
  split
  · rfl
  · split <;> simp

lemma detach_of_some {c : Cache} {h : Nat} {e : Entry} (he : c.entry? h = some e) :
    c.detach h = Cache.dropFile
      { c.modifyEntry h Entry.invalidated with outlines := c.outlines.erase e.reference.contentKey }
      e.reference := by
  simp [detach, he]

lemma entry?_detach (k : Nat) :
    Cache.entry? (c.detach h) k = if h = k then (c.entry? k).map Entry.invalidated else c.entry? k := by
  rw [← entry?_modifyEntry]
  cases he : c.entry? h with
  | none =>
    rw [entry?_modifyEntry, show c.detach h = c by simp [detach, he]]
    by_cases hk : h = k
    · subst hk; simp [he]
    · simp [hk]
  | some e => rw [detach_of_some he, entry?_dropFile]; rfl

lemma entry?_detach_of_ne {k : Nat} (hk : k ≠ h) : Cache.entry? (c.detach h) k = c.entry? k := by
  simp [entry?_detach, hk.symm]

lemma get?_outlines_detach {c : Cache} {h : Nat} {e : Entry} (he : c.entry? h = some e) (key : String) :
    (c.detach h).outlines.get? key = if key = e.reference.contentKey then none else c.outlines.get? key := by
  simp [detach_of_some he]

lemma file?_detach {c : Cache} {h : Nat} {e : Entry} (he : c.entry? h = some e) (name : String) :
    (c.detach h).file? name = if ContentStore.fileName? e.reference = some name then none else c.file? name := by
  rw [detach_of_some he, file?_dropFile]
  rfl

end detach

/-! ### Making and finding entries -/

section create

variable (raw : String)

@[simp] lemma store_create : (c.create raw).2.store = c.store := rfl
@[simp] lemma fst_create : (c.create raw).1 = c.entries.size := rfl

lemma entry?_create (k : Nat) :
    Cache.entry? (c.create raw).2 k = if k = c.entries.size then some (Entry.fresh raw) else c.entry? k := by
  simp [create, entry?, Array.getElem?_push]

lemma get?_create (t : String) :
    (c.create raw).2.get? t = if t = raw then some c.entries.size else c.get? t := by
  simp [create, get?]

lemma lt_size_of_some {c : Cache} {k : Nat} {e : Entry} (he : c.entry? k = some e) :
    k < c.entries.size := by
  unfold entry? at he
  obtain ⟨hk, -⟩ := Array.getElem?_eq_some_iff.mp he
  exact hk

lemma entry?_create_of_some {c : Cache} {k : Nat} {e : Entry} (he : c.entry? k = some e) :
    Cache.entry? (c.create raw).2 k = some e := by
  rw [entry?_create, if_neg (Nat.ne_of_lt (lt_size_of_some he)), he]

/-- Looking up a text finds the stored entry, makes a new one, or gives up the stored one for a new
one. -/
lemma getOrCreate_cases :
    (∃ h, c.get? raw = some h ∧ (∀ e, c.entry? h = some e → e.isExpired c.now = false) ∧
        c.getOrCreate raw = (h, c)) ∨
      (c.get? raw = none ∧ c.getOrCreate raw = c.create raw) ∨
        ∃ h, c.get? raw = some h ∧ (∀ e, c.entry? h = some e → e.isExpired c.now = true) ∧
          c.getOrCreate raw = (c.detach h).create raw := by
  unfold getOrCreate
  cases hs : c.get? raw with
  | none => exact Or.inr (Or.inl ⟨rfl, rfl⟩)
  | some h =>
    cases he : c.entry? h with
    | none => exact Or.inr (Or.inr ⟨h, rfl, by simp [he], by simp [he]⟩)
    | some e =>
      by_cases hx : e.isExpired c.now = true
      · exact Or.inr (Or.inr ⟨h, rfl, by simp [he, hx], by simp [he, hx]⟩)
      · exact Or.inl ⟨h, rfl, by simpa [he] using hx, by simp [he, hx]⟩

lemma getOrCreate_of_none {c : Cache} {raw : String} (hs : c.get? raw = none) :
    c.getOrCreate raw = c.create raw := by
  simp [getOrCreate, hs]

end create

/-- Deleting an entry gives it up, with its slot where that is its own; where the slot is another
one's, the entry only stops being available. -/
lemma delete_cases {h : Nat} {e : Entry} (he : c.entry? h = some e) :
    (c.get? e.reference.raw = some h ∧ c.delete h = { c.detach h with slots := c.slots.erase e.reference.raw }) ∨
      (c.get? e.reference.raw = none ∧ c.delete h = c.detach h) ∨
        ((∃ k, k ≠ h ∧ c.get? e.reference.raw = some k) ∧ c.delete h = c.modifyEntry h Entry.invalidated) := by
  unfold delete
  simp only [he]
  cases hs : c.get? e.reference.raw with
  | none => exact Or.inr (Or.inl ⟨rfl, rfl⟩)
  | some k =>
    by_cases hk : k = h
    · subst hk; exact Or.inl ⟨rfl, by simp⟩
    · exact Or.inr (Or.inr ⟨⟨k, hk, rfl⟩, by simp [hk]⟩)

lemma delete_of_isCurrent {c : Cache} {h : Nat} {e : Entry} (he : c.entry? h = some e)
    (hs : c.get? e.reference.raw = some h) :
    c.delete h = { c.detach h with slots := c.slots.erase e.reference.raw } := by
  simp [delete, he, hs]

section deleteStored

variable {c : Cache} {h : Nat} {e : Entry} (he : c.entry? h = some e) (hs : c.get? e.reference.raw = some h)

include he hs

lemma get?_delete_of_isCurrent (raw : String) :
    (c.delete h).get? raw = if raw = e.reference.raw then none else c.get? raw := by
  rw [delete_of_isCurrent he hs]
  exact NamedCache.get?_erase _ _ _

lemma entry?_delete_of_isCurrent {k : Nat} (hk : k ≠ h) : Cache.entry? (c.delete h) k = c.entry? k := by
  rw [delete_of_isCurrent he hs]
  exact c.entry?_detach_of_ne h hk

lemma entry?_delete_self_of_isCurrent : Cache.entry? (c.delete h) h = some e.invalidated := by
  rw [delete_of_isCurrent he hs]
  refine (c.entry?_detach h h).trans ?_
  rw [if_pos rfl, he]
  rfl

lemma get?_outlines_delete_of_isCurrent (key : String) :
    (c.delete h).outlines.get? key = if key = e.reference.contentKey then none else c.outlines.get? key := by
  rw [delete_of_isCurrent he hs]
  exact get?_outlines_detach he key

lemma isSome_store_delete_of_isCurrent : (c.delete h).store.isSome = c.store.isSome := by
  rw [delete_of_isCurrent he hs]
  exact c.isSome_store_detach h

end deleteStored

lemma delete_of_entry?_eq_none {c : Cache} {h : Nat} (he : c.entry? h = none) : c.delete h = c := by
  simp [delete, he]

/-! ### Noting what an answer comes to -/

section conclude

variable (keep : Retention) (h : Nat)

section publish

variable (r : Reference) (o : Outline) (text : Option String)

@[simp] lemma now_publish : (c.publish r o text).now = c.now := rfl
@[simp] lemma entries_publish : (c.publish r o text).entries = c.entries := rfl
@[simp] lemma slots_publish : (c.publish r o text).slots = c.slots := rfl
@[simp] lemma entry?_publish (k : Nat) : Cache.entry? (c.publish r o text) k = c.entry? k := rfl

@[simp] lemma get?_outlines_publish (key : String) :
    (c.publish r o text).outlines.get? key = if key = r.contentKey then some o else c.outlines.get? key := by
  simp [publish]

@[simp] lemma isSome_store_publish : (c.publish r o text).store.isSome = c.store.isSome := by
  unfold publish
  dsimp only
  split
  · simp
  · rfl

lemma file?_publish {name : String} (hn : ContentStore.fileName? r ≠ some name) :
    (c.publish r o text).file? name = c.file? name := by
  have hf : c.fileName? r ≠ some name := by
    unfold fileName?
    split
    · exact hn
    · simp
  unfold publish file?
  dsimp only
  split
  · rename_i t n hj
    have hne : name ≠ n := by rintro rfl; exact hf hj
    cases c.store with
    | none => rfl
    | some s =>
      simp only [Option.map_some, Option.bind_some, ContentStore.write]
      split
      · simp [hne]
      · rfl
  · rfl

end publish

@[simp] lemma now_conclude (f : Finding) : (c.conclude keep h f).now = c.now := by
  cases f <;> simp only [conclude, noteFailure, noteManifest, now_modifyEntry]
  split <;> simp

@[simp] lemma slots_conclude (f : Finding) : (c.conclude keep h f).slots = c.slots := by
  cases f <;> simp only [conclude, noteFailure, noteManifest, slots_modifyEntry]
  split <;> simp

@[simp] lemma size_conclude (f : Finding) : (c.conclude keep h f).entries.size = c.entries.size := by
  cases f <;> simp only [conclude, noteFailure, noteManifest, size_modifyEntry]
  split <;> simp

lemma entry?_conclude_of_ne (f : Finding) {k : Nat} (hk : k ≠ h) :
    Cache.entry? (c.conclude keep h f) k = c.entry? k := by
  cases f <;> simp only [conclude, noteFailure, noteManifest, entry?_modifyEntry_of_ne _ _ _ hk]
  split
  · rfl
  · rw [entry?_modifyEntry_of_ne _ _ _ hk, entry?_publish]

@[simp] lemma isSome_store_conclude (f : Finding) :
    (c.conclude keep h f).store.isSome = c.store.isSome := by
  cases f <;> simp only [conclude, noteFailure, noteManifest, store_modifyEntry]
  split <;> simp

/-- What an entry is once a finding of it is noted. -/
def concluded (e : Entry) : Finding → Entry
  | .missing => e.failed (c.now.after keep.failure)
  | .late o | .timely o _ => e.resolved (Interface.ofDocument o.document e.reference) (c.now.after keep.success)

lemma entry?_conclude {c : Cache} {h : Nat} {e : Entry} (he : c.entry? h = some e) (f : Finding) :
    Cache.entry? (c.conclude keep h f) h = some (c.concluded keep e f) := by
  cases f <;> simp [conclude, noteFailure, noteManifest, he, concluded]

@[simp] lemma reference_concluded (e : Entry) (f : Finding) :
    (c.concluded keep e f).reference = e.reference := by
  cases f <;> rfl

lemma exists_entry_of_conclude_timely {c : Cache} {h : Nat} {e : Entry} (he : c.entry? h = some e)
    (o : Outline)
    (text : Option String) :
    ∃ d, Cache.entry? (c.conclude keep h (.timely o text)) h = some d ∧ d.reference = e.reference ∧
      d.available = true ∧ d.interface = Interface.ofDocument o.document e.reference :=
  ⟨_, entry?_conclude keep he _, rfl, rfl, rfl⟩

@[simp] lemma reference?_conclude (f : Finding) (k : Nat) :
    (c.conclude keep h f).reference? k = c.reference? k := by
  by_cases hk : k = h
  · subst hk
    cases he : c.entry? k with
    | some e => simp [reference?, entry?_conclude keep he, he]
    | none => cases f <;> simp [reference?, conclude, noteFailure, noteManifest, he]
  · unfold reference?
    rw [entry?_conclude_of_ne c keep h f hk]

@[simp] lemma isCurrent_conclude (f : Finding) (k : Nat) :
    (c.conclude keep h f).isCurrent k = c.isCurrent k :=
  isCurrent_congr (c.reference?_conclude keep h f k) (c.slots_conclude keep h f)

lemma get?_outlines_conclude_timely {c : Cache} {h : Nat} {e : Entry} (he : c.entry? h = some e)
    (o : Outline)
    (text : Option String) (key : String) :
    (c.conclude keep h (.timely o text)).outlines.get? key =
      if key = e.reference.contentKey then some o else c.outlines.get? key := by
  simp [conclude, he, noteManifest]

lemma file?_conclude_timely {c : Cache} {h : Nat} {e : Entry} (he : c.entry? h = some e) (o : Outline)
    (text : Option String) {name : String} (hn : ContentStore.fileName? e.reference ≠ some name) :
    (c.conclude keep h (.timely o text)).file? name = c.file? name := by
  rw [← file?_publish c e.reference o text hn]
  simp [conclude, he, noteManifest, file?]

end conclude

end Cache

end CiWorkflow.Resolution
