import CiWorkflow.Proofs.Resolution.Outcome
import CiWorkflow.Proofs.Resolution.Program

/-!
# Damaged files

The file of a reference can hold something that is no manifest. Bytes that are no text are passed
over, and the manifest is fetched. A text is taken for the answer whatever it says, so where it is
no manifest the entry fails, and nothing is fetched.
-/

namespace CiWorkflow.Resolution

namespace Cache

/-- What callers see of an entry: whether it is available, and its interface. -/
def shown? (c : Cache) (h : Nat) : Option (Bool × Interface) :=
  (c.entry? h).map fun e => (e.available, e.interface)

/-- The file of a reference is fresh, and there is no manifest in it. -/
structure Damaged (c : Cache) (keep : Retention) (r : Reference) (f : ContentFile) : Prop where
  kept : ∃ name, ContentStore.fileName? r = some name ∧ c.file? name = some f
  fresh : f.written.isYoungerThan c.now keep.success = true
  unusable : ∀ text, f.content = .text text → manifestIn? r (.ok text) = none

end Cache

/-- What callers see of an entry once it is known which manifest it has, if any. -/
def shownOf (r : Reference) : Option Outline → Bool × Interface
  | none => (false, {})
  | some o => (true, Interface.ofDocument o.document r)

lemma shownOf_eq_iff {r : Reference} {m : Option Outline} : shownOf r m = shownOf r none ↔ m = none := by
  cases m <;> simp [shownOf]

section

variable {c : Cache} {keep : Retention} {h : Nat} {e : Entry} {q : Request} {f : ContentFile} {name : String}

/-- Resolving shows the manifest in the answer, whatever callers do in the meantime. -/
lemma shown?_resolve (he : c.entry? h = some e) {load : Load} (hp : c.plan? keep h = some load)
    (reply : Reply) :
    (Op.run keep c (.resolve reply h)).shown? h =
      some (shownOf e.reference (manifestIn? e.reference (reply.answer load))) := by
  obtain ⟨d, hd, hw⟩ := Action.exists_worn_applyAll he (reply.acts load)
  rw [run_resolve_of_some reply hp, Cache.settle, Cache.shown?, Cache.entry?_conclude keep hd,
    Cache.concluded_eq_told, Cache.outline?_finding hd, hw.reference, Option.map_some, Option.some_inj]
  cases manifestIn? e.reference (reply.answer load) with
  | none => rfl
  | some o =>
    have own : (d.told keep (Action.applyAll c (reply.acts load)).now (some o)).interface =
        Interface.ofDocument o.document d.reference := rfl
    rw [own, hw.reference]
    rfl

lemma shown?_resolve_of_text (he : c.entry? h = some e) (hn : e.needsResolution c.now = true)
    (hq : requestFor? e.reference = some q) (hd : c.Damaged keep e.reference f) {text : String}
    (ht : f.content = .text text) (reply : Reply) :
    (Op.run keep c (.resolve reply h)).shown? h = some (shownOf e.reference none) := by
  obtain ⟨name, hname, hf⟩ := hd.kept
  have fresh : c.freshText? keep e.reference = some text := by
    rw [Cache.freshText?_eq_some_iff]
    exact ⟨name, f.written, hname, by rw [hf, ← ht], hd.fresh⟩
  have plan : c.plan? keep h = some (.kept text) := by rw [Cache.plan?_of_due he hn hq, fresh]
  rw [shown?_resolve he plan reply]
  have answered : reply.answer (.kept text) = .ok text := rfl
  rw [answered, hd.unusable text ht]

lemma shown?_resolve_of_no_text (he : c.entry? h = some e) (hn : e.needsResolution c.now = true)
    (hq : requestFor? e.reference = some q)
    (hf : ∀ name text written, ContentStore.fileName? e.reference = some name →
      c.file? name ≠ some ⟨.text text, written⟩)
    (reply : Reply) :
    (Op.run keep c (.resolve reply h)).shown? h =
      some (shownOf e.reference (manifestIn? e.reference (reply q).2)) := by
  have unkept : c.freshText? keep e.reference = none := by
    rw [Option.eq_none_iff_forall_not_mem]
    intro text htext
    obtain ⟨name, written, hname, hfile, -⟩ := Cache.freshText?_eq_some_iff.mp htext
    exact hf name text written hname hfile
  have plan : c.plan? keep h = some (.fetch q) := by rw [Cache.plan?_of_due he hn hq, unkept]
  exact shown?_resolve he plan reply

/-- A reference whose file holds nothing that can be used is resolved as if there were no such file
exactly when the file holds no text or there is no manifest to be fetched; and its entry becomes
available exactly when the file holds no text and there is one. -/
theorem damaged_file_harmless_iff (he : c.entry? h = some e) (hn : e.needsResolution c.now = true)
    (hq : requestFor? e.reference = some q) (hd : c.Damaged keep e.reference f) (reply : Reply) :
    let shown := (Op.run keep c (.resolve reply h)).shown? h
    (shown = (Op.run keep (c.dropFile e.reference) (.resolve reply h)).shown? h ↔
        f.content = .bytes ∨ manifestIn? e.reference (reply q).2 = none) ∧
      ((∃ i, shown = some (true, i)) ↔ f.content = .bytes ∧ manifestIn? e.reference (reply q).2 ≠ none) := by
  intro shown
  have absent : (Op.run keep (c.dropFile e.reference) (.resolve reply h)).shown? h =
      some (shownOf e.reference (manifestIn? e.reference (reply q).2)) := by
    refine shown?_resolve_of_no_text (by rwa [Cache.entry?_dropFile]) (by rwa [Cache.now_dropFile]) hq ?_ reply
    intro name text written hname
    rw [Cache.file?_dropFile, if_pos hname]
    simp
  rw [absent]
  cases hf : f.content with
  | text t =>
    have failed : shown = some (shownOf e.reference none) := shown?_resolve_of_text he hn hq hd hf reply
    rw [failed, Option.some_inj, eq_comm, shownOf_eq_iff]
    simp [shownOf]
  | bytes =>
    have fetched : shown = some (shownOf e.reference (manifestIn? e.reference (reply q).2)) := by
      obtain ⟨name, hname, hfile⟩ := hd.kept
      refine shown?_resolve_of_no_text he hn hq (fun name' text written hname' hfile' => ?_) reply
      rw [hname] at hname'
      cases hname'
      rw [hfile] at hfile'
      cases hfile'
      cases hf
    rw [fetched]
    cases manifestIn? e.reference (reply q).2 <;> simp [shownOf]

end

/-! ### A blank file -/

/-- Nothing is stored, and the file of a text holds something. -/
def keeping (raw : String) (content : Files.Content) : Cache :=
  let name := (Reference.ofText raw).contentKey ++ "." ++ ContentStore.extension
  { now := ⟨0⟩, store := some ⟨[(name, ⟨content, ⟨0⟩⟩)]⟩ }

lemma exists_file?_keeping {raw : String} (hl : (Reference.ofText raw).isLocal = false)
    (hr : (Reference.ofText raw).isResolvable = true) (content : Files.Content) :
    ∃ name, ContentStore.fileName? (Reference.ofText raw) = some name ∧
      (keeping raw content).file? name = some ⟨content, ⟨0⟩⟩ := by
  refine ⟨(Reference.ofText raw).contentKey ++ "." ++ ContentStore.extension, ?_, ?_⟩
  · simp [ContentStore.fileName?, hl, hr]
  · simp [Cache.file?, keeping, NamedCache.get?]

lemma damaged_keeping {raw : String} {content : Files.Content} (hl : (Reference.ofText raw).isLocal = false)
    (hr : (Reference.ofText raw).isResolvable = true)
    (hu : ∀ text, content = .text text → manifestIn? (Reference.ofText raw) (.ok text) = none) :
    Cache.Damaged ((keeping raw content).create raw).2 {} (Reference.ofText raw) ⟨content, ⟨0⟩⟩ := by
  have young : Time.Instant.isYoungerThan ⟨0⟩ ⟨0⟩ 86400 = true := by decide
  exact ⟨exists_file?_keeping hl hr content, young, hu⟩

/-- A file of bytes that are no text is harmless: what the repository serves makes the entry
available. -/
theorem harmless_bytes :
    let c := ((keeping "o/a@v1" .bytes).create "o/a@v1").2
    ∃ i, (Op.run {} c (.resolve (Reply.always "inputs:") 0)).shown? 0 = some (true, i) := by
  intro c
  obtain ⟨o, ho, -⟩ := exists_manifest? (by decide) actionInputs?_none
  obtain ⟨q, hq⟩ := exists_requestFor? (r := Reference.ofText "o/a@v1") (by decide)
  have made : c.entry? 0 = some (Entry.fresh "o/a@v1") := Cache.entry?_create _ "o/a@v1" 0
  have damaged : c.Damaged {} (Reference.ofText "o/a@v1") ⟨.bytes, ⟨0⟩⟩ :=
    damaged_keeping (by decide) (by decide) (fun text ht => by cases ht)
  have served : manifestIn? (Reference.ofText "o/a@v1") (Reply.always "inputs:" q).2 = some o := by
    show (manifest? (Reference.ofText "o/a@v1") "inputs:").toOption = some o
    rw [ho]
    rfl
  refine (damaged_file_harmless_iff made (Cache.needsResolution_fresh (by decide) _) hq damaged _).2.mpr ⟨rfl, ?_⟩
  rw [Entry.reference_fresh, served]
  exact Option.some_ne_none o

/-- A blank file makes an action unavailable that the repository serves. -/
theorem not_harmless_blank_file :
    let calls := [Op.resolveText (Reply.always "inputs:") "o/a@v1"]
    (Op.runAll {} (keeping "o/a@v1" (.text " ")) calls).shown? 0 ≠
      (Op.runAll {} { now := ⟨0⟩, store := some {} } calls).shown? 0 := by
  intro calls
  obtain ⟨o, ho, -⟩ := exists_manifest? (by decide) actionInputs?_none
  obtain ⟨q, hq⟩ := exists_requestFor? (r := Reference.ofText "o/a@v1") (by decide)
  have due (now : Time.Instant) : (Entry.fresh "o/a@v1").needsResolution now = true :=
    Cache.needsResolution_fresh (by decide) now
  have blank : manifestIn? (Reference.ofText "o/a@v1") (.ok " ") = none := by decide
  have damaged : Cache.Damaged ((keeping "o/a@v1" (.text " ")).create "o/a@v1").2 {} (Reference.ofText "o/a@v1")
      ⟨.text " ", ⟨0⟩⟩ := by
    refine damaged_keeping (by decide) (by decide) fun text ht => ?_
    cases ht
    exact blank
  have failed : (Op.runAll {} (keeping "o/a@v1" (.text " ")) calls).shown? 0 =
      some (shownOf (Reference.ofText "o/a@v1") none) := by
    rw [Op.runAll_cons, Op.runAll_nil, run_resolveText, Cache.getOrCreate_of_none rfl]
    exact shown?_resolve_of_text (Cache.entry?_create _ "o/a@v1" 0) (due _) hq damaged rfl _
  have read : (Op.runAll {} { now := ⟨0⟩, store := some {} } calls).shown? 0 =
      some (shownOf (Reference.ofText "o/a@v1") (some o)) := by
    have served : manifestIn? (Reference.ofText "o/a@v1") (Reply.always "inputs:" q).2 = some o := by
      show (manifest? (Reference.ofText "o/a@v1") "inputs:").toOption = some o
      rw [ho]
      rfl
    have absent (name text : String) (written : Time.Instant) :
        Cache.file? (Cache.create { now := ⟨0⟩, store := some {} } "o/a@v1").2 name ≠ some ⟨.text text, written⟩ := by
      intro hf
      cases hf
    rw [Op.runAll_cons, Op.runAll_nil, run_resolveText, Cache.getOrCreate_of_none rfl, ← served]
    refine shown?_resolve_of_no_text (Cache.entry?_create _ "o/a@v1" 0) (due _) hq (fun name text written _ => ?_) _
    exact absent name text written
  rw [failed, read, Ne, Option.some_inj, eq_comm, shownOf_eq_iff]
  exact Option.some_ne_none o

end CiWorkflow.Resolution
