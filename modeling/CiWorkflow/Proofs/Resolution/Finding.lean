import CiWorkflow.Proofs.Resolution.Effect
import Mathlib

/-!
# Plans and findings

When a manifest has to be read and where its text comes from, and what an answer comes to. Only an
entry that is not available is planned for, and only a stored entry's manifest is published.
-/

namespace CiWorkflow.Resolution

/-! ### Manifests -/

lemma manifest?_of_document (r : Reference) {text : String} {d : Tree.Document}
    (hb : Text.allBlank text.toList = false)
    (hd : Tree.Document.ofManifest text = .ok d) : manifest? r text = .ok (Outline.ofDocument d) := by
  simp [manifest?, hb, hd]

/-- The inputs that the text of a manifest declares for an action. -/
def actionInputs? (text : String) : Option Parameters :=
  match Tree.Document.ofManifest text with
  | .ok d => some (Interface.parameters d false "inputs")
  | .error _ => none

lemma exists_manifest? {text : String} {ps : Parameters} (hb : Text.allBlank text.toList = false)
    (hp : actionInputs? text = some ps) :
    ∃ o, (∀ r, manifest? r text = .ok o) ∧
      ∀ r, r.isWorkflow = false → (Interface.ofDocument o.document r).inputs = ps := by
  unfold actionInputs? at hp
  split at hp
  · rename_i d hd
    cases hp
    refine ⟨Outline.ofDocument d, fun r => manifest?_of_document r hb hd, fun r hr => ?_⟩
    simp only [Interface.ofDocument, Outline.ofDocument, hr]
  · cases hp

set_option maxRecDepth 10000 in
lemma actionInputs?_none : actionInputs? "inputs:" = some [] := by cbv

set_option maxRecDepth 10000 in
lemma actionInputs?_one : actionInputs? "inputs:\n a:" = some [("a", "")] := by cbv

namespace Cache

variable {c : Cache} {keep : Retention} {h : Nat} {e : Entry} {load : Load} {answer : Except Failure String}

/-! ### Plans -/

/-- Something is planned only for an entry that is not available and can be resolved. -/
lemma exists_of_plan? (hp : c.plan? keep h = some load) :
    ∃ e, c.entry? h = some e ∧ e.available = false ∧ e.reference.isResolvable = true := by
  unfold plan? at hp
  cases he : c.entry? h with
  | none => simp [he] at hp
  | some e =>
    simp only [he] at hp
    split at hp
    · rename_i hn
      simp only [Entry.needsResolution, Bool.and_eq_true, Bool.not_eq_true'] at hn
      exact ⟨e, rfl, hn.1.2, hn.1.1⟩
    · cases hp

/-- No text is fresh for a reference whose file is not there. -/
lemma freshText?_eq_none {r : Reference} (hf : ∀ name, ContentStore.fileName? r = some name → c.file? name = none) :
    c.freshText? keep r = none := by
  unfold freshText?
  cases hn : c.fileName? r with
  | none => rfl
  | some name =>
    cases hs : c.store with
    | none => rfl
    | some s =>
      have named : ContentStore.fileName? r = some name := by simpa [fileName?, hs] using hn
      have gone : s.get? name = none := by simpa [file?, hs] using hf name named
      simp [ContentStore.fresh?, gone]

/-- Where its file is not there, what is due is fetched. -/
lemma plan?_of_no_file (he : c.entry? h = some e) (hn : e.needsResolution c.now = true) {l : String}
    (hl : e.reference.location? = some l)
    (hf : ∀ name, ContentStore.fileName? e.reference = some name → c.file? name = none) :
    c.plan? keep h = some (.fetch ⟨if e.reference.isLocal then .project else .repository, l⟩) := by
  simp only [plan?, he, hn, hl, freshText?_eq_none hf, if_true, Option.map_some]
  split <;> rfl

/-- An entry that was just made is due. -/
lemma needsResolution_fresh {raw : String} (hr : (Reference.ofText raw).isResolvable = true)
    (now : Time.Instant) :
    (Entry.fresh raw).needsResolution now = true := by
  simp [Entry.needsResolution, Entry.fresh, hr]

/-! ### Findings -/

/-- A manifest that could be read is timely for an entry that is stored. -/
lemma finding_of_manifest? {text : String} {o : Outline} (he : c.entry? h = some e)
    (hm : manifest? e.reference text = .ok o) (hc : c.isCurrent h = true) :
    c.finding h load (.ok text) =
      .timely o (if load.isKeepable && (c.fileName? e.reference).isSome then some text else none) := by
  simp [finding, he, hm, hc]

/-- What is fetched from a repository for a stored entry is to be written where content is kept. -/
lemma finding_of_fetched {text location : String} {o : Outline} (he : c.entry? h = some e)
    (hm : manifest? e.reference text = .ok o) (hc : c.isCurrent h = true) (hs : c.store.isSome = true)
    (hl : e.reference.isLocal = false) (hr : e.reference.isResolvable = true) :
    c.finding h (.fetch ⟨.repository, location⟩) (.ok text) = .timely o (some text) := by
  have named : (c.fileName? e.reference).isSome = true := by simp [fileName?, ContentStore.fileName?, hs, hl, hr]
  rw [finding_of_manifest? he hm hc, named]
  rfl

lemma isCurrent_of_finding {o : Outline} {text : Option String}
    (hf : c.finding h load answer = .timely o text) :
    c.isCurrent h = true := by
  unfold finding at hf
  split at hf
  · split at hf
    · cases hf
    · split at hf
      · assumption
      · cases hf
  · cases hf

lemma isCurrent_eq_false_of_finding {o : Outline} (hf : c.finding h load answer = .late o) :
    c.isCurrent h = false := by
  unfold finding at hf
  split at hf
  · split at hf
    · cases hf
    · split at hf
      · cases hf
      · rename_i hc; simpa using hc
  · cases hf

end Cache

lemma Finding.eq_timely_of_isWriting {f : Finding} (hw : f.isWriting = true) :
    ∃ o text, f = .timely o (some text) := by
  cases f with
  | timely o text =>
    cases text with
    | some t => exact ⟨o, t, rfl⟩
    | none => cases hw
  | missing => cases hw
  | late o => cases hw

end CiWorkflow.Resolution
