import CiWorkflow.Proofs.Reference.Key
import CiWorkflow.Proofs.Resolution.Finding

/-!
# What a load comes to

The manifest in an answer decides what is known of an entry afterwards, wherever the answer came
from. The answer is a text that is kept and fresh, where there is one, and else what is fetched.
-/

namespace CiWorkflow.Resolution

/-- The manifest in an answer. -/
def manifestIn? (r : Reference) : Except Failure String → Option Outline
  | .ok text => (manifest? r text).toOption
  | .error _ => none

/-- What is asked where the manifest of a reference has to be fetched. -/
def requestFor? (r : Reference) : Option Request :=
  r.location?.map fun l => ⟨if r.isLocal then .project else .repository, l⟩

/-- The manifest that a finding is of. -/
def Finding.outline? : Finding → Option Outline
  | missing => none
  | late o | timely o _ => some o

/-- What an entry is once it is known which manifest it has, if any. -/
def Entry.told (e : Entry) (keep : Retention) (now : Time.Instant) : Option Outline → Entry
  | none => e.failed (now.after keep.failure)
  | some o => e.resolved (Interface.ofDocument o.document e.reference) (now.after keep.success)

@[simp] lemma Entry.reference_told (e : Entry) (keep : Retention) (now : Time.Instant) (m : Option Outline) :
    (e.told keep now m).reference = e.reference := by
  cases m <;> rfl

/-- Being told something twice is being told it once. -/
lemma Entry.told_told (e : Entry) (keep : Retention) (now : Time.Instant) (m : Option Outline) :
    (e.told keep now m).told keep now m = e.told keep now m := by
  cases m <;> rfl

lemma exists_requestFor? {r : Reference} (hr : r.isResolvable = true) : ∃ q, requestFor? r = some q := by
  obtain ⟨l, hl⟩ := Reference.exists_location? hr
  exact ⟨_, by rw [requestFor?, hl]; rfl⟩

lemma isResolvable_of_requestFor? {r : Reference} (hq : requestFor? r = some q) : r.isResolvable = true := by
  unfold requestFor? at hq
  cases hl : r.location? with
  | none => simp [hl] at hq
  | some l => exact Reference.isResolvable_of_location? hl

namespace Cache

variable {c : Cache} {keep : Retention} {h : Nat} {e : Entry}

/-- Where an answer comes from makes no difference to the manifest in it. -/
lemma outline?_finding (he : c.entry? h = some e) (load : Load) (a : Except Failure String) :
    (c.finding h load a).outline? = manifestIn? e.reference a := by
  unfold finding
  simp only [he]
  cases a with
  | error f => rfl
  | ok text =>
    cases hm : manifest? e.reference text with
    | error f => simp [hm, manifestIn?, Finding.outline?, Except.toOption]
    | ok o =>
      simp only [hm, manifestIn?, Except.toOption]
      split <;> rfl

lemma concluded_eq_told (e : Entry) (f : Finding) : c.concluded keep e f = e.told keep c.now f.outline? := by
  cases f <;> rfl

/-- The text in a file that is fresh. -/
lemma freshText?_eq_some_iff {r : Reference} {text : String} :
    c.freshText? keep r = some text ↔ ∃ name written, ContentStore.fileName? r = some name ∧
      c.file? name = some ⟨.text text, written⟩ ∧ written.isYoungerThan c.now keep.success = true := by
  unfold freshText? fileName? file?
  cases hs : c.store with
  | none => simp
  | some s =>
    cases hn : ContentStore.fileName? r with
    | none => simp
    | some name =>
      simp only [Option.isSome_some, if_true, Option.bind_some, Option.some.injEq]
      unfold ContentStore.fresh?
      constructor
      · intro h
        split at h
        · rename_i t written hf
          split at h
          · rename_i hy
            cases h
            exact ⟨name, written, rfl, hf, hy⟩
          · cases h
        · cases h
      · rintro ⟨_, written, rfl, hf, hy⟩
        simp [hf, hy]

/-- An entry that is due is resolved from the text that is kept and fresh, or from what is fetched. -/
lemma plan?_of_due (he : c.entry? h = some e) (hn : e.needsResolution c.now = true) {q : Request}
    (hq : requestFor? e.reference = some q) :
    c.plan? keep h = some (match c.freshText? keep e.reference with
      | some text => .kept text
      | none => .fetch q) := by
  unfold requestFor? at hq
  cases hl : e.reference.location? with
  | none => simp [hl] at hq
  | some l =>
    simp only [hl, Option.map_some, Option.some.injEq] at hq
    subst hq
    simp only [plan?, he, hn, hl, if_true, Option.map_some]
    by_cases hloc : e.reference.isLocal = true
    · have unkept : c.freshText? keep e.reference = none := by
        simp [freshText?, fileName?, ContentStore.fileName?, hloc]
      simp [hloc, unkept]
    · simp only [hloc]
      cases c.freshText? keep e.reference <;> rfl

lemma plan?_of_not_due (hn : ∀ e, c.entry? h = some e → e.needsResolution c.now = false) :
    c.plan? keep h = none := by
  unfold plan?
  cases he : c.entry? h with
  | none => rfl
  | some e => simp [hn e he]

/-- An entry is due, and something is asked for it, or nothing is to be done. -/
lemma due_cases (c : Cache) (h : Nat) :
    (∃ e q, c.entry? h = some e ∧ e.needsResolution c.now = true ∧ requestFor? e.reference = some q) ∨
      ∀ e, c.entry? h = some e → e.needsResolution c.now = false := by
  by_cases due : ∃ e, c.entry? h = some e ∧ e.needsResolution c.now = true
  · obtain ⟨e, he, hn⟩ := due
    have resolvable : e.reference.isResolvable = true := by
      simp only [Entry.needsResolution, Bool.and_eq_true] at hn
      exact hn.1.1
    obtain ⟨q, hq⟩ := exists_requestFor? resolvable
    exact Or.inl ⟨e, q, he, hn, hq⟩
  · refine Or.inr fun e he => ?_
    simpa using fun hn => due ⟨e, he, hn⟩

end Cache

end CiWorkflow.Resolution
