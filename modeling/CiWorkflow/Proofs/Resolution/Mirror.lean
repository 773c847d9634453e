import CiWorkflow.Proofs.Resolution.Outcome
import CiWorkflow.Proofs.Resolution.Separation

/-!
# Files that mirror a source

Where what is found at each location does not change, and nobody else writes to the directory, each
file holds what is found for every text that has the file, and that is a manifest.
-/

namespace CiWorkflow.Resolution

/-- What is found at each location. It does not change. -/
abbrev Source := Request → Except Failure String

namespace Source

variable (src : Source)

/-- The manifest that is found for a reference. -/
def manifest? (r : Reference) : Option Outline := (requestFor? r).bind fun q => manifestIn? r (src q)

variable {src}

lemma manifest?_of_request {r : Reference} {q : Request} (hq : requestFor? r = some q) :
    src.manifest? r = manifestIn? r (src q) := by
  rw [manifest?, hq]
  rfl

end Source

/-- What is asked for a text depends on nothing but what the text names. -/
lemma requestFor?_congr {r s : Reference} (h : r.target = s.target) : requestFor? r = requestFor? s := by
  unfold requestFor? Reference.location? Reference.rawUrl? Reference.isLocal Reference.slug
  rw [h]

/-- Whether a text is a manifest, and which one, does not depend on the reference. -/
lemma manifestIn?_congr (r s : Reference) (a : Except Failure String) : manifestIn? r a = manifestIn? s a := by
  cases a with
  | error f => rfl
  | ok text =>
    show (manifest? r text).toOption = (manifest? s text).toOption
    unfold manifest?
    split
    · rfl
    · split <;> rfl

lemma Source.manifest?_congr {src : Source} {r s : Reference} (h : r.target = s.target) :
    src.manifest? r = src.manifest? s := by
  unfold Source.manifest?
  rw [requestFor?_congr h]
  congr 1
  funext q
  exact manifestIn?_congr r s (src q)

namespace Cache

variable {src : Source} {R : Set String} {c : Cache} {keep : Retention} {h : Nat} {e : Entry}

/-- Every file holds what is found for the texts of a set that have the file, and that is a
manifest. -/
def Mirrors (src : Source) (R : Set String) (c : Cache) : Prop :=
  ∀ name f, c.file? name = some f → ∀ raw ∈ R, ContentStore.fileName? (Reference.ofText raw) = some name →
    ∃ q text, requestFor? (Reference.ofText raw) = some q ∧ src q = .ok text ∧ f.content = .text text ∧
      src.manifest? (Reference.ofText raw) ≠ none

/-- A kept text is what would be fetched. -/
lemma Mirrors.freshText? (hm : c.Mirrors src R) {raw : String} (hraw : raw ∈ R) {q : Request}
    (hq : requestFor? (Reference.ofText raw) = some q) {text : String}
    (ht : c.freshText? keep (Reference.ofText raw) = some text) :
    src q = .ok text ∧ src.manifest? (Reference.ofText raw) ≠ none := by
  obtain ⟨name, written, hname, hf, -⟩ := freshText?_eq_some_iff.mp ht
  obtain ⟨q', text', hq', hsrc, hcontent, hsome⟩ := hm name _ hf raw hraw hname
  rw [hq] at hq'
  cases hq'
  cases hcontent
  exact ⟨hsrc, hsome⟩

lemma Mirrors.of_no_file (hf : ∀ name, c.file? name = none) : c.Mirrors src R := by
  intro name f hname
  rw [hf] at hname
  cases hname

/-! ### Callers only take files away -/

lemma get?_purge (s : ContentStore) (name : String) :
    s.purge.2.get? name = if ContentStore.isPurged name then none else s.get? name := by
  have left := NamedCache.lookup_filter (fun n => !ContentStore.isPurged n) name s.entries
  simp only [ContentStore.purge, NamedCache.get?, left]
  cases ContentStore.isPurged name <;> rfl

lemma file?_purge (c : Cache) (name : String) :
    c.purge.2.file? name = if ContentStore.isPurged name then none else c.file? name := by
  unfold purge
  cases hs : c.store with
  | none => simp [file?, hs]
  | some s => simpa only [file?, hs, Option.bind_some] using get?_purge s name

lemma file?_of_detach {k : Nat} {name : String} {f : ContentFile} (hf : (c.detach k).file? name = some f) :
    c.file? name = some f := by
  cases hk : c.entry? k with
  | none => rwa [detach, hk] at hf
  | some d =>
    rw [file?_detach hk] at hf
    split at hf
    · cases hf
    · exact hf

lemma file?_of_apply {a : Action} {name : String} {f : ContentFile} (hf : (a.apply c).file? name = some f) :
    c.file? name = some f := by
  cases a with
  | getOrCreate raw =>
    simp only [Action.apply] at hf
    rcases c.getOrCreate_cases raw with ⟨k, -, -, hk⟩ | ⟨-, hk⟩ | ⟨k, -, -, hk⟩ <;> rw [hk] at hf
    · exact hf
    · exact hf
    · exact file?_of_detach hf
  | delete k =>
    simp only [Action.apply] at hf
    cases hk : c.entry? k with
    | none => rwa [delete_of_entry?_eq_none hk] at hf
    | some d =>
      rcases c.delete_cases hk with ⟨-, hd⟩ | ⟨-, hd⟩ | ⟨-, hd⟩ <;> rw [hd] at hf
      · exact file?_of_detach hf
      · exact file?_of_detach hf
      · exact hf
  | clear => exact hf
  | purge =>
    simp only [Action.apply] at hf
    rw [file?_purge] at hf
    split at hf
    · cases hf
    · exact hf
  | tag k label => exact hf
  | advance ms => exact hf

lemma Mirrors.apply (hm : c.Mirrors src R) (a : Action) : (a.apply c).Mirrors src R :=
  fun name f hf => hm name f (file?_of_apply hf)

/-! ### What is written is what was found -/

/-- A finding of an entry tells what the source has for it, and whether the entry is stored. -/
structure Tells (src : Source) (c : Cache) (h : Nat) (f : Finding) : Prop where
  manifest : ∀ r, c.reference? h = some r → f.outline? = src.manifest? r
  timely : ∀ o text, f = .timely o text → c.isCurrent h = true
  late : ∀ o, f = .late o → c.isCurrent h = false
  written : ∀ o text, f = .timely o (some text) →
    ∀ r, c.reference? h = some r → ∃ q, requestFor? r = some q ∧ src q = .ok text

lemma eq_ok_of_finding {load : Load} {a : Except Failure String} {o : Outline} {text : String}
    (hf : c.finding h load a = .timely o (some text)) : a = .ok text := by
  unfold finding at hf
  split at hf
  · split at hf
    · cases hf
    · split at hf
      · split at hf <;> cases hf
        rfl
      · cases hf
  · cases hf

lemma tells_finding (he : c.entry? h = some e) {q : Request} (hq : requestFor? e.reference = some q)
    (load : Load) {a : Except Failure String} (ha : src q = a) : c.Tells src h (c.finding h load a) := by
  have own (r : Reference) (hr : c.reference? h = some r) : r = e.reference := by
    rw [reference?_of_some he] at hr
    exact (Option.some.inj hr).symm
  refine ⟨fun r hr => ?_, fun o text hf => isCurrent_of_finding hf, fun o hf => isCurrent_eq_false_of_finding hf,
    fun o text hf r hr => ?_⟩
  · rw [own r hr, outline?_finding he, Source.manifest?_of_request hq, ha]
  · rw [own r hr]
    exact ⟨q, hq, ha.trans (eq_ok_of_finding hf)⟩

lemma Tells.congr {d : Cache} {f : Finding} (hf : c.Tells src h f) (hr : d.reference? h = c.reference? h)
    (hc : d.isCurrent h = c.isCurrent h) : d.Tells src h f :=
  ⟨by rw [hr]; exact hf.manifest, by rw [hc]; exact hf.timely, by rw [hc]; exact hf.late,
    by rw [hr]; exact hf.written⟩

lemma fileName?_eq_some_iff {r : Reference} {name : String} :
    c.fileName? r = some name ↔ c.store.isSome = true ∧ ContentStore.fileName? r = some name := by
  unfold fileName?
  split
  · rename_i hs
    simp [hs]
  · rename_i hs
    simp [hs]

/-- What is written is in the file afterwards, where a file can have the name; all other files stay. -/
lemma file?_conclude_writing (keep : Retention) (he : c.entry? h = some e) (o : Outline) (text name : String) :
    (c.conclude keep h (.timely o (some text))).file? name =
      if c.fileName? e.reference = some name ∧ name.utf8ByteSize ≤ Files.FileTree.nameLimit
      then some ⟨.text text, c.now⟩ else c.file? name := by
  have published : (c.conclude keep h (.timely o (some text))).file? name =
      (c.publish e.reference o (some text)).file? name := by
    simp [conclude, he, noteManifest, file?]
  rw [published]
  by_cases hn : c.fileName? e.reference = some name
  · obtain ⟨hs, -⟩ := fileName?_eq_some_iff.mp hn
    obtain ⟨s, hs⟩ := Option.isSome_iff_exists.mp hs
    unfold publish file?
    simp only [hn, hs, Option.map_some, Option.bind_some, ContentStore.write, true_and]
    split
    · rw [NamedCache.get?_insert, if_pos rfl]
    · rfl
  · rw [if_neg fun hw => hn hw.1]
    by_cases hs : c.store.isSome = true
    · exact file?_publish c e.reference o _ fun hf => hn (fileName?_eq_some_iff.mpr ⟨hs, hf⟩)
    · have bare : c.store = none := by simpa using hs
      have unnamed : c.fileName? e.reference = none := by simp [fileName?, bare]
      unfold publish file?
      simp [unnamed]

lemma file?_conclude_of_not_writing (keep : Retention) (h : Nat) {f : Finding} (hf : f.isWriting = false)
    (name : String) : (c.conclude keep h f).file? name = c.file? name := by
  cases f with
  | missing => rfl
  | late o => rfl
  | timely o text =>
    cases text with
    | some t => cases hf
    | none =>
      simp only [conclude]
      cases c.entry? h with
      | none => rfl
      | some e => rfl

/-- A file that is there when a finding was noted was there before or has just been written. -/
lemma file?_conclude_cases (he : c.entry? h = some e) {f : Finding} {name : String} {g : ContentFile}
    (hg : (c.conclude keep h f).file? name = some g) :
    c.file? name = some g ∨ ∃ o text, f = .timely o (some text) ∧
      ContentStore.fileName? e.reference = some name ∧ g = ⟨.text text, c.now⟩ := by
  cases hw : f.isWriting with
  | false =>
    rw [file?_conclude_of_not_writing keep h hw] at hg
    exact Or.inl hg
  | true =>
    obtain ⟨o, text, rfl⟩ := Finding.eq_timely_of_isWriting hw
    rw [file?_conclude_writing keep he] at hg
    split at hg
    · rename_i hn
      exact Or.inr ⟨o, text, rfl, (fileName?_eq_some_iff.mp hn.1).2, (Option.some.inj hg).symm⟩
    · exact Or.inl hg

lemma Mirrors.conclude (hR : Reference.NoCollision R) (ht : c.Tidy) (ho : c.Over R) (hm : c.Mirrors src R)
    (he : c.entry? h = some e) {f : Finding} (hf : c.Tells src h f) : (c.conclude keep h f).Mirrors src R := by
  intro name g hg raw hraw hname
  rcases file?_conclude_cases he hg with hg | ⟨o, text, rfl, hown, rfl⟩
  · exact hm name g hg raw hraw hname
  · -- the text was written for a text that has the same key
    have hread := ht.read h e he
    rw [hread] at hown
    have key := contentKey_eq_of_fileName? hname hown
    rw [Reference.contentKey_ofText_eq_iff hR hraw (ho h e he)] at key
    have target := Reference.target_ofText_congr key
    rw [← hread] at target
    have href := reference?_of_some he
    obtain ⟨q, hq, hsrc⟩ := hf.written o text rfl e.reference href
    refine ⟨q, text, by rw [requestFor?_congr target, hq], hsrc, rfl, ?_⟩
    rw [Source.manifest?_congr target, ← hf.manifest e.reference href]
    exact Option.some_ne_none o

end Cache

end CiWorkflow.Resolution
