import CiWorkflow.Proofs.Resolution.Batch
import CiWorkflow.Proofs.Resolution.Gate

/-!
# Entries resolved at one instant

The text for a reference is the one that is kept and fresh, or else what the source has. While
entries are resolved files change, but only to what the source has, so what is found for a reference
is settled by the cache that the resolving starts from. What has come of it at any time depends on
nothing but which entries are resolved by then.
-/

namespace CiWorkflow

namespace Time.Instant

lemma not_after_lt {t : Instant} (ht : t ≤ latest) (seconds : Nat) : ¬ t.after seconds < t := by
  show ¬ (t.after seconds).nanos < t.nanos
  unfold after
  dsimp only
  split
  · unfold nanosPerSecond
    dsimp only
    omega
  · have : t.nanos ≤ latest.nanos := ht
    omega

end Time.Instant

namespace Resolution

/-- What an entry has just been told it need not be told again. -/
lemma Entry.needsResolution_told {now : Time.Instant} (hn : now ≤ Time.Instant.latest) (e : Entry)
    (keep : Retention) (m : Option Outline) : (e.told keep now m).needsResolution now = false := by
  cases m with
  | some o => simp [Entry.told, Entry.resolved, Entry.needsResolution]
  | none => simp [Entry.told, Entry.failed, Entry.needsResolution, Time.Instant.not_after_lt hn]

/-- The file of a reference depends on nothing but what the reference names and its key. -/
lemma ContentStore.fileName?_congr {r s : Reference} (ht : r.target = s.target)
    (hk : r.contentKey = s.contentKey) : fileName? r = fileName? s := by
  unfold fileName? Reference.isLocal Reference.isResolvable
  rw [ht, hk]

/-- What comes of a load while a kept text stays what it is. -/
def Source.answer (src : Source) : Load → Except Failure String
  | .kept text => .ok text
  | .fetch q => src q

namespace Cache

/-- The texts that the entries were made for. -/
def texts (c : Cache) : Set String := {raw | ∃ h e, c.entry? h = some e ∧ e.reference.raw = raw}

/-- The text in the file of a reference, be it fresh or not. -/
def keptText? (c : Cache) (r : Reference) : Option String :=
  (ContentStore.fileName? r).bind fun name =>
    match c.file? name with
    | some ⟨.text t, _⟩ => some t
    | _ => none

/-- The text in the file of an entry. -/
def textOf? (c : Cache) (h : Nat) : Option String := (c.reference? h).bind c.keptText?

/-- The slots are in order, the keys of the entries do not collide, and the clock shows an instant
that there is. -/
structure Grounded (c : Cache) : Prop where
  tidy : c.Tidy
  apart : Reference.NoCollision c.texts
  now : c.now ≤ Time.Instant.latest

section base

variable (src : Source) (keep : Retention) (c : Cache)

/-- What comes of asking for the text of a reference. -/
def textFor? (r : Reference) : Option (Except Failure String) :=
  match c.freshText? keep r with
  | some text => some (.ok text)
  | none => (requestFor? r).map src

def found? (r : Reference) : Option Outline := (c.textFor? src keep r).bind (manifestIn? r)

/-- The source has a manifest for a reference of which nothing fresh is kept, and a file can have
the name. -/
structure Lacks (r : Reference) (name text : String) : Prop where
  named : c.fileName? r = some name
  short : name.utf8ByteSize ≤ Files.FileTree.nameLimit
  stale : c.freshText? keep r = none
  fetched : (requestFor? r).map src = some (.ok text)
  manifest : manifestIn? r (.ok text) ≠ none

/-- The text of one of some entries, which is stored, is to be written to a file. -/
def Writes (D : Set Nat) (name text : String) : Prop :=
  ∃ k ∈ D, ∃ e, c.entry? k = some e ∧ c.isCurrent k = true ∧ c.Lacks src keep e.reference name text

/-- Some entries have been resolved, and nothing else has happened. -/
structure Resolved (D : Set Nat) (d : Cache) : Prop extends Told (c.found? src keep) keep c D d where
  kept : d.store.isSome = c.store.isSome
  written : ∀ name text, c.Writes src keep D name text → d.file? name = some ⟨.text text, c.now⟩
  unwritten : ∀ name, (∀ text, ¬ c.Writes src keep D name text) → d.file? name = c.file? name

/-- A finding of an entry is right, and its text is to be written unless that has been done. -/
structure Judged (D : Set Nat) (h : Nat) (e : Entry) (f : Finding) : Prop where
  fits : c.Fits (c.found? src keep) h f
  text : ∀ o text, f = .timely o (some text) →
    c.freshText? keep e.reference = none ∧ (requestFor? e.reference).map src = some (.ok text)
  no_text : ∀ o, f = .timely o none → ∀ name text, c.Lacks src keep e.reference name text →
    c.Writes src keep D name text

/-- The resolving of an entry has come to a stage, while some others have been resolved. -/
def InHand (D : Set Nat) (d : Cache) (h : Nat) (e : Entry) : Stage → Prop
  | .loading (.fetch q) => requestFor? e.reference = some q ∧ c.freshText? keep e.reference = none
  | .loading (.kept text) => c.textFor? src keep e.reference = some (.ok text) ∧
      d.keptText? e.reference = some text ∧
      ∀ name t, c.Lacks src keep e.reference name t → c.Writes src keep D name t
  | .writing f => c.Judged src keep D h e f

end base

variable {src : Source} {keep : Retention} {c d d' : Cache} {D D' : Set Nat} {h k : Nat} {e : Entry}
  {r s : Reference} {name text : String}

lemma over_texts (c : Cache) : c.Over c.texts := fun h e he => ⟨h, e, he, rfl⟩

/-- Something is planned for an entry exactly when the entry is due. -/
lemma isSome_plan? (keep : Retention) (c : Cache) (h : Nat) : (c.plan? keep h).isSome = c.isDue h := by
  rcases c.due_cases h with ⟨e, q, he, hn, hq⟩ | hn
  · rw [plan?_of_due he hn hq, isDue, he]
    exact hn.symm
  · rw [plan?_of_not_due hn, isDue]
    cases he : c.entry? h with
    | none => rfl
    | some e => exact (hn e he).symm

/-- What is planned is to read a text that is kept and fresh, or else to fetch it. -/
lemma plan?_cases {load : Load} (hp : c.plan? keep h = some load) :
    ∃ e q, c.entry? h = some e ∧ requestFor? e.reference = some q ∧
      (c.freshText? keep e.reference = none ∧ load = .fetch q ∨
        ∃ text, c.freshText? keep e.reference = some text ∧ load = .kept text) := by
  rcases c.due_cases h with ⟨e, q, he, hn, hq⟩ | hn
  · refine ⟨e, q, he, hq, ?_⟩
    rw [plan?_of_due he hn hq, Option.some.injEq] at hp
    subst hp
    cases hfresh : c.freshText? keep e.reference with
    | none => exact Or.inl ⟨rfl, rfl⟩
    | some text => exact Or.inr ⟨text, rfl, rfl⟩
  · rw [plan?_of_not_due hn] at hp
    cases hp

/-! ### References with one key -/

lemma freshText?_congr (hf : ContentStore.fileName? r = ContentStore.fileName? s) :
    c.freshText? keep r = c.freshText? keep s := by
  unfold freshText? fileName?
  rw [hf]

lemma textFor?_congr (ht : r.target = s.target) (hk : r.contentKey = s.contentKey) :
    c.textFor? src keep r = c.textFor? src keep s := by
  unfold textFor?
  rw [freshText?_congr (ContentStore.fileName?_congr ht hk), requestFor?_congr ht]

lemma textFor?_of_stale (hs : c.freshText? keep r = none) : c.textFor? src keep r = (requestFor? r).map src := by
  rw [textFor?, hs]

lemma Grounded.target_eq (hc : c.Grounded) {x : Entry} (he : c.entry? h = some e) (hx : c.entry? k = some x)
    (hkey : e.reference.contentKey = x.reference.contentKey) : e.reference.target = x.reference.target :=
  target_eq_of_contentKey hc.apart hc.tidy c.over_texts he hx hkey

lemma Grounded.byKey (hc : c.Grounded) : c.ByKey (c.found? src keep) := by
  intro h k e x he hx hkey
  have ht := hc.target_eq he hx hkey
  unfold found?
  rw [textFor?_congr ht hkey]
  congr 1
  funext a
  exact manifestIn?_congr _ _ a

/-- What is written to the file of an entry is what the source has for the entry. -/
lemma Grounded.of_writes (hc : c.Grounded) (hw : c.Writes src keep D name text) (he : c.entry? h = some e)
    (hn : ContentStore.fileName? e.reference = some name) :
    c.freshText? keep e.reference = none ∧ (requestFor? e.reference).map src = some (.ok text) := by
  obtain ⟨k, -, x, hx, -, lacks⟩ := hw
  have hxn := (fileName?_eq_some_iff.mp lacks.named).2
  have ht := hc.target_eq he hx (contentKey_eq_of_fileName? hn hxn)
  refine ⟨?_, ?_⟩
  · rw [freshText?_congr (hn.trans hxn.symm)]
    exact lacks.stale
  · rw [requestFor?_congr ht]
    exact lacks.fetched

lemma Grounded.textFor?_of_writes (hc : c.Grounded) (hw : c.Writes src keep D name text)
    (he : c.entry? h = some e) (hn : ContentStore.fileName? e.reference = some name) :
    c.textFor? src keep e.reference = some (.ok text) := by
  obtain ⟨stale, fetched⟩ := hc.of_writes hw he hn
  rw [textFor?_of_stale stale, fetched]

/-! ### Files -/

lemma keptText?_eq_some_iff : c.keptText? r = some text ↔
    ∃ name written, ContentStore.fileName? r = some name ∧ c.file? name = some ⟨.text text, written⟩ := by
  unfold keptText?
  cases ContentStore.fileName? r with
  | none => simp
  | some name =>
    simp only [Option.bind_some, Option.some.injEq]
    constructor
    · intro h
      split at h
      · rename_i t written hf
        cases h
        exact ⟨name, written, rfl, hf⟩
      · cases h
    · rintro ⟨_, written, rfl, hf⟩
      rw [hf]

lemma keptText?_of_freshText? (hf : c.freshText? keep r = some text) : c.keptText? r = some text := by
  obtain ⟨name, written, hn, hfile, -⟩ := freshText?_eq_some_iff.mp hf
  exact keptText?_eq_some_iff.mpr ⟨name, written, hn, hfile⟩

/-- What is asked for a reference that has a file may be kept. -/
lemma isKeepable_of_fileName? {q : Request} (hn : ContentStore.fileName? r = some name)
    (hq : requestFor? r = some q) : (Load.fetch q).isKeepable = true := by
  have hloc : r.isLocal = false := by
    unfold ContentStore.fileName? at hn
    split at hn
    · cases hn
    · rename_i h
      simp only [Bool.or_eq_true, not_or, Bool.not_eq_true] at h
      exact h.1
  unfold requestFor? at hq
  obtain ⟨l, -, rfl⟩ := Option.map_eq_some_iff.mp hq
  rw [hloc]
  rfl

lemma exists_ok_of_finding {load : Load} {a : Except Failure String} {o : Outline} {t : Option String}
    (he : c.entry? h = some e) (hf : c.finding h load a = .timely o t) :
    ∃ text, a = .ok text ∧ t = if load.isKeepable && (c.fileName? e.reference).isSome then some text else none := by
  unfold finding at hf
  rw [he] at hf
  cases a with
  | error f => cases hf
  | ok text =>
    dsimp only at hf
    split at hf
    · cases hf
    · split at hf <;> cases hf
      exact ⟨text, rfl, rfl⟩

lemma Writes.mono (hw : c.Writes src keep D name text) (hD : D ⊆ D') : c.Writes src keep D' name text := by
  obtain ⟨k, hk, rest⟩ := hw
  exact ⟨k, hD hk, rest⟩

namespace Resolved

variable (hc : c.Grounded) (hs : c.Resolved src keep D d)

lemma refl (src : Source) (keep : Retention) (c : Cache) : c.Resolved src keep ∅ c :=
  ⟨Told.refl _ keep c, rfl, fun _ _ ⟨_, hk, _⟩ => hk.elim, fun _ _ => rfl⟩

include hs

/-- What comes of resolving the same entries is the same. -/
lemma unique (hs' : c.Resolved src keep D d') : d.Alike d' ∧ ∀ name, d'.file? name = d.file? name := by
  refine ⟨hs.toTold.alike hs'.toTold ⟨rfl, fun _ => rfl, rfl, fun _ => rfl⟩, fun name => ?_⟩
  by_cases hw : ∃ text, c.Writes src keep D name text
  · obtain ⟨text, hw⟩ := hw
    rw [hs.written name text hw, hs'.written name text hw]
  · have none : ∀ text, ¬ c.Writes src keep D name text := fun text ht => hw ⟨text, ht⟩
    rw [hs.unwritten name none, hs'.unwritten name none]

include hc

/-- The file of an entry holds what was kept at first or what the source has. -/
lemma file?_cases (he : c.entry? h = some e) (hn : ContentStore.fileName? e.reference = some name) :
    (∃ text, c.Writes src keep D name text ∧ d.file? name = some ⟨.text text, c.now⟩ ∧
        c.freshText? keep e.reference = none ∧ c.textFor? src keep e.reference = some (.ok text)) ∨
      (∀ text, ¬ c.Writes src keep D name text) ∧ d.file? name = c.file? name := by
  by_cases hw : ∃ text, c.Writes src keep D name text
  · obtain ⟨text, hw⟩ := hw
    exact Or.inl ⟨text, hw, hs.written name text hw, (hc.of_writes hw he hn).1, hc.textFor?_of_writes hw he hn⟩
  · have none : ∀ text, ¬ c.Writes src keep D name text := fun text ht => hw ⟨text, ht⟩
    exact Or.inr ⟨none, hs.unwritten name none⟩

/-- While others are resolved a kept text stays. -/
lemma keptText?_of_subset (hs' : c.Resolved src keep D' d') (hD : D ⊆ D') (he : c.entry? h = some e)
    (ht : c.textFor? src keep e.reference = some (.ok text)) (hk : d.keptText? e.reference = some text) :
    d'.keptText? e.reference = some text := by
  obtain ⟨name, written, hn, hf⟩ := keptText?_eq_some_iff.mp hk
  rcases hs'.file?_cases hc he hn with ⟨t, -, hf', -, ht'⟩ | ⟨none, hf'⟩
  · rw [ht] at ht'
    cases ht'
    exact keptText?_eq_some_iff.mpr ⟨name, _, hn, hf'⟩
  · have before := hs.unwritten name fun t hw => none t (hw.mono hD)
    exact keptText?_eq_some_iff.mpr ⟨name, written, hn, by rw [hf', ← before, hf]⟩

lemma inHand_of_subset (hs' : c.Resolved src keep D' d') (hD : D ⊆ D') (he : c.entry? h = some e) {t : Stage}
    (ht : c.InHand src keep D d h e t) : c.InHand src keep D' d' h e t := by
  cases t with
  | loading load =>
    cases load with
    | fetch q => exact ht
    | kept text =>
      obtain ⟨textFor, kept, lacks⟩ := ht
      exact ⟨textFor, hs.keptText?_of_subset hc hs' hD he textFor kept, fun name t hl => (lacks name t hl).mono hD⟩
  | writing f => exact ⟨ht.fits, ht.text, fun o hf name t hl => (ht.no_text o hf name t hl).mono hD⟩

/-- What is planned for an entry gets it the text that is settled for it. -/
lemma inHand_of_plan? (he : c.entry? h = some e) (hx : d.entry? h = some e) {load : Load}
    (hp : d.plan? keep h = some load) : c.InHand src keep D d h e (.loading load) := by
  obtain ⟨x, q, hx', hq, hload⟩ := plan?_cases hp
  rw [hx] at hx'
  cases hx'
  rcases hload with ⟨hfresh, rfl⟩ | ⟨text, hfresh, rfl⟩
  · refine ⟨hq, ?_⟩
    -- a text that is fresh is still there
    by_contra hne
    obtain ⟨text, hbase⟩ := Option.ne_none_iff_exists'.mp hne
    obtain ⟨name, written, hname, hf, hy⟩ := freshText?_eq_some_iff.mp hbase
    rcases hs.file?_cases hc he hname with ⟨t, -, -, stale, -⟩ | ⟨-, hf'⟩
    · rw [hbase] at stale
      cases stale
    · have fresh : d.freshText? keep e.reference = some text :=
        freshText?_eq_some_iff.mpr ⟨name, written, hname, by rw [hf', hf], by rwa [hs.now]⟩
      rw [hfresh] at fresh
      cases fresh
  · obtain ⟨name, written, hname, hf, hy⟩ := freshText?_eq_some_iff.mp hfresh
    have kept : d.keptText? e.reference = some text := keptText?_of_freshText? hfresh
    rcases hs.file?_cases hc he hname with ⟨t, hw, hf', stale, textFor⟩ | ⟨-, hf'⟩
    · rw [hf] at hf'
      cases hf'
      refine ⟨textFor, kept, fun n t lacks => ?_⟩
      have same : n = name := by
        have := (fileName?_eq_some_iff.mp lacks.named).2
        rw [hname] at this
        exact (Option.some.inj this).symm
      have text_eq : t = text := by
        rw [textFor?_of_stale stale, lacks.fetched] at textFor
        cases textFor
        rfl
      rwa [same, text_eq]
    · have fresh : c.freshText? keep e.reference = some text :=
        freshText?_eq_some_iff.mpr ⟨name, written, hname, by rw [← hf', hf], by rwa [← hs.now]⟩
      refine ⟨by rw [textFor?, fresh], kept, fun n t lacks => ?_⟩
      have stale := lacks.stale
      rw [fresh] at stale
      cases stale

omit hc in
/-- The answer to a load is judged rightly. -/
lemma judged_finding (he : c.entry? h = some e) (hx : d.entry? h = some e) {load : Load} {a : Except Failure String}
    (hl : c.InHand src keep D d h e (.loading load)) (ha : src.answer load = a) :
    c.Judged src keep D h e (d.finding h load a) := by
  have textFor : c.textFor? src keep e.reference = some a := by
    cases load with
    | fetch q => rw [textFor?_of_stale hl.2, hl.1, ← ha]; rfl
    | kept text => rw [hl.1, ← ha]; rfl
  refine ⟨⟨fun r hr => ?_, fun o text hf => ?_, fun o hf => ?_⟩, fun o text hf => ?_, fun o hf name text lacks => ?_⟩
  · rw [reference?_of_some he] at hr
    cases hr
    rw [outline?_finding hx, found?, textFor]
    rfl
  · rw [← hs.isCurrent]
    exact isCurrent_of_finding hf
  · rw [← hs.isCurrent]
    exact isCurrent_eq_false_of_finding hf
  · cases load with
    | fetch q =>
      refine ⟨hl.2, ?_⟩
      rw [hl.1, Option.map_some, ← eq_ok_of_finding hf, ← ha]
      rfl
    | kept t =>
      obtain ⟨_, _, keepable⟩ := exists_ok_of_finding hx hf
      cases keepable
  · cases load with
    | kept t => exact hl.2.2 name text lacks
    | fetch q =>
      -- what is fetched for a file of the directory is written
      obtain ⟨_, _, unwritten⟩ := exists_ok_of_finding hx hf
      obtain ⟨hstore, hname⟩ := fileName?_eq_some_iff.mp lacks.named
      have named : (d.fileName? e.reference).isSome = true := by
        rw [fileName?_eq_some_iff.mpr ⟨hs.kept.trans hstore, hname⟩]
        rfl
      rw [isKeepable_of_fileName? hname hl.1, named] at unwritten
      cases unwritten

omit hc in
lemma isDue_of_not_mem (hD : h ∉ D) : d.isDue h = c.isDue h := by
  unfold isDue
  rw [hs.others h hD, hs.now]

lemma isDue_of_mem (hD : h ∈ D) : d.isDue h = false := by
  unfold isDue
  rw [hs.told h hD, hs.now]
  cases c.entry? h with
  | none => rfl
  | some e => exact Entry.needsResolution_told hc.now e keep _

/-- One more entry is resolved. -/
lemma conclude (he : c.entry? h = some e) {f : Finding} (hf : c.Judged src keep D h e f) :
    c.Resolved src keep (insert h D) (d.conclude keep h f) := by
  obtain ⟨x, hx, hxr, -⟩ := hs.exists_entry he
  have found : f.outline? = c.found? src keep e.reference := hf.fits.manifest _ (reference?_of_some he)
  refine ⟨hs.toTold.conclude hc.byKey he hf.fits, ?_, fun name text hw => ?_, fun name none => ?_⟩
  · rw [isSome_store_conclude, hs.kept]
  · cases hwr : f.isWriting with
    | true =>
      obtain ⟨o, t, rfl⟩ := Finding.eq_timely_of_isWriting hwr
      rw [file?_conclude_writing keep hx, hxr, hs.now]
      split
      · -- it is the file of the entry, and holds what the source has for it
        rename_i hn
        have want := (hc.of_writes hw he (fileName?_eq_some_iff.mp hn.1).2).2
        rw [(hf.text o t rfl).2] at want
        cases want
        rfl
      · rename_i hn
        obtain ⟨k, hk, y, hy, hcur, lacks⟩ := hw
        rcases hk with rfl | hk
        · rw [he] at hy
          cases hy
          obtain ⟨hstore, hname⟩ := fileName?_eq_some_iff.mp lacks.named
          exact absurd ⟨fileName?_eq_some_iff.mpr ⟨hs.kept.trans hstore, hname⟩, lacks.short⟩ hn
        · exact hs.written name text ⟨k, hk, y, hy, hcur, lacks⟩
    | false =>
      rw [file?_conclude_of_not_writing keep h hwr]
      refine hs.written name text ?_
      obtain ⟨k, hk, y, hy, hcur, lacks⟩ := hw
      rcases hk with rfl | hk
      · rw [he] at hy
        cases hy
        rw [found?, textFor?_of_stale lacks.stale, lacks.fetched] at found
        cases f with
        | missing => exact absurd found.symm lacks.manifest
        | late o =>
          rw [hf.fits.late o rfl] at hcur
          cases hcur
        | timely o t =>
          cases t with
          | some t => cases hwr
          | none => exact hf.no_text o rfl name text lacks
      · exact ⟨k, hk, y, hy, hcur, lacks⟩
  · have before : d.file? name = c.file? name :=
      hs.unwritten name fun text ⟨k, hk, rest⟩ => none text ⟨k, Or.inr hk, rest⟩
    cases hwr : f.isWriting with
    | false => rw [file?_conclude_of_not_writing keep h hwr, before]
    | true =>
      obtain ⟨o, t, rfl⟩ := Finding.eq_timely_of_isWriting hwr
      rw [file?_conclude_writing keep hx, hxr, before, if_neg]
      rintro ⟨hn, short⟩
      obtain ⟨stale, fetched⟩ := hf.text o t rfl
      obtain ⟨hstore, hname⟩ := fileName?_eq_some_iff.mp hn
      have manifest : manifestIn? e.reference (.ok t) ≠ .none := by
        rw [found?, textFor?_of_stale stale, fetched] at found
        intro hm
        rw [Option.bind_some, hm] at found
        cases found
      have named : c.fileName? e.reference = some name := fileName?_eq_some_iff.mpr ⟨hs.kept ▸ hstore, hname⟩
      exact none t ⟨h, Or.inl rfl, e, he, hf.fits.timely o _ rfl, named, short, stale, fetched, manifest⟩

end Resolved

end Cache

end Resolution

end CiWorkflow
