import CiWorkflow.Proofs.Resolution.Mirror

/-!
# Entries that are resolved together

What comes of resolving some entries from a source does not depend on the order, or on where the
texts come from: each entry is told what the source has for it, and what is found for those that are
stored is published.
-/

namespace CiWorkflow.Resolution

namespace Cache

/-- Nothing but what is kept in files is different, and maybe the order in which outlines were
published. -/
structure Alike (c c' : Cache) : Prop where
  now : c'.now = c.now
  entries : ∀ h, c'.entry? h = c.entry? h
  slots : c'.slots = c.slots
  outlines : ∀ key, c'.outlines.get? key = c.outlines.get? key

namespace Alike

variable {c c' : Cache} (ha : c.Alike c')

include ha

lemma size : c'.entries.size = c.entries.size := by
  have same : c'.entries = c.entries := Array.ext_getElem? ha.entries
  rw [same]

lemma get? (raw : String) : c'.get? raw = c.get? raw := by
  unfold Cache.get?
  rw [ha.slots]

lemma isCurrent (h : Nat) : c'.isCurrent h = c.isCurrent h := by
  refine isCurrent_congr ?_ ha.slots
  unfold reference?
  rw [ha.entries]

lemma modifyEntry (h : Nat) (f : Entry → Entry) : (c.modifyEntry h f).Alike (c'.modifyEntry h f) := by
  refine ⟨ha.now, fun k => ?_, ha.slots, ha.outlines⟩
  rw [entry?_modifyEntry, entry?_modifyEntry, ha.entries]

lemma detach (h : Nat) : (c.detach h).Alike (c'.detach h) := by
  refine ⟨?_, fun k => ?_, ?_, fun key => ?_⟩
  · rw [now_detach, now_detach, ha.now]
  · rw [entry?_detach, entry?_detach, ha.entries]
  · rw [slots_detach, slots_detach, ha.slots]
  · cases he : c.entry? h with
    | none =>
      have he' : c'.entry? h = none := (ha.entries h).trans he
      simpa [Cache.detach, he, he'] using ha.outlines key
    | some e => rw [get?_outlines_detach he, get?_outlines_detach ((ha.entries h).trans he), ha.outlines]

lemma create (raw : String) : (c.create raw).2.Alike (c'.create raw).2 := by
  refine ⟨ha.now, fun k => ?_, ?_, ha.outlines⟩
  · rw [entry?_create, entry?_create, ha.size, ha.entries]
  · simp only [Cache.create, ha.size, ha.slots]

lemma getOrCreate (raw : String) :
    (c'.getOrCreate raw).1 = (c.getOrCreate raw).1 ∧ (c.getOrCreate raw).2.Alike (c'.getOrCreate raw).2 := by
  unfold Cache.getOrCreate
  rw [ha.get?]
  split
  · exact ⟨ha.size, ha.create raw⟩
  · rename_i h _
    rw [ha.entries, ha.now]
    split
    · exact ⟨(ha.detach h).size, (ha.detach h).create raw⟩
    · exact ⟨rfl, ha⟩

lemma delete (h : Nat) : (c.delete h).Alike (c'.delete h) := by
  unfold Cache.delete
  rw [ha.entries]
  split
  · exact ha
  · rename_i e _
    rw [ha.get?]
    split
    · exact ha.detach h
    · split
      · have gone := ha.detach h
        exact ⟨gone.now, gone.entries, by rw [ha.slots], gone.outlines⟩
      · exact ha.modifyEntry h Entry.invalidated

/-- Callers do the same to both. -/
lemma apply (a : Action) : (a.apply c).Alike (a.apply c') := by
  have purged (d : Cache) : d.Alike d.purge.2 ∧ d.purge.2.Alike d := by
    unfold purge
    split <;> exact ⟨⟨rfl, fun _ => rfl, rfl, fun _ => rfl⟩, ⟨rfl, fun _ => rfl, rfl, fun _ => rfl⟩⟩
  cases a with
  | getOrCreate raw => exact (ha.getOrCreate raw).2
  | delete h => exact ha.delete h
  | clear => exact ⟨ha.now, ha.entries, rfl, fun _ => rfl⟩
  | purge =>
    have left := (purged c).2
    have right := (purged c').1
    refine ⟨?_, fun h => ?_, ?_, fun key => ?_⟩
    · exact right.now.trans (ha.now.trans left.now)
    · exact (right.entries h).trans ((ha.entries h).trans (left.entries h))
    · exact right.slots.trans (ha.slots.trans left.slots)
    · exact (right.outlines key).trans ((ha.outlines key).trans (left.outlines key))
  | tag h label => exact ha.modifyEntry h _
  | advance ms => exact ⟨by simp [Action.apply, advance, ha.now], ha.entries, ha.slots, ha.outlines⟩

end Alike

/-! ### What comes of resolving -/

variable {found : Reference → Option Outline} {src : Source} {keep : Retention} {R : Set String}
  {c c' d d' : Cache} {D : Set Nat} {h k : Nat} {e : Entry}

/-- One of some entries is stored, and a manifest is found for it. -/
def Publishing (found : Reference → Option Outline) (c : Cache) (D : Set Nat) (key : String) (o : Outline) : Prop :=
  ∃ k ∈ D, ∃ e, c.entry? k = some e ∧ c.isCurrent k = true ∧ e.reference.contentKey = key ∧
    found e.reference = some o

/-- Some entries have been told what is found for them, and what is found for those that are stored
is published. -/
structure Told (found : Reference → Option Outline) (keep : Retention) (c : Cache) (D : Set Nat) (d : Cache) :
    Prop where
  now : d.now = c.now
  slots : d.slots = c.slots
  told : ∀ k ∈ D, d.entry? k = (c.entry? k).map fun e => e.told keep c.now (found e.reference)
  others : ∀ k, k ∉ D → d.entry? k = c.entry? k
  published : ∀ key o, c.Publishing found D key o → d.outlines.get? key = some o
  left : ∀ key, (∀ o, ¬ c.Publishing found D key o) → d.outlines.get? key = c.outlines.get? key

/-- A finding of an entry is what is found for it, and tells whether the entry is stored. -/
structure Fits (found : Reference → Option Outline) (c : Cache) (h : Nat) (f : Finding) : Prop where
  manifest : ∀ r, c.reference? h = some r → f.outline? = found r
  timely : ∀ o text, f = .timely o text → c.isCurrent h = true
  late : ∀ o, f = .late o → c.isCurrent h = false

/-- What is found for the entries depends on nothing but their keys. -/
def ByKey (found : Reference → Option Outline) (c : Cache) : Prop :=
  ∀ h k e x, c.entry? h = some e → c.entry? k = some x → e.reference.contentKey = x.reference.contentKey →
    found e.reference = found x.reference

lemma Alike.publishing_iff (ha : c.Alike c') (key : String) (o : Outline) :
    c'.Publishing found D key o ↔ c.Publishing found D key o := by
  unfold Publishing
  simp only [ha.entries, ha.isCurrent]

/-- What one more entry publishes is what is found for it in time. -/
lemma Publishing.of_insert {key : String} {o : Outline} (hp : c.Publishing found (insert h D) key o)
    (he : c.entry? h = some e) {f : Finding} (hf : c.Fits found h f) :
    c.Publishing found D key o ∨ key = e.reference.contentKey ∧ ∃ text, f = .timely o text := by
  obtain ⟨k, hk, y, hy, hc, hkey, hm⟩ := hp
  rcases hk with rfl | hk
  · right
    rw [he] at hy
    cases hy
    have outline : f.outline? = some o := (hf.manifest _ (reference?_of_some he)).trans hm
    refine ⟨hkey.symm, ?_⟩
    cases f with
    | missing => cases outline
    | late p =>
      rw [hf.late p rfl] at hc
      cases hc
    | timely p text =>
      cases outline
      exact ⟨text, rfl⟩
  · exact Or.inl ⟨k, hk, y, hy, hc, hkey, hm⟩

namespace Told

lemma refl (found : Reference → Option Outline) (keep : Retention) (c : Cache) : Told found keep c ∅ c :=
  ⟨rfl, rfl, fun _ hk => hk.elim, fun _ _ => rfl, fun _ _ ⟨_, hk, _⟩ => hk.elim, fun _ _ => rfl⟩

/-- What comes of telling the same entries the same is alike. -/
lemma alike (hs : Told found keep c D d) (hs' : Told found keep c' D d') (ha : c.Alike c') : d.Alike d' := by
  refine ⟨?_, fun k => ?_, ?_, fun key => ?_⟩
  · rw [hs.now, hs'.now, ha.now]
  · by_cases hk : k ∈ D
    · rw [hs.told k hk, hs'.told k hk, ha.entries, ha.now]
    · rw [hs.others k hk, hs'.others k hk, ha.entries]
  · rw [hs.slots, hs'.slots, ha.slots]
  · by_cases hp : ∃ o, c.Publishing found D key o
    · obtain ⟨o, hp⟩ := hp
      rw [hs.published key o hp, hs'.published key o ((ha.publishing_iff key o).mpr hp)]
    · have none : ∀ o, ¬ c.Publishing found D key o := fun o ho => hp ⟨o, ho⟩
      rw [hs.left key none, hs'.left key fun o ho => none o ((ha.publishing_iff key o).mp ho), ha.outlines]

variable (hs : Told found keep c D d)

include hs

lemma reference? (k : Nat) : d.reference? k = c.reference? k := by
  unfold Cache.reference?
  by_cases hk : k ∈ D
  · rw [hs.told k hk]
    cases c.entry? k <;> simp
  · rw [hs.others k hk]

lemma isCurrent (k : Nat) : d.isCurrent k = c.isCurrent k := isCurrent_congr (hs.reference? k) hs.slots

/-- The entry that has been told something is what it would be had it been told now. -/
lemma exists_entry (he : c.entry? h = some e) :
    ∃ x, d.entry? h = some x ∧ x.reference = e.reference ∧
      x.told keep d.now (found e.reference) = e.told keep c.now (found e.reference) := by
  by_cases hk : h ∈ D
  · refine ⟨_, (hs.told h hk).trans (by rw [he]; rfl), Entry.reference_told e keep c.now _, ?_⟩
    rw [hs.now, Entry.told_told]
  · refine ⟨e, (hs.others h hk).trans he, rfl, ?_⟩
    rw [hs.now]

lemma exists_base {x : Entry} (hx : d.entry? h = some x) :
    ∃ e, c.entry? h = some e ∧ e.reference = x.reference := by
  refine entry?_of_reference? ?_
  rw [← hs.reference? h, reference?_of_some hx]

/-- One more entry is told what is found for it. -/
lemma conclude (hfound : c.ByKey found) (he : c.entry? h = some e) {f : Finding} (hf : c.Fits found h f) :
    Told found keep c (insert h D) (d.conclude keep h f) := by
  obtain ⟨x, hx, hxr, htold⟩ := hs.exists_entry he
  have outline : f.outline? = found e.reference := hf.manifest _ (reference?_of_some he)
  refine ⟨?_, ?_, fun k hk => ?_, fun k hk => ?_, fun key o hp => ?_, fun key hp => ?_⟩
  · rw [now_conclude, hs.now]
  · rw [slots_conclude, hs.slots]
  · by_cases hkh : k = h
    · subst hkh
      rw [entry?_conclude keep hx, concluded_eq_told, outline, htold, he]
      rfl
    · rw [entry?_conclude_of_ne _ _ _ _ hkh]
      exact hs.told k (hk.resolve_left hkh)
  · rw [Set.mem_insert_iff, not_or] at hk
    rw [entry?_conclude_of_ne _ _ _ _ hk.1]
    exact hs.others k hk.2
  · rcases hp.of_insert he hf with before | ⟨rfl, text, rfl⟩
    · have published := hs.published key o before
      cases f with
      | missing => exact published
      | late p => exact published
      | timely p text =>
        rw [get?_outlines_conclude_timely keep hx]
        split
        · -- another entry with the key has the same manifest
          rename_i same
          obtain ⟨k, -, y, hy, -, hkey, hm⟩ := before
          rw [← hm, ← hfound h k e y he hy (by rw [hkey, same, hxr]), ← outline]
          rfl
        · exact published
    · rw [get?_outlines_conclude_timely keep hx, if_pos (by rw [hxr])]
  · have before : d.outlines.get? key = c.outlines.get? key := by
      refine hs.left key fun o ⟨k, hk, rest⟩ => hp o ⟨k, Or.inr hk, rest⟩
    cases f with
    | missing => exact before
    | late p => exact before
    | timely p text =>
      rw [get?_outlines_conclude_timely keep hx, if_neg, before]
      rintro rfl
      exact hp p ⟨h, Or.inl rfl, e, he, hf.timely p text rfl, by rw [hxr], outline.symm⟩

end Told

/-! ### What comes of resolving from a source -/

/-- Some entries have been resolved from a source. -/
abbrev Settled (src : Source) : Retention → Cache → Set Nat → Cache → Prop := Told src.manifest?

/-- What a key tells of a reference is what it names. -/
lemma target_eq_of_contentKey (hR : Reference.NoCollision R) (ht : c.Tidy) (ho : c.Over R) {x : Entry}
    (he : c.entry? h = some e) (hx : c.entry? k = some x)
    (hkey : e.reference.contentKey = x.reference.contentKey) : e.reference.target = x.reference.target := by
  rw [ht.read h e he, ht.read k x hx] at hkey ⊢
  rw [Reference.contentKey_ofText_eq_iff hR (ho h e he) (ho k x hx)] at hkey
  exact Reference.target_ofText_congr hkey

lemma byKey_manifest? (src : Source) (hR : Reference.NoCollision R) (ht : c.Tidy) (ho : c.Over R) :
    c.ByKey src.manifest? := by
  intro h k e x he hx hkey
  exact Source.manifest?_congr (target_eq_of_contentKey hR ht ho he hx hkey)

lemma Tells.fits {f : Finding} (hf : c.Tells src h f) : c.Fits src.manifest? h f := ⟨hf.manifest, hf.timely, hf.late⟩

namespace Settled

variable (hs : Settled src keep c D d)

include hs

/-- What is judged when some entries have been resolved is what would have been judged before. -/
lemma tells {x : Entry} (hx : d.entry? h = some x) {q : Request} (hq : requestFor? x.reference = some q) (load : Load)
    {a : Except Failure String} (ha : src q = a) : c.Tells src h (d.finding h load a) :=
  (tells_finding hx hq load ha).congr (hs.reference? h).symm (hs.isCurrent h).symm

/-- One more entry is resolved. -/
lemma conclude (hR : Reference.NoCollision R) (ht : c.Tidy) (ho : c.Over R) (he : c.entry? h = some e)
    {f : Finding} (hf : c.Tells src h f) : Settled src keep c (insert h D) (d.conclude keep h f) :=
  Told.conclude hs (byKey_manifest? src hR ht ho) he hf.fits

end Settled

/-! ### What can be trusted -/

variable {b : Cache} {q : Request}

/-- The slots are in order, only texts of a set are in use, and the files mirror the source. -/
structure Trusted (src : Source) (R : Set String) (c : Cache) : Prop where
  tidy : c.Tidy
  texts : c.Over R
  mirrors : c.Mirrors src R

lemma Trusted.apply (ht : c.Trusted src R) {a : Action} (ha : a.On R) : (a.apply c).Trusted src R :=
  ⟨ht.tidy.apply a, ht.texts.apply ha, ht.mirrors.apply a⟩

/-- An entry that is due is resolved from what would be fetched, be it fetched or kept. -/
lemma Trusted.plan?_cases (ht : c.Trusted src R) (he : c.entry? h = some e)
    (hn : e.needsResolution c.now = true) (hq : requestFor? e.reference = some q) :
    c.plan? keep h = some (.fetch q) ∨
      ∃ text, c.plan? keep h = some (.kept text) ∧ src q = .ok text ∧ src.manifest? e.reference ≠ none := by
  have plan : c.plan? keep h = _ := plan?_of_due he hn hq
  cases hf : c.freshText? keep e.reference with
  | none => exact Or.inl (by rw [plan, hf])
  | some text =>
    refine Or.inr ⟨text, by rw [plan, hf], ?_⟩
    rw [ht.tidy.read h e he] at hq hf ⊢
    exact ht.mirrors.freshText? (ht.texts h e he) hq hf

lemma plan?_of_bare (hs : c.store = none) (he : c.entry? h = some e) (hn : e.needsResolution c.now = true)
    (hq : requestFor? e.reference = some q) : c.plan? keep h = some (.fetch q) := by
  have nothing (name : String) : c.file? name = none := by simp [file?, hs]
  rw [plan?_of_due he hn hq, freshText?_eq_none fun name _ => nothing name]

lemma isWriting_finding_of_bare (hs : c.store = none) (load : Load) (a : Except Failure String) :
    (c.finding h load a).isWriting = false := by
  have unnamed (r : Reference) : (c.fileName? r).isSome = false := by simp [fileName?, hs]
  unfold finding
  split
  · split
    · rfl
    · split
      · rw [unnamed, Bool.and_false]
        rfl
      · rfl
  · rfl

lemma store_apply_of_bare (hs : c.store = none) (a : Action) : (a.apply c).store = none := by
  have given (k : Nat) : (c.detach k).store = none := by
    rw [← Option.not_isSome_iff_eq_none, isSome_store_detach, hs]
    exact Bool.false_ne_true
  cases a with
  | getOrCreate raw =>
    simp only [Action.apply]
    rcases c.getOrCreate_cases raw with ⟨k, -, -, hk⟩ | ⟨-, hk⟩ | ⟨k, -, -, hk⟩ <;> rw [hk]
    · exact hs
    · exact hs
    · exact given k
  | delete k =>
    simp only [Action.apply]
    cases hk : c.entry? k with
    | none => rwa [delete_of_entry?_eq_none hk]
    | some x =>
      rcases c.delete_cases hk with ⟨-, hd⟩ | ⟨-, hd⟩ | ⟨-, hd⟩ <;> rw [hd]
      · exact given k
      · exact given k
      · exact hs
  | clear => exact hs
  | purge =>
    simp only [Action.apply, purge, hs]
  | tag k label => exact hs
  | advance ms => exact hs

lemma store_conclude_of_bare (hs : c.store = none) (f : Finding) : (c.conclude keep h f).store = none := by
  rw [← Option.not_isSome_iff_eq_none, isSome_store_conclude, hs]
  exact Bool.false_ne_true

/-- One more entry is resolved, and the cache can still be trusted. -/
lemma Settled.note (hR : Reference.NoCollision R) (hb : b.Trusted src R) (hs : Settled src keep b D d)
    (hd : d.Trusted src R) (he : b.entry? h = some e) (hq : requestFor? e.reference = some q) {f : Finding}
    (hf : b.Tells src h f) :
    Settled src keep b (insert h D) (d.conclude keep h f) ∧ (d.conclude keep h f).Trusted src R := by
  obtain ⟨x, hx, hxr, -⟩ := hs.exists_entry he
  have resolvable : x.reference.isResolvable = true := by
    rw [hxr]
    exact isResolvable_of_requestFor? hq
  have tells : d.Tells src h f := hf.congr (hs.reference? h) (hs.isCurrent h)
  exact ⟨hs.conclude hR hb.tidy hb.texts he hf, hd.tidy.conclude keep hx resolvable f, hd.texts.conclude keep f,
    hd.mirrors.conclude hR hd.tidy hd.texts hx tells⟩

end Cache

end CiWorkflow.Resolution
