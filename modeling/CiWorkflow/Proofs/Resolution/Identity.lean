import CiWorkflow.Proofs.Resolution.InFlight
import CiWorkflow.Proofs.Resolution.Simulation

/-!
# The identity of entries

Of the entries of a text at most one is stored, and whoever looks the text up gets it while it
stays stored and has not expired. An entry leaves its slot only when all entries are dropped, when
it is deleted itself or when its own text is looked up after its expiry, and it never comes back.
The one that has expired is given up with all that is kept under its key; entries of other texts
keep their state and their slots.
-/

namespace CiWorkflow.Resolution

namespace Cache

/-- An entry has outlived its expiry. -/
def Expired (c : Cache) (h : Nat) : Prop := ∃ e, c.entry? h = some e ∧ e.isExpired c.now = true

/-- An entry has been given up: it is not available, and nothing is kept under its key. -/
def GivenUp (c : Cache) (h : Nat) : Prop :=
  ∃ e, c.entry? h = some e ∧ e.available = false ∧ c.outlines.get? e.reference.contentKey = none ∧
    ∀ name, ContentStore.fileName? e.reference = some name → c.file? name = none

/-- An entry is the same in two caches, and is stored in both or in neither. -/
def SameAt (c c' : Cache) (h : Nat) : Prop := c'.entry? h = c.entry? h ∧ c'.isCurrent h = c.isCurrent h

variable {c : Cache} {h : Nat} {e : Entry} {raw : String}

lemma expired_iff (he : c.entry? h = some e) : c.Expired h ↔ e.isExpired c.now = true := by
  constructor
  · rintro ⟨d, hd, hx⟩
    rw [he] at hd
    cases hd
    exact hx
  · intro hx
    exact ⟨e, he, hx⟩

lemma isCurrent_iff_of_reference? (hr : c.reference? h = some (Reference.ofText raw)) :
    c.isCurrent h = true ↔ c.get? raw = some h := by
  obtain ⟨e, he, href⟩ := entry?_of_reference? hr
  rw [isCurrent_iff_of_some he, href, Reference.raw_ofText]

lemma givenUp_detach (he : c.entry? h = some e) : (c.detach h).GivenUp h := by
  refine ⟨e.invalidated, ?_, rfl, ?_, fun name hname => ?_⟩
  · rw [entry?_detach, if_pos rfl, he]
    rfl
  · exact (get?_outlines_detach he _).trans (if_pos rfl)
  · exact (file?_detach he name).trans (if_pos hname)

/-! ### Looking a text up -/

@[simp] lemma now_getOrCreate (c : Cache) (raw : String) : (c.getOrCreate raw).2.now = c.now := by
  rcases c.getOrCreate_cases raw with ⟨k, -, -, hk⟩ | ⟨-, hk⟩ | ⟨k, -, -, hk⟩ <;> rw [hk]
  · rfl
  · exact c.now_detach k

lemma get?_getOrCreate_self (c : Cache) (raw : String) :
    (c.getOrCreate raw).2.get? raw = some (c.getOrCreate raw).1 := by
  rcases c.getOrCreate_cases raw with ⟨k, hs, -, hk⟩ | ⟨-, hk⟩ | ⟨k, -, -, hk⟩ <;> rw [hk]
  · exact hs
  · rw [get?_create, if_pos rfl, fst_create]
  · rw [get?_create, if_pos rfl, fst_create]

lemma get?_getOrCreate_of_ne (c : Cache) {t : String} (ht : t ≠ raw) :
    (c.getOrCreate raw).2.get? t = c.get? t := by
  rcases c.getOrCreate_cases raw with ⟨k, -, -, hk⟩ | ⟨-, hk⟩ | ⟨k, -, -, hk⟩ <;> rw [hk]
  · rw [get?_create, if_neg ht]
  · rw [get?_create, if_neg ht, get?, slots_detach]
    rfl

lemma not_expired_create (c : Cache) (raw : String) : ¬ Expired (c.create raw).2 c.entries.size := by
  have he : Cache.entry? (c.create raw).2 c.entries.size = some (Entry.fresh raw) := by
    rw [entry?_create, if_pos rfl]
  rw [expired_iff he]
  simp [Entry.fresh, Entry.isExpired]

/-- What is found has not expired. -/
lemma not_expired_getOrCreate (c : Cache) (raw : String) :
    ¬ (c.getOrCreate raw).2.Expired (c.getOrCreate raw).1 := by
  rcases c.getOrCreate_cases raw with ⟨k, -, live, hk⟩ | ⟨-, hk⟩ | ⟨k, -, -, hk⟩ <;> rw [hk]
  · rintro ⟨e, he, hx⟩
    rw [live e he] at hx
    cases hx
  · exact c.not_expired_create raw
  · exact (c.detach k).not_expired_create raw

/-- An entry that was there before is found exactly when it is stored and has not expired. -/
lemma fst_getOrCreate_eq_iff (he : c.entry? h = some e) :
    (c.getOrCreate raw).1 = h ↔ c.get? raw = some h ∧ ¬ c.Expired h := by
  have older : h ≠ c.entries.size := Nat.ne_of_lt (lt_size_of_some he)
  rw [expired_iff he]
  rcases c.getOrCreate_cases raw with ⟨k, hs, live, hk⟩ | ⟨hs, hk⟩ | ⟨k, hs, gone, hk⟩ <;> rw [hk]
  · constructor
    · rintro rfl
      exact ⟨hs, by rw [live e he]; exact Bool.false_ne_true⟩
    · rintro ⟨hs', -⟩
      rw [hs] at hs'
      exact Option.some.inj hs'
  · rw [fst_create, hs]
    exact iff_of_false (fun h => older h.symm) (fun h => by cases h.1)
  · rw [fst_create, size_detach]
    refine iff_of_false (fun h => older h.symm) ?_
    rintro ⟨hs', hx⟩
    rw [hs] at hs'
    cases hs'
    exact hx (gone e he)

/-- An entry that has expired is given up when its text is looked up. -/
lemma givenUp_getOrCreate (he : c.entry? h = some e) (hs : c.get? raw = some h) (hx : c.Expired h) :
    (c.getOrCreate raw).2.GivenUp h := by
  rcases c.getOrCreate_cases raw with ⟨k, hk, live, -⟩ | ⟨hn, -⟩ | ⟨k, hk, -, hc⟩
  · rw [hs] at hk
    cases hk
    rw [expired_iff he, live e he] at hx
    cases hx
  · rw [hs] at hn
    cases hn
  · rw [hs] at hk
    cases hk
    rw [hc]
    obtain ⟨e', he', left⟩ := givenUp_detach he
    exact ⟨e', entry?_create_of_some raw he', left⟩

/-- Looking one text up does nothing to the entries of others. -/
lemma sameAt_getOrCreate (ht : c.Tidy) (he : c.entry? h = some e) (hne : e.reference.raw ≠ raw) :
    c.SameAt (c.getOrCreate raw).2 h := by
  have same : Cache.entry? (c.getOrCreate raw).2 h = c.entry? h := by
    rcases c.getOrCreate_cases raw with ⟨k, -, -, hk⟩ | ⟨-, hk⟩ | ⟨k, hs, -, hk⟩ <;> rw [hk]
    · rw [entry?_create_of_some raw he, he]
    · have apart : h ≠ k := by
        rintro rfl
        obtain ⟨d, hd, hr⟩ := entry?_of_reference? (ht.stored raw h hs)
        rw [he] at hd
        cases hd
        exact hne (by rw [hr, Reference.raw_ofText])
      have left : Cache.entry? (c.detach k) h = some e := (entry?_detach_of_ne c k apart).trans he
      rw [entry?_create_of_some raw left, he]
  refine ⟨same, ?_⟩
  rw [Bool.eq_iff_iff, isCurrent_iff_of_some (same.trans he), isCurrent_iff_of_some he,
    get?_getOrCreate_of_ne c hne]

/-- Looking a text up changes what is kept under no key but its own. -/
lemma keepsBut_getOrCreate (ht : c.Tidy) (raw : String) :
    c.KeepsBut (Reference.ofText raw) (c.getOrCreate raw).2 := by
  rcases c.getOrCreate_cases raw with ⟨k, -, -, hk⟩ | ⟨-, hk⟩ | ⟨k, hs, -, hk⟩ <;> rw [hk]
  · exact ⟨rfl, fun _ _ => rfl, fun _ _ => rfl⟩
  · exact ⟨rfl, fun _ _ => rfl, fun _ _ => rfl⟩
  · obtain ⟨e, he, hr⟩ := entry?_of_reference? (ht.stored raw k hs)
    rw [← hr]
    have left := keepsBut_detach he
    exact ⟨left.keeping, left.outlines, left.files⟩

/-! ### Leaving a slot -/

/-- What takes a stored entry out of its slot. -/
lemma get?_apply_iff (he : c.entry? h = some e) (hr : e.reference.raw = raw) (a : Action) :
    (a.apply c).get? raw = some h ↔
      c.get? raw = some h ∧ a ≠ .clear ∧ a ≠ .delete h ∧ (a = .getOrCreate raw → ¬ c.Expired h) := by
  -- nothing comes back
  have back (hs : (a.apply c).get? raw = some h) : c.get? raw = some h := by
    rcases Action.get?_apply_cases hs with hs | ⟨-, hn, -⟩
    · exact hs
    · rw [he] at hn
      cases hn
  cases a with
  | getOrCreate t =>
    by_cases hraw : t = raw
    · subst hraw
      simp only [Action.apply, get?_getOrCreate_self, Option.some.injEq]
      rw [fst_getOrCreate_eq_iff he]
      simp
    · simp only [Action.apply, get?_getOrCreate_of_ne c (Ne.symm hraw)]
      simp [hraw]
  | delete k =>
    constructor
    · intro hs
      refine ⟨back hs, by simp, ?_, by simp⟩
      intro hk
      cases hk
      have gone := get?_delete_of_isCurrent he (by rw [hr]; exact back hs) raw
      rw [if_pos hr.symm] at gone
      rw [Action.apply, gone] at hs
      cases hs
    · rintro ⟨hs, -, hk, -⟩
      have apart : k ≠ h := fun h => hk (by rw [h])
      simp only [Action.apply]
      cases hd : c.entry? k with
      | none => rwa [delete_of_entry?_eq_none hd]
      | some d =>
        rcases c.delete_cases hd with ⟨hown, -⟩ | ⟨-, hdel⟩ | ⟨-, hdel⟩
        · rw [get?_delete_of_isCurrent hd hown, if_neg]
          · exact hs
          · intro hraw
            rw [← hraw, hs] at hown
            exact apart (Option.some.inj hown).symm
        · rwa [hdel, get?, slots_detach]
        · rwa [hdel]
  | clear => simp [Action.apply, clear, get?, NamedCache.get?]
  | purge =>
    simp only [Action.apply, purge]
    split <;> simp [get?]
  | tag k label => simp [Action.apply, get?]
  | advance ms => simp [Action.apply, advance, get?]

end Cache

/-! ### Runs -/

namespace State

variable {keep : Retention} {s : State} {h : Nat} {e : Entry} {raw : String}

lemma reference?_step {r : Reference} (hr : s.cache.reference? h = some r) (ev : Event) :
    (s.step keep ev).cache.reference? h = some r := by
  rcases s.step_cases keep ev with ⟨a, -, -, hstep⟩ | ⟨-, hc⟩ | ⟨k, f, -, hstep⟩
  · obtain ⟨e, he, rfl⟩ := Cache.entry?_of_reference? hr
    obtain ⟨e', he', hw⟩ := Action.exists_worn he a
    rw [hstep, ← hw.reference]
    exact Cache.reference?_of_some he'
  · rwa [hc]
  · rwa [hstep, cache_note, Cache.reference?_conclude]

lemma slots_step {ev : Event} (ha : ∀ a, ev ≠ .act a) : (s.step keep ev).cache.slots = s.cache.slots := by
  rcases s.step_cases keep ev with ⟨a, hev, -, -⟩ | ⟨-, hc⟩ | ⟨k, f, -, hstep⟩
  · exact absurd hev (ha a)
  · rw [hc]
  · rw [hstep, cache_note, Cache.slots_conclude]

/-- Of all events only what callers do takes an entry out of its slot. -/
lemma get?_step_iff (hr : s.cache.reference? h = some (Reference.ofText raw)) (ev : Event) :
    (s.step keep ev).cache.get? raw = some h ↔
      s.cache.get? raw = some h ∧ ev ≠ .act .clear ∧ ev ≠ .act (.delete h) ∧
        (ev = .act (.getOrCreate raw) → ¬ s.cache.Expired h) := by
  by_cases hev : ∃ a, ev = .act a
  · obtain ⟨a, rfl⟩ := hev
    obtain ⟨e, he, href⟩ := Cache.entry?_of_reference? hr
    have applied := Cache.get?_apply_iff he (by rw [href, Reference.raw_ofText]) a
    rw [show (s.step keep (.act a)).cache = a.apply s.cache from rfl, applied]
    simp
  · have ha : ∀ a, ev ≠ .act a := fun a h => hev ⟨a, h⟩
    rw [Cache.get?, slots_step ha]
    simp [ha, Cache.get?]

lemma reference?_run {r : Reference} (hr : s.cache.reference? h = some r) (es : List Event) :
    (s.run keep es).cache.reference? h = some r :=
  run_induction (P := fun s => s.cache.reference? h = some r) (fun _ ev hs => reference?_step hs ev) hr es

/-- An entry is in its slot after a run exactly when it was before and nothing took it out. -/
lemma get?_run_iff (hr : s.cache.reference? h = some (Reference.ofText raw)) (es : List Event) :
    (s.run keep es).cache.get? raw = some h ↔
      s.cache.get? raw = some h ∧ .act .clear ∉ es ∧ .act (.delete h) ∉ es ∧
        ∀ p, p ++ [.act (.getOrCreate raw)] <+: es → ¬ (s.run keep p).cache.Expired h := by
  induction es using List.reverseRecOn with
  | nil => simp
  | append_singleton es ev ih =>
    rw [run_concat, get?_step_iff (reference?_run hr es), ih]
    simp only [List.mem_append, List.mem_singleton, not_or, List.prefix_concat_iff]
    constructor
    · rintro ⟨⟨hs, hc, hd, hx⟩, hc', hd', hx'⟩
      refine ⟨hs, ⟨hc, Ne.symm hc'⟩, ⟨hd, Ne.symm hd'⟩, fun p hp => ?_⟩
      rcases hp with hp | hp
      · obtain ⟨rfl, hev⟩ := List.append_inj' hp rfl
        exact hx' (List.singleton_injective hev).symm
      · exact hx p hp
    · rintro ⟨hs, ⟨hc, hc'⟩, ⟨hd, hd'⟩, hx⟩
      refine ⟨⟨hs, hc, hd, fun p hp => hx p (Or.inr hp)⟩, Ne.symm hc', Ne.symm hd', ?_⟩
      rintro rfl
      exact hx es (Or.inl rfl)

/-- What is found later is the same entry exactly when it is still stored and has not expired whenever
its text was looked up. -/
lemma fst_getOrCreate_run_iff (hr : s.cache.reference? h = some (Reference.ofText raw))
    (hs : s.cache.get? raw = some h) (es : List Event) :
    ((s.run keep es).cache.getOrCreate raw).1 = h ↔
      .act .clear ∉ es ∧ .act (.delete h) ∉ es ∧ ∀ p, p ++ [.act (.getOrCreate raw)] <+:
        es ++ [.act (.getOrCreate raw)] → ¬ (s.run keep p).cache.Expired h := by
  have there : (s.run keep es).cache.reference? h = some (Reference.ofText raw) := reference?_run hr es
  obtain ⟨e, he, -⟩ := Cache.entry?_of_reference? there
  rw [Cache.fst_getOrCreate_eq_iff he, get?_run_iff hr]
  simp only [List.prefix_concat_iff, hs, true_and]
  constructor
  · rintro ⟨⟨hc, hd, hx⟩, live⟩
    refine ⟨hc, hd, fun p hp => ?_⟩
    rcases hp with hp | hp
    · obtain ⟨rfl, -⟩ := List.append_inj' hp rfl
      exact live
    · exact hx p hp
  · rintro ⟨hc, hd, hx⟩
    exact ⟨⟨hc, hd, fun p hp => hx p (Or.inr hp)⟩, hx es (Or.inl rfl)⟩

/-- An entry that is not stored is never stored again. -/
lemma isCurrent_run_eq_false (hs : s.Sound) (he : s.cache.entry? h = some e) (hc : s.cache.isCurrent h = false)
    (es : List Event) : (s.run keep es).cache.isCurrent h = false := by
  have hr : s.cache.reference? h = some (Reference.ofText e.reference.raw) := by
    rw [Cache.reference?_of_some he, ← hs.tidy.read h e he]
  rw [← Bool.not_eq_true, Cache.isCurrent_iff_of_reference? (reference?_run hr es), get?_run_iff hr]
  rintro ⟨stored, -⟩
  rw [(Cache.isCurrent_iff_of_reference? hr).mpr stored] at hc
  cases hc

end State

/-- Every program is a run, and after every run: each slot holds an entry of its own text; looking
a text up finds the stored entry of the text, which has not expired, gives up the one that has, and
does nothing to entries of other texts or to what is kept under other keys; a later look-up finds
the same entry exactly when in between no entries were dropped, that entry was not deleted, and it
had not expired whenever its text was looked up; and an entry that is not stored will never be
stored. -/
theorem stored_entry_identity (keep : Retention) (now : Time.Instant) (store : Option ContentStore) :
    (∀ ops, (State.initial now store).Yields keep (Op.sightsAll keep { now, store } ops)
        (State.idle (Op.runAll keep { now, store } ops))) ∧
      ∀ es, let s := (State.initial now store).run keep es
        (∀ raw h, s.cache.get? raw = some h → ∃ e, s.cache.entry? h = some e ∧ e.reference.raw = raw) ∧
        (∀ raw, let h := (s.cache.getOrCreate raw).1
          let t := s.step keep (.act (.getOrCreate raw))
          t.cache.now = s.cache.now ∧ t.cache.get? raw = some h ∧ ¬ t.cache.Expired h ∧
          (∀ k, s.cache.get? raw = some k → s.cache.Expired k → k ≠ h ∧ t.cache.GivenUp k) ∧
          (∀ k e, s.cache.entry? k = some e → e.reference.raw ≠ raw → s.cache.SameAt t.cache k) ∧
          s.cache.KeepsBut (Reference.ofText raw) t.cache ∧
          ∀ fs, ((t.run keep fs).cache.getOrCreate raw).1 = h ↔
            .act .clear ∉ fs ∧ .act (.delete h) ∉ fs ∧ ∀ p, p ++ [.act (.getOrCreate raw)] <+:
              fs ++ [.act (.getOrCreate raw)] → ¬ (t.run keep p).cache.Expired h) ∧
        ∀ h, (∃ e, s.cache.entry? h = some e) → s.cache.isCurrent h = false →
          ∀ fs, (s.run keep fs).cache.isCurrent h = false := by
  refine ⟨fun ops => State.yields_runAll _ ops, fun es => ?_⟩
  intro s
  have sound : s.Sound := State.run_induction (fun _ ev hs => hs.step ev) (State.Sound.initial now store) es
  refine ⟨fun raw h hs => ?_, fun raw => ?_, ?_⟩
  · obtain ⟨e, he, hr⟩ := Cache.entry?_of_reference? (sound.tidy.stored raw h hs)
    exact ⟨e, he, by rw [hr, Reference.raw_ofText]⟩
  · intro h t
    have found : t.cache.get? raw = some h := s.cache.get?_getOrCreate_self raw
    refine ⟨s.cache.now_getOrCreate raw, found, s.cache.not_expired_getOrCreate raw, fun k hk hx => ?_,
      fun k e he hne => Cache.sameAt_getOrCreate sound.tidy he hne,
      Cache.keepsBut_getOrCreate sound.tidy raw, fun fs => ?_⟩
    · obtain ⟨e, he, -⟩ := Cache.entry?_of_reference? (sound.tidy.stored raw k hk)
      refine ⟨?_, Cache.givenUp_getOrCreate he hk hx⟩
      intro same
      exact ((Cache.fst_getOrCreate_eq_iff he).mp same.symm).2 hx
    · have tidy : t.cache.Tidy := (sound.step (.act (.getOrCreate raw))).tidy
      exact State.fst_getOrCreate_run_iff (tidy.stored raw h found) found fs
  · rintro h ⟨e, he⟩ hc fs
    exact State.isCurrent_run_eq_false sound he hc fs

end CiWorkflow.Resolution
