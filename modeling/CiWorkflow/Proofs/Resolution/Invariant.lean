import CiWorkflow.Proofs.Resolution.Finding
import CiWorkflow.Proofs.Resolution.Run

/-!
# What holds in every state

Callers can take an entry's availability away but cannot give it (`Entry.Worn`), and only looking a
text up makes an entry. From this follows that a slot always holds an entry of its own text, that
what is available can be resolved, and that an entry is not available while it is being resolved
(`State.Sound`).
-/

namespace CiWorkflow.Resolution

/-! ### What actions leave of an entry -/

/-- What callers can leave of an entry: it may stop being available and it may get labels. -/
structure Entry.Worn (e e' : Entry) : Prop where
  reference : e'.reference = e.reference
  interface : e'.interface = e.interface
  expires : e'.expires = e.expires
  available : e'.available = true → e.available = true

namespace Entry

lemma Worn.refl (e : Entry) : e.Worn e := ⟨rfl, rfl, rfl, id⟩

lemma Worn.not_available {e e' : Entry} (h : e.Worn e') (ha : e.available = false) :
    e'.available = false := by
  cases hav : e'.available with
  | false => rfl
  | true => rw [h.available hav] at ha; cases ha

lemma worn_invalidated (e : Entry) :
    e.Worn e.invalidated :=
  ⟨rfl, rfl, rfl, fun h => by simp [invalidated] at h⟩

lemma worn_tagged (e : Entry) (label : String) : e.Worn (e.tagged label) := ⟨rfl, rfl, rfl, id⟩

lemma Worn.trans {e e' e'' : Entry} (h : e.Worn e') (h' : e'.Worn e'') : e.Worn e'' :=
  ⟨h'.reference.trans h.reference, h'.interface.trans h.interface, h'.expires.trans h.expires,
    fun ha => h.available (h'.available ha)⟩

end Entry

namespace Cache

variable {c : Cache} {h : Nat} {e : Entry}

lemma worn_modifyEntry {f : Entry → Entry} (hf : ∀ e : Entry, e.Worn (f e))
    (he : c.entry? h = some e) (k : Nat) :
    ∃ e', Cache.entry? (c.modifyEntry k f) h = some e' ∧ e.Worn e' := by
  rw [entry?_modifyEntry]
  split
  · exact ⟨f e, by simp [he], hf e⟩
  · exact ⟨e, he, Entry.Worn.refl e⟩

lemma worn_detach (he : c.entry? h = some e) (k : Nat) :
    ∃ e', Cache.entry? (c.detach k) h = some e' ∧ e.Worn e' := by
  rw [entry?_detach, ← entry?_modifyEntry]
  exact worn_modifyEntry Entry.worn_invalidated he k

end Cache

namespace Action

variable {c : Cache} {h : Nat} {e : Entry}

lemma exists_worn (he : c.entry? h = some e) (a : Action) :
    ∃ e', Cache.entry? (a.apply c) h = some e' ∧ e.Worn e' := by
  have same : ∃ e', c.entry? h = some e' ∧ e.Worn e' := ⟨e, he, Entry.Worn.refl e⟩
  cases a with
  | getOrCreate raw =>
    simp only [apply]
    rcases c.getOrCreate_cases raw with ⟨k, -, -, hk⟩ | ⟨-, hk⟩ | ⟨k, -, -, hk⟩ <;> rw [hk]
    · exact same
    · exact ⟨e, Cache.entry?_create_of_some raw he, Entry.Worn.refl e⟩
    · obtain ⟨e', he', hw⟩ := Cache.worn_detach he k
      exact ⟨e', Cache.entry?_create_of_some raw he', hw⟩
  | delete k =>
    simp only [apply]
    cases hk : c.entry? k with
    | none => rw [Cache.delete_of_entry?_eq_none hk]; exact same
    | some d =>
      rcases c.delete_cases hk with ⟨-, hd⟩ | ⟨-, hd⟩ | ⟨-, hd⟩ <;> rw [hd]
      · exact Cache.worn_detach he k
      · exact Cache.worn_detach he k
      · exact Cache.worn_modifyEntry Entry.worn_invalidated he k
  | clear => exact same
  | purge =>
    simp only [apply, Cache.purge]
    split <;> exact same
  | tag k label => exact Cache.worn_modifyEntry (fun e => e.worn_tagged label) he k
  | advance ms => exact same

lemma exists_worn_applyAll (he : c.entry? h = some e) (as : List Action) :
    ∃ e', Cache.entry? (applyAll c as) h = some e' ∧ e.Worn e' := by
  induction as generalizing c e with
  | nil => exact ⟨e, he, Entry.Worn.refl e⟩
  | cons a as ih =>
    obtain ⟨e', he', hw⟩ := exists_worn he a
    obtain ⟨e'', he'', hw'⟩ := ih he'
    exact ⟨e'', he'', hw.trans hw'⟩

/-- What each of some actions keeps, all of them keep. -/
lemma applyAll_induction {P : Cache → Prop} {Q : Action → Prop}
    (act : ∀ (c : Cache) (a : Action), Q a → P c → P (a.apply c))
    {as : List Action} (ha : ∀ a ∈ as, Q a) (hc : P c) : P (applyAll c as) := by
  induction as generalizing c with
  | nil => exact hc
  | cons a as ih =>
    refine ih (fun b hb => ha b (List.mem_cons_of_mem a hb)) ?_
    exact act c a (ha a List.mem_cons_self) hc

/-- An entry that is there after an action but not before was made for the text that was looked up.
-/
lemma fresh_of_new {a : Action} (hn : c.entry? h = none) (he : Cache.entry? (a.apply c) h = some e) :
    ∃ raw, a = getOrCreate raw ∧ e = Entry.fresh raw := by
  cases a with
  | getOrCreate raw =>
    refine ⟨raw, rfl, ?_⟩
    simp only [apply] at he
    rcases c.getOrCreate_cases raw with ⟨k, -, -, hk⟩ | ⟨-, hk⟩ | ⟨k, -, -, hk⟩ <;> rw [hk] at he
    · rw [hn] at he; cases he
    · rw [Cache.entry?_create, hn] at he
      split at he <;> simp_all
    · rw [Cache.entry?_create, Cache.entry?_detach, hn] at he
      split at he <;> simp_all
  | delete k =>
    simp only [apply] at he
    cases hk : c.entry? k with
    | none => rw [Cache.delete_of_entry?_eq_none hk, hn] at he; cases he
    | some d =>
      have gone : Cache.entry? (c.detach k) h = none := by simp [Cache.entry?_detach, hn]
      rcases c.delete_cases hk with ⟨-, hd⟩ | ⟨-, hd⟩ | ⟨-, hd⟩ <;> rw [hd] at he
      · have there : Cache.entry? (c.detach k) h = some e := he
        rw [gone] at there; cases there
      · rw [gone] at he; cases he
      · simp [Cache.entry?_modifyEntry, hn] at he
  | clear => rw [show Cache.entry? (apply c clear) h = c.entry? h from rfl, hn] at he; cases he
  | purge =>
    have same : Cache.entry? (apply c purge) h = c.entry? h := by
      simp only [apply, Cache.purge]
      split <;> rfl
    rw [same, hn] at he; cases he
  | tag k label => simp [apply, Cache.entry?_modifyEntry, hn] at he
  | advance ms => rw [show Cache.entry? (apply c (advance ms)) h = c.entry? h from rfl, hn] at he; cases he

/-- An entry that is there after an action was there before, or is a new one. -/
lemma entry?_apply_cases {a : Action} {e' : Entry} (he : Cache.entry? (a.apply c) h = some e') :
    (∃ e, c.entry? h = some e ∧ e.Worn e') ∨
      c.entry? h = none ∧ ∃ raw, a = getOrCreate raw ∧ e' = Entry.fresh raw := by
  cases hc : c.entry? h with
  | none => exact Or.inr ⟨rfl, fresh_of_new hc he⟩
  | some e =>
    obtain ⟨e'', he'', hw⟩ := exists_worn hc a
    rw [he] at he''
    cases he''
    exact Or.inl ⟨e, rfl, hw⟩

lemma available_of_apply {a : Action} {e' : Entry} (he : Cache.entry? (a.apply c) h = some e')
    (ha : e'.available = true) :
    ∃ e, c.entry? h = some e ∧ e.available = true ∧ e.Worn e' := by
  rcases entry?_apply_cases he with ⟨e, he, hw⟩ | ⟨-, raw, -, rfl⟩
  · exact ⟨e, he, hw.available ha, hw⟩
  · simp [Entry.fresh] at ha

/-- A slot holds what it held before an action, or a new entry. -/
lemma get?_apply_cases {a : Action} {raw : String} (hs : (a.apply c).get? raw = some h) :
    c.get? raw = some h ∨
      a = getOrCreate raw ∧ c.entry? h = none ∧ Cache.entry? (a.apply c) h = some (Entry.fresh raw) := by
  cases a with
  | getOrCreate t =>
    simp only [apply] at hs ⊢
    have new (d : Cache) (hd : d.entries.size = c.entries.size) (hk : c.getOrCreate t = d.create t)
        (hsame : d.slots = c.slots) :
        c.get? raw = some h ∨
          getOrCreate t = getOrCreate raw ∧ c.entry? h = none ∧
            Cache.entry? (c.getOrCreate t).2 h = some (Entry.fresh raw) := by
      rw [hk, Cache.get?_create] at hs
      split at hs
      · rename_i ht
        cases hs
        refine Or.inr ⟨by rw [ht], by simp [Cache.entry?, hd], ?_⟩
        rw [hk, Cache.entry?_create, ht]
        simp
      · exact Or.inl (by rw [Cache.get?, hsame] at hs; exact hs)
    rcases c.getOrCreate_cases t with ⟨k, -, -, hk⟩ | ⟨-, hk⟩ | ⟨k, -, -, hk⟩
    · rw [hk] at hs; exact Or.inl hs
    · exact new c rfl hk rfl
    · exact new (c.detach k) (c.size_detach k) hk (c.slots_detach k)
  | delete k =>
    left
    simp only [apply] at hs
    cases hk : c.entry? k with
    | none => rwa [Cache.delete_of_entry?_eq_none hk] at hs
    | some d =>
      rcases c.delete_cases hk with ⟨-, hd⟩ | ⟨-, hd⟩ | ⟨-, hd⟩ <;> rw [hd, Cache.get?] at hs
      · simp only [NamedCache.get?_erase] at hs
        split at hs
        · cases hs
        · exact hs
      · rwa [Cache.slots_detach] at hs
      · exact hs
  | clear => simp [apply, Cache.clear, Cache.get?, NamedCache.get?] at hs
  | purge =>
    left
    simp only [apply, Cache.purge] at hs
    split at hs <;> exact hs
  | tag k label => exact Or.inl hs
  | advance ms => exact Or.inl hs

/-- No action leaves an outline. -/
lemma get?_outlines_of_apply {a : Action} {key : String} {o : Outline}
    (ho : (a.apply c).outlines.get? key = some o) :
    c.outlines.get? key = some o := by
  have detached {k : Nat} (h : (c.detach k).outlines.get? key = some o) : c.outlines.get? key = some o := by
    cases hk : c.entry? k with
    | none => simpa [Cache.detach, hk] using h
    | some d =>
      rw [Cache.get?_outlines_detach hk] at h
      split at h
      · cases h
      · exact h
  cases a with
  | getOrCreate raw =>
    simp only [apply] at ho
    rcases c.getOrCreate_cases raw with ⟨k, -, -, hk⟩ | ⟨-, hk⟩ | ⟨k, -, -, hk⟩ <;> rw [hk] at ho
    · exact ho
    · exact ho
    · exact detached ho
  | delete k =>
    simp only [apply] at ho
    cases he : c.entry? k with
    | none => rwa [Cache.delete_of_entry?_eq_none he] at ho
    | some d =>
      rcases c.delete_cases he with ⟨-, hd⟩ | ⟨-, hd⟩ | ⟨-, hd⟩ <;> rw [hd] at ho
      · exact detached ho
      · exact detached ho
      · exact ho
  | clear => simp [apply, Cache.clear, NamedCache.get?] at ho
  | purge =>
    simp only [apply, Cache.purge] at ho
    split at ho <;> exact ho
  | tag k label => exact ho
  | advance ms => exact ho

end Action

/-! ### Slots -/

/-- Every slot holds an entry of its own text, and what is available can be resolved. -/
structure Cache.Tidy (c : Cache) : Prop where
  stored : ∀ raw h, c.get? raw = some h → c.reference? h = some (Reference.ofText raw)
  read : ∀ h e, c.entry? h = some e → e.reference = Reference.ofText e.reference.raw
  resolvable : ∀ h e, c.entry? h = some e → e.available = true → e.reference.isResolvable = true

namespace Cache.Tidy

variable {c : Cache}

lemma initial (now : Time.Instant) (store : Option ContentStore) : Tidy { now, store } :=
  ⟨fun raw h hs => by simp [get?, NamedCache.get?] at hs, fun h e he => by simp [Cache.entry?] at he,
    fun h e he => by simp [Cache.entry?] at he⟩

lemma apply (ht : c.Tidy) (a : Action) : (a.apply c).Tidy := by
  refine ⟨fun raw h hs => ?_, fun h e he => ?_, fun h e he ha => ?_⟩
  · rcases Action.get?_apply_cases hs with hs | ⟨-, -, he⟩
    · obtain ⟨e, he, hr⟩ := entry?_of_reference? (ht.stored raw h hs)
      obtain ⟨e', he', hw⟩ := Action.exists_worn he a
      rw [reference?_of_some he', hw.reference, hr]
    · exact reference?_of_some he
  · rcases Action.entry?_apply_cases he with ⟨d, hd, hw⟩ | ⟨-, raw, -, rfl⟩
    · rw [hw.reference]; exact ht.read h d hd
    · rfl
  · obtain ⟨d, hd, hda, hw⟩ := Action.available_of_apply he ha
    rw [hw.reference]; exact ht.resolvable h d hd hda

lemma conclude (ht : c.Tidy) (keep : Retention) {h : Nat} {e : Entry} (he : c.entry? h = some e)
    (hr : e.reference.isResolvable = true) (f : Finding) : (c.conclude keep h f).Tidy := by
  refine ⟨fun raw k hs => ?_, fun k d hd => ?_, fun k d hd ha => ?_⟩
  · rw [get?, slots_conclude] at hs
    rw [reference?_conclude]
    exact ht.stored raw k hs
  · have hk := (c.reference?_conclude keep h f k).symm.trans (reference?_of_some hd)
    obtain ⟨e', he', hre⟩ := entry?_of_reference? hk
    rw [← hre]; exact ht.read k e' he'
  · by_cases hk : k = h
    · subst hk
      rw [entry?_conclude keep he] at hd
      cases hd
      rwa [reference_concluded]
    · rw [entry?_conclude_of_ne _ _ _ _ hk] at hd
      exact ht.resolvable k d hd ha

end Cache.Tidy

/-! ### States -/

/-- The slots are in order, what is being resolved is not available, and only manifests of stored
entries are written. -/
structure State.Sound (s : State) : Prop where
  tidy : s.cache.Tidy
  waiting : ∀ h t, s.stage h = some t →
    ∃ e, s.cache.entry? h = some e ∧ e.available = false ∧ e.reference.isResolvable = true
  writing : ∀ h f, s.stage h = some (.writing f) → ∃ o text, f = .timely o (some text)

namespace State.Sound

variable {keep : Retention} {s : State}

lemma initial (now : Time.Instant) (store : Option ContentStore) : (State.initial now store).Sound :=
  ⟨Cache.Tidy.initial now store, fun h t ht => by simp [State.initial, idle] at ht,
    fun h f hf => by simp [State.initial, idle] at hf⟩

lemma act (hs : s.Sound) (a : Action) : State.Sound { s with cache := a.apply s.cache } := by
  refine ⟨hs.tidy.apply a, fun h t ht => ?_, hs.writing⟩
  obtain ⟨e, he, ha, hr⟩ := hs.waiting h t ht
  obtain ⟨e', he', hw⟩ := Action.exists_worn he a
  exact ⟨e', he', hw.not_available ha, by rwa [hw.reference]⟩

/-- A resolving can be brought to any stage while its entry is not available. -/
lemma put (hs : s.Sound) {h : Nat} {e : Entry} (he : s.cache.entry? h = some e) (ha : e.available = false)
    (hr : e.reference.isResolvable = true) {t : Stage}
    (ht : ∀ f, t = .writing f → ∃ o text, f = .timely o (some text)) :
    (s.put h (some t)).Sound := by
  refine ⟨hs.tidy, fun k u hu => ?_, fun k f hf => ?_⟩
  · by_cases hk : k = h
    · subst hk; exact ⟨e, he, ha, hr⟩
    · rw [stage_put, if_neg hk] at hu; exact hs.waiting k u hu
  · by_cases hk : k = h
    · subst hk
      rw [stage_put, if_pos rfl] at hf
      exact ht f (Option.some.inj hf)
    · rw [stage_put, if_neg hk] at hf; exact hs.writing k f hf

lemma note (hs : s.Sound) {h : Nat} {t : Stage} (ht : s.stage h = some t) (f : Finding) :
    (s.note keep h f).Sound := by
  obtain ⟨e, he, -, hr⟩ := hs.waiting h t ht
  refine ⟨hs.tidy.conclude keep he hr f, fun k u hu => ?_, fun k g hg => ?_⟩
  · rw [stage_note] at hu
    split at hu
    · cases hu
    · rename_i hk
      obtain ⟨d, hd, h'⟩ := hs.waiting k u hu
      exact ⟨d, by rw [cache_note, Cache.entry?_conclude_of_ne _ _ _ _ hk]; exact hd, h'⟩
  · rw [stage_note] at hg
    split at hg
    · cases hg
    · exact hs.writing k g hg

lemma step (hs : s.Sound) (e : Event) : (s.step keep e).Sound := by
  have taken := s.takes_step keep e
  generalize s.step keep e = s' at taken ⊢
  cases taken with
  | act a => exact hs.act a
  | start free plan =>
    obtain ⟨e, he, ha, hr⟩ := Cache.exists_of_plan? plan
    exact hs.put he ha hr fun f hf => by cases hf
  | @miss h _ _ reading =>
    obtain ⟨e, he, ha, hr⟩ := hs.waiting h _ reading
    exact hs.put he ha hr fun f hf => by cases hf
  | @answer h load a loading =>
    rcases s.judge_cases keep h (s.cache.finding h load a) with ⟨hw, judged⟩ | ⟨-, judged⟩ <;> rw [judged]
    · obtain ⟨e, he, ha, hr⟩ := hs.waiting h _ loading
      refine hs.put he ha hr fun f hf => ?_
      cases hf
      exact Finding.eq_timely_of_isWriting hw
    · exact hs.note loading _
  | finish writing => exact hs.note writing _
  | nothing => exact hs

end State.Sound

end CiWorkflow.Resolution
