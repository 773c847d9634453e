import CiWorkflow.Proofs.Resolution.Program

/-!
# Entries of different texts

Entries are stored by the text as it was written, outlines and files are kept under the key, and the
key does not tell texts apart that differ in the blanks around them. While no two texts in use
differ in nothing else, every stored and available entry has its outline, and giving up the entry of
one text takes nothing from the entries of others. With two such texts in use neither holds.
-/

namespace CiWorkflow.Resolution

/-! ### Sets of texts -/

/-- No two texts of a set that name something differ only in the blanks around them. -/
def Distinct (R : Set String) : Prop :=
  ∀ a ∈ R, ∀ b ∈ R, (Reference.ofText a).isResolvable = true →
    (Reference.ofText a).text = (Reference.ofText b).text → a = b

lemma Distinct.contentKey_ne {R : Set String} (hd : Distinct R) (hR : Reference.NoCollision R)
    {a b : String} (ha : a ∈ R) (hb : b ∈ R) (hr : (Reference.ofText a).isResolvable = true) (hne : a ≠ b) :
    (Reference.ofText a).contentKey ≠ (Reference.ofText b).contentKey := by
  intro h
  exact hne (hd a ha b hb hr ((Reference.contentKey_ofText_eq_iff hR ha hb).mp h))

/-- What a file of kept content is named by determines the key. -/
lemma contentKey_eq_of_fileName? {r s : Reference} {name : String}
    (hr : ContentStore.fileName? r = some name) (hs : ContentStore.fileName? s = some name) :
    r.contentKey = s.contentKey := by
  unfold ContentStore.fileName? at hr hs
  split at hr
  · cases hr
  · split at hs
    · cases hs
    · have h := (Option.some.inj hr).trans (Option.some.inj hs).symm
      have h' := congrArg String.toList h
      simp only [String.toList_append] at h'
      obtain ⟨front, -⟩ := List.append_inj' h' rfl
      obtain ⟨front, -⟩ := List.append_inj' front rfl
      exact String.toList_inj.mp front

lemma isResolvable_of_fileName? {r : Reference} {name : String}
    (h : ContentStore.fileName? r = some name) : r.isResolvable = true := by
  unfold ContentStore.fileName? at h
  split at h
  · cases h
  · rename_i hn
    simp only [Bool.or_eq_true, Bool.not_eq_true', not_or, Bool.not_eq_false] at hn
    exact hn.2

namespace Cache

variable {R : Set String} {c c' : Cache} {h : Nat} {e : Entry}

/-- Every entry was made for a text of the set. -/
def Over (R : Set String) (c : Cache) : Prop := ∀ h e, c.entry? h = some e → e.reference.raw ∈ R

/-- Every stored and available entry has its outline, and the outline's interface. -/
def Provided (c : Cache) : Prop :=
  ∀ h e, c.isCurrent h = true → c.entry? h = some e → e.available = true →
    ∃ o, c.outline? h = some o ∧ e.interface = Interface.ofDocument o.document e.reference

/-- An entry keeps its outline and its file. -/
def Keeps (c c' : Cache) (h : Nat) (r : Reference) : Prop :=
  c'.outline? h = c.outline? h ∧ ∀ name, ContentStore.fileName? r = some name → c'.file? name = c.file? name

/-- Giving up the entry of one text takes nothing from the stored entries of others, whether it has
expired when its text is looked up or is deleted. -/
def Separate (R : Set String) (c : Cache) : Prop :=
  ∀ h e, c.isCurrent h = true → c.entry? h = some e →
    (∀ raw ∈ R, raw ≠ e.reference.raw → c.Keeps (c.getOrCreate raw).2 h e.reference) ∧
      ∀ k d, c.entry? k = some d → d.reference.raw ≠ e.reference.raw → c.Keeps (c.delete k) h e.reference

namespace Over

lemma initial (now : Time.Instant) (store : Option ContentStore) : Over R { now, store } := by
  intro h e he
  simp [Cache.entry?] at he

lemma apply (ho : c.Over R) {a : Action} (ha : a.On R) : (a.apply c).Over R := by
  intro h e' he'
  rcases Action.entry?_apply_cases he' with ⟨e, he, hw⟩ | ⟨-, raw, rfl, rfl⟩
  · rw [hw.reference]
    exact ho h e he
  · exact ha

lemma conclude (ho : c.Over R) (keep : Retention) (f : Finding) : (c.conclude keep h f).Over R := by
  intro k d hd
  have hk := (c.reference?_conclude keep h f k).symm.trans (reference?_of_some hd)
  obtain ⟨e, he, hr⟩ := entry?_of_reference? hk
  rw [← hr]
  exact ho k e he

end Over

/-! ### Giving up an entry -/

section apart

variable (hR : Reference.NoCollision R) (hd : Distinct R) (ht : c.Tidy) (ho : c.Over R)

include hR hd ht ho

/-- Entries of different texts have different keys, where one of them names something. -/
lemma contentKey_ne {k : Nat} {d : Entry} (he : c.entry? h = some e) (hk : c.entry? k = some d)
    (hr : e.reference.isResolvable = true) (hne : e.reference.raw ≠ d.reference.raw) :
    e.reference.contentKey ≠ d.reference.contentKey := by
  rw [ht.read h e he] at hr
  rw [ht.read h e he, ht.read k d hk]
  exact hd.contentKey_ne hR (ho h e he) (ho k d hk) hr hne

lemma keeps_detach {k : Nat} {d : Entry} (he : c.entry? h = some e) (hk : c.entry? k = some d)
    (hne : e.reference.raw ≠ d.reference.raw) : c.Keeps (c.detach k) h e.reference := by
  have apart : h ≠ k := by
    rintro rfl
    rw [he] at hk
    cases hk
    exact hne rfl
  have he' : Cache.entry? (c.detach k) h = some e := by rw [entry?_detach_of_ne c k apart, he]
  refine ⟨?_, fun name hname => ?_⟩
  · cases ha : e.available with
    | false => rw [outline?_of_not_available he' ha, outline?_of_not_available he ha]
    | true =>
      rw [outline?_of_some he' ha, outline?_of_some he ha, get?_outlines_detach hk, if_neg]
      exact contentKey_ne hR hd ht ho he hk (ht.resolvable h e he ha) hne
  · rw [file?_detach hk, if_neg]
    intro hname'
    have hr := isResolvable_of_fileName? hname
    exact contentKey_ne hR hd ht ho he hk hr hne (contentKey_eq_of_fileName? hname hname')

omit hR hd ht ho in
lemma keeps_create (he : c.entry? h = some e) (raw : String) (r : Reference) :
    c.Keeps (c.create raw).2 h r := by
  refine ⟨outline?_congr ?_ rfl, fun name _ => rfl⟩
  rw [entry?_create_of_some raw he, he]

omit hR hd ht ho in
lemma keeps_invalidated {k : Nat} (hk : h ≠ k) (r : Reference) :
    c.Keeps (c.modifyEntry k Entry.invalidated) h r :=
  ⟨outline?_congr (entry?_modifyEntry_of_ne c k _ hk) rfl, fun _ _ => rfl⟩

/-- Where no two texts differ only in the blanks around them, entries of different texts have
nothing in common. -/
lemma separate : c.Separate R := by
  intro h e hc he
  constructor
  · intro raw _ hne
    rcases c.getOrCreate_cases raw with ⟨k, -, -, hk⟩ | ⟨-, hk⟩ | ⟨k, hs, -, hk⟩ <;> rw [hk]
    · exact ⟨rfl, fun name _ => rfl⟩
    · exact keeps_create he raw e.reference
    · obtain ⟨d, hkd, hr⟩ := entry?_of_reference? (ht.stored raw k hs)
      have hraw : d.reference.raw = raw := by rw [hr, Reference.raw_ofText]
      have apart : h ≠ k := by
        rintro rfl
        rw [he] at hkd
        cases hkd
        exact hne hraw.symm
      have kept := keeps_detach hR hd ht ho he hkd (by rw [hraw]; exact hne.symm)
      have made := keeps_create (c := c.detach k) ((entry?_detach_of_ne c k apart).trans he) raw e.reference
      exact ⟨made.1.trans kept.1, fun name hname => (made.2 name hname).trans (kept.2 name hname)⟩
  · intro k d hk hne
    rcases c.delete_cases hk with ⟨-, hdel⟩ | ⟨-, hdel⟩ | ⟨-, hdel⟩ <;> rw [hdel]
    · exact keeps_detach hR hd ht ho he hk hne.symm
    · exact keeps_detach hR hd ht ho he hk hne.symm
    · refine keeps_invalidated ?_ e.reference
      rintro rfl
      rw [he] at hk
      cases hk
      exact hne rfl

end apart

/-! ### Stored and available entries have their outlines -/

/-- An entry that is still stored after its own text was looked up has not expired. -/
lemma outline?_getOrCreate_own (he : c.entry? h = some e) (hs : c.get? e.reference.raw = some h)
    (hs' : (c.getOrCreate e.reference.raw).2.get? e.reference.raw = some h) :
    (c.getOrCreate e.reference.raw).2.outline? h = c.outline? h := by
  rcases c.getOrCreate_cases e.reference.raw with ⟨k, -, -, hk⟩ | ⟨hn, -⟩ | ⟨k, -, -, hk⟩
  · rw [hk]
  · rw [hs] at hn
    cases hn
  · rw [hk, get?_create, if_pos rfl, size_detach] at hs'
    exact absurd (Option.some.inj hs').symm (Nat.ne_of_lt (lt_size_of_some he))

/-- An entry that is still stored after one of its own text was deleted is another one. -/
lemma outline?_delete_own {k : Nat} {d : Entry} (hs : c.get? e.reference.raw = some h)
    (hk : c.entry? k = some d) (hraw : d.reference.raw = e.reference.raw)
    (hs' : (c.delete k).get? e.reference.raw = some h) : (c.delete k).outline? h = c.outline? h := by
  rcases c.delete_cases hk with ⟨-, hdel⟩ | ⟨hn, -⟩ | ⟨⟨j, hj, hn⟩, hdel⟩
  · rw [hdel, hraw] at hs'
    simp [get?] at hs'
  · rw [hraw, hs] at hn
    cases hn
  · rw [hraw, hs] at hn
    cases hn
    rw [hdel]
    exact (keeps_invalidated hj e.reference).1

/-- Between two caches only what is stored and available in the second one counts. -/
lemma Provided.mono (hp : c.Provided)
    (back : ∀ h e', c'.isCurrent h = true → c'.entry? h = some e' → e'.available = true →
      ∃ e, c.isCurrent h = true ∧ c.entry? h = some e ∧ e.available = true ∧ e.Worn e' ∧
        c'.outline? h = c.outline? h) :
    c'.Provided := by
  intro h e' hc' he' ha'
  obtain ⟨e, hc, he, ha, hw, ho⟩ := back h e' hc' he' ha'
  obtain ⟨o, hout, hi⟩ := hp h e hc he ha
  exact ⟨o, by rw [ho, hout], by rw [hw.interface, hw.reference, hi]⟩

lemma Provided.initial (now : Time.Instant) (store : Option ContentStore) : Provided { now, store } := by
  intro h e _ he
  simp [Cache.entry?] at he

lemma Provided.apply (hp : c.Provided) (hR : Reference.NoCollision R) (hd : Distinct R)
    (ht : c.Tidy) (ho : c.Over R)
    {a : Action} (ha : a.On R) : (a.apply c).Provided := by
  refine hp.mono fun h e' hc' he' hav' => ?_
  obtain ⟨e, he, hav, hw⟩ := Action.available_of_apply he' hav'
  rw [isCurrent_iff_of_some he', hw.reference] at hc'
  have hs : c.get? e.reference.raw = some h := by
    rcases Action.get?_apply_cases hc' with hs | ⟨-, hn, -⟩
    · exact hs
    · rw [he] at hn
      cases hn
  have hc : c.isCurrent h = true := (isCurrent_iff_of_some he).mpr hs
  refine ⟨e, hc, he, hav, hw, ?_⟩
  obtain ⟨looked, deleted⟩ := separate hR hd ht ho h e hc he
  cases a with
  | getOrCreate raw =>
    by_cases hraw : raw = e.reference.raw
    · subst hraw
      exact outline?_getOrCreate_own he hs hc'
    · exact (looked raw ha hraw).1
  | delete k =>
    simp only [Action.apply] at hc' ⊢
    cases hk : c.entry? k with
    | none => rw [delete_of_entry?_eq_none hk]
    | some d =>
      by_cases hraw : d.reference.raw = e.reference.raw
      · exact outline?_delete_own hs hk hraw hc'
      · exact (deleted k d hk hraw).1
  | clear => simp [Action.apply, clear, get?, NamedCache.get?] at hc'
  | purge =>
    simp only [Action.apply, purge]
    split <;> rfl
  | tag k label =>
    rw [outline?_of_some he' hav', outline?_of_some he hav, hw.reference]
    rfl
  | advance ms => rfl

lemma Provided.settle (hp : c.Provided) (hR : Reference.NoCollision R) (hd : Distinct R)
    (ht : c.Tidy) (ho : c.Over R)
    (keep : Retention) (he : c.entry? h = some e) (load : Load) (answer : Except Failure String) :
    (c.settle keep h load answer).Provided := by
  unfold Cache.settle
  cases hf : c.finding h load answer with
  | missing =>
    refine hp.mono fun k d hc hk hav => ?_
    have apart : k ≠ h := by
      rintro rfl
      rw [entry?_conclude keep he] at hk
      cases hk
      cases hav
    rw [isCurrent_conclude] at hc
    rw [entry?_conclude_of_ne c keep h _ apart] at hk
    exact ⟨d, hc, hk, hav, Entry.Worn.refl d, outline?_congr (entry?_conclude_of_ne c keep h _ apart) rfl⟩
  | late o =>
    refine hp.mono fun k d hc hk hav => ?_
    rw [isCurrent_conclude] at hc
    have apart : k ≠ h := by
      rintro rfl
      rw [isCurrent_eq_false_of_finding hf] at hc
      cases hc
    rw [entry?_conclude_of_ne c keep h _ apart] at hk
    exact ⟨d, hc, hk, hav, Entry.Worn.refl d, outline?_congr (entry?_conclude_of_ne c keep h _ apart) rfl⟩
  | timely o text =>
    have current := isCurrent_of_finding hf
    intro k d hc hk hav
    rw [isCurrent_conclude] at hc
    by_cases hkh : k = h
    · subst hkh
      rw [entry?_conclude keep he] at hk
      cases hk
      refine ⟨o, ?_, by rw [reference_concluded]; rfl⟩
      rw [outline?_of_some (entry?_conclude keep he _) hav, get?_outlines_conclude_timely keep he,
        reference_concluded, if_pos rfl]
    · have hk' := hk
      rw [entry?_conclude_of_ne c keep h _ hkh] at hk
      obtain ⟨p, hout, hi⟩ := hp k d hc hk hav
      refine ⟨p, ?_, hi⟩
      rw [outline?_of_some hk hav] at hout
      rw [outline?_of_some hk' hav, get?_outlines_conclude_timely keep he, if_neg, hout]
      -- of two stored entries with one text there is only one
      refine contentKey_ne hR hd ht ho hk he (ht.resolvable k d hk hav) fun hraw => hkh ?_
      exact eq_of_isCurrent hk he hc current hraw

end Cache

/-! ### Programs -/

/-- Where no two texts differ only in the blanks around them, serial programs keep entries apart. -/
lemma provided_of_distinct {R : Set String} (hR : Reference.NoCollision R) (hd : Distinct R)
    (keep : Retention) (now : Time.Instant) (store : Option ContentStore) {ops : List Op}
    (hops : ∀ op ∈ ops, op.Serial R) :
    (Op.runAll keep { now, store } ops).Provided ∧ (Op.runAll keep { now, store } ops).Separate R := by
  have kept : (Op.runAll keep { now, store } ops).Tidy ∧ (Op.runAll keep { now, store } ops).Over R ∧
      (Op.runAll keep { now, store } ops).Provided := by
    refine Op.Serial.runAll (P := fun c => c.Tidy ∧ c.Over R ∧ c.Provided) ?_ ?_ hops ?_
    · rintro c a ha ⟨ht, ho, hp⟩
      exact ⟨ht.apply a, ho.apply ha, hp.apply hR hd ht ho ha⟩
    · rintro c h e load answer he _ hr ⟨ht, ho, hp⟩
      exact ⟨ht.conclude keep he hr _, ho.conclude keep _, hp.settle hR hd ht ho keep he load answer⟩
    · exact ⟨Cache.Tidy.initial now store, Cache.Over.initial now store, Cache.Provided.initial now store⟩
  obtain ⟨ht, ho, hp⟩ := kept
  exact ⟨hp, Cache.separate hR hd ht ho⟩

/-- Of two texts that differ only in the blanks around them, deleting the entry of one takes the
outline of the other. -/
lemma not_provided_of_same_text {keep : Retention} {now : Time.Instant} {a b text : String}
    {o : Outline} (hne : a ≠ b)
    (hr : (Reference.ofText a).isResolvable = true)
    (htext : (Reference.ofText a).text = (Reference.ofText b).text)
    (hm : ∀ r, manifest? r text = .ok o) :
    ¬ (Op.runAll keep { now }
        [.resolveText (Reply.always text) a, .resolveText (Reply.always text) b,
          .act (.delete 1)]).Provided := by
  have hrb : (Reference.ofText b).isResolvable = true := by
    unfold Reference.isResolvable at hr ⊢
    rwa [← Reference.target_ofText_congr htext]
  set c := Op.run keep { now } (.resolveText (Reply.always text) a) with hc
  set c' := Op.run keep c (.resolveText (Reply.always text) b) with hc'
  have first : Cache.Gained { now } a o c := gained_of_resolveText rfl rfl hr (hm _)
  have second : c.Gained b o c' :=
    gained_of_resolveText ((first.slots b).trans (if_neg hne.symm)) first.store hrb (hm _)
  have size : c.entries.size = 1 := first.size
  -- both entries are available, under one key
  obtain ⟨e, he, href, hav, -⟩ := first.own
  obtain ⟨d, hd, hdref, -, -⟩ := second.own
  rw [size] at hd
  have he' : c'.entry? 0 = some e := second.others 0 e he
  have key : e.reference.contentKey = d.reference.contentKey := by
    rw [href, hdref]
    exact Reference.contentKey_ofText_congr htext
  have slot : c'.get? d.reference.raw = some 1 := by
    rw [hdref, Reference.raw_ofText, second.slots, if_pos rfl, size]
  -- deleting the second one leaves the first one without its outline
  rw [Op.runAll_cons, Op.runAll_cons, Op.runAll_cons, Op.runAll_nil, Op.run_act]
  intro hp
  have left : Cache.entry? (c'.delete 1) 0 = some e := by
    rw [Cache.entry?_delete_of_isCurrent hd slot (by omega), he']
  have stored : (c'.delete 1).isCurrent 0 = true := by
    rw [Cache.isCurrent_iff_of_some left, Cache.get?_delete_of_isCurrent hd slot, href, hdref,
      Reference.raw_ofText, Reference.raw_ofText, if_neg hne, second.slots, if_neg hne, first.slots, if_pos rfl]
    rfl
  have taken : (c'.delete 1).outline? 0 = none := by
    rw [Cache.outline?_of_some left hav, key, Cache.get?_outlines_delete_of_isCurrent hd slot, if_pos rfl]
  obtain ⟨p, hout, -⟩ := hp 0 e stored left hav
  cases taken.symm.trans hout

/-- Over a set of texts without collisions, all serial programs keep entries apart exactly when no
two texts of the set that name something differ only in the blanks around them. -/
theorem provided_iff_distinct (keep : Retention) (R : Set String) (hR : Reference.NoCollision R) :
    (∀ now store ops, (∀ op ∈ ops, op.Serial R) →
        (Op.runAll keep { now, store } ops).Provided ∧ (Op.runAll keep { now, store } ops).Separate R) ↔
      Distinct R := by
  constructor
  · intro hall a ha b hb hr htext
    by_contra hne
    obtain ⟨o, hm, -⟩ := exists_manifest? (by decide) actionInputs?_none
    refine not_provided_of_same_text hne hr htext hm (hall ⟨0⟩ none _ ?_).1
    intro op hop
    simp only [List.mem_cons, List.not_mem_nil, or_false] at hop
    rcases hop with rfl | rfl | rfl
    · exact ⟨ha, fun _ _ h => by cases h⟩
    · exact ⟨hb, fun _ _ h => by cases h⟩
    · trivial
  · intro hd now store ops hops
    exact provided_of_distinct hR hd keep now store hops

section checkouts

set_option maxRecDepth 10000 in
lemma storageKey_checkout_a : (Reference.ofText "a/checkout@v4").storageKey = "b4dc60e4501b227c" := by cbv

set_option maxRecDepth 10000 in
lemma storageKey_checkout_b : (Reference.ofText "b/checkout@v4").storageKey = "51ebe2dd63edf97e" := by cbv

lemma noCollision_checkouts : Reference.NoCollision {"a/checkout@v4", "b/checkout@v4"} := by
  intro a ha b hb h
  rcases ha with rfl | rfl <;> rcases hb with rfl | rfl
  · rfl
  · rw [storageKey_checkout_a, storageKey_checkout_b] at h
    exact absurd h (by decide)
  · rw [storageKey_checkout_a, storageKey_checkout_b] at h
    exact absurd h (by decide)
  · rfl

lemma distinct_checkouts : Distinct {"a/checkout@v4", "b/checkout@v4"} := by
  intro a ha b hb _ h
  rcases ha with rfl | rfl <;> rcases hb with rfl | rfl
  · rfl
  · exact absurd h (by decide)
  · exact absurd h (by decide)
  · rfl

/-- Two actions of one name keep apart: the first one has its outline after the second one was
deleted. -/
theorem provided_checkouts :
    Reference.NoCollision {"a/checkout@v4", "b/checkout@v4"} ∧
      (Op.runAll {} { now := ⟨0⟩ }
        [.resolveText (Reply.always "inputs:") "a/checkout@v4",
          .resolveText (Reply.always "inputs:") "b/checkout@v4", .act (.delete 1)]).Provided := by
  refine ⟨noCollision_checkouts, ?_⟩
  refine ((provided_iff_distinct {} _ noCollision_checkouts).mpr distinct_checkouts ⟨0⟩ none _ ?_).1
  intro op hop
  simp only [List.mem_cons, List.not_mem_nil, or_false] at hop
  rcases hop with rfl | rfl | rfl
  · exact ⟨Or.inl rfl, fun _ _ h => by cases h⟩
  · exact ⟨Or.inr rfl, fun _ _ h => by cases h⟩
  · trivial

end checkouts

/-- An action is resolved under two spellings, and the entry of the second one is deleted. -/
theorem not_provided_blank_in_front :
    ¬ (Op.runAll {} { now := ⟨0⟩ }
        [.resolveText (Reply.always "inputs:") "o/a@v1", .resolveText (Reply.always "inputs:") " o/a@v1",
          .act (.delete 1)]).Provided := by
  obtain ⟨o, hm, -⟩ := exists_manifest? (by decide) actionInputs?_none
  exact not_provided_of_same_text (by decide) (by decide) (by decide) hm

end CiWorkflow.Resolution
