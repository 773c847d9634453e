import CiWorkflow.Proofs.Resolution.Simulation

/-!
# Orphaned outlines

An outline should be there for a stored and available entry whose interface it has. Nothing that
callers do takes such an entry away and leaves its outline, and one resolving after the other never
does either. Only where a text is written while others go on can an outline be orphaned: the entry
is judged before the text is written, and may have been given up since.
-/

namespace CiWorkflow.Resolution

namespace Cache

/-- An entry answers for an outline under a key: it is stored and available, and has the outline's
interface. -/
def Backs (c : Cache) (h : Nat) (key : String) (o : Outline) : Prop :=
  c.isCurrent h = true ∧ ∃ e, c.entry? h = some e ∧ e.available = true ∧ e.reference.contentKey = key ∧
    e.interface = Interface.ofDocument o.document e.reference

/-- Every outline has an entry that answers for it. -/
def Backed (c : Cache) : Prop := ∀ key o, c.outlines.get? key = some o → ∃ h, c.Backs h key o

variable {c c' : Cache} {h : Nat} {e : Entry}

/-- An entry goes on answering while it stays as it is and stored. -/
lemma Backs.mono {g : Nat} {key : String} {o : Outline} (hb : c.Backs g key o)
    (kept : ∀ d, c.entry? g = some d → ∃ d', c'.entry? g = some d' ∧ d.Worn d' ∧ d'.available = d.available)
    (slot : ∀ d, c.entry? g = some d → c.get? d.reference.raw = some g → c'.get? d.reference.raw = some g) :
    c'.Backs g key o := by
  obtain ⟨hc, d, hd, ha, hk, hi⟩ := hb
  obtain ⟨d', hd', hw, ha'⟩ := kept d hd
  refine ⟨?_, d', hd', by rw [ha', ha], by rw [hw.reference, hk], by rw [hw.interface, hw.reference, hi]⟩
  rw [isCurrent_iff_of_some hd] at hc
  rw [isCurrent_iff_of_some hd', hw.reference]
  exact slot d hd hc

namespace Backed

lemma initial (now : Time.Instant) (store : Option ContentStore) : Backed { now, store } := by
  intro key o ho
  simp [NamedCache.get?] at ho

/-- Giving an entry up takes its outline, whatever becomes of its slot. -/
lemma give_up (hb : c.Backed) (ht : c.Tidy) (he : c.entry? h = some e)
    (outlines : ∀ key, c'.outlines.get? key = (c.detach h).outlines.get? key)
    (others : ∀ k d, k ≠ h → c.entry? k = some d → c'.entry? k = some d)
    (slots : ∀ raw, raw ≠ e.reference.raw → c'.get? raw = c.get? raw) : c'.Backed := by
  intro key o ho
  rw [outlines, get?_outlines_detach he] at ho
  split at ho
  · cases ho
  · rename_i hne
    obtain ⟨g, hg⟩ := hb key o ho
    have apart (d : Entry) (hd : c.entry? g = some d) : d.reference.contentKey ≠ e.reference.contentKey := by
      obtain ⟨-, d', hd', -, hk, -⟩ := hg
      rw [hd] at hd'
      cases hd'
      rw [hk]
      exact hne
    refine ⟨g, hg.mono (fun d hd => ?_) (fun d hd hs => ?_)⟩
    · refine ⟨d, others g d ?_ hd, Entry.Worn.refl d, rfl⟩
      rintro rfl
      rw [he] at hd
      cases hd
      exact apart e he rfl
    · rw [slots]
      · exact hs
      · intro hr
        refine apart d hd ?_
        rw [ht.read g d hd, ht.read h e he, hr]

lemma create (hb : c.Backed) {raw : String} (hn : c.get? raw = none) : Backed (c.create raw).2 := by
  intro key o ho
  obtain ⟨g, hg⟩ := hb key o ho
  refine ⟨g, hg.mono (fun d hd => ⟨d, entry?_create_of_some raw hd, Entry.Worn.refl d, rfl⟩) (fun d hd hs => ?_)⟩
  rw [get?_create, if_neg]
  · exact hs
  · intro hr
    rw [hr, hn] at hs
    cases hs

/-- An entry that is not stored answers for nothing. -/
lemma invalidate (hb : c.Backed) (hn : c.isCurrent h = false) :
    Backed (c.modifyEntry h Entry.invalidated) := by
  intro key o ho
  obtain ⟨g, hg⟩ := hb key o ho
  have hne : g ≠ h := by
    rintro rfl
    rw [hg.1] at hn
    cases hn
  refine ⟨g, hg.mono (fun d hd => ?_) (fun d _ hs => hs)⟩
  rw [entry?_modifyEntry_of_ne c h _ hne]
  exact ⟨d, hd, Entry.Worn.refl d, rfl⟩

lemma apply (hb : c.Backed) (ht : c.Tidy) (a : Action) : (a.apply c).Backed := by
  cases a with
  | getOrCreate raw =>
    simp only [Action.apply]
    rcases c.getOrCreate_cases raw with ⟨k, -, -, hk⟩ | ⟨hn, hk⟩ | ⟨k, hs, -, hk⟩ <;> rw [hk]
    · exact hb
    · exact hb.create hn
    · obtain ⟨e, he, hr⟩ := entry?_of_reference? (ht.stored raw k hs)
      refine hb.give_up ht he (fun key => rfl) (fun j d hj hd => ?_) (fun t hne => ?_)
      · refine entry?_create_of_some raw ?_
        rwa [entry?_detach_of_ne c k hj]
      · rw [hr, Reference.raw_ofText] at hne
        rw [get?_create, if_neg hne, get?, slots_detach]
        rfl
  | delete k =>
    simp only [Action.apply]
    cases he : c.entry? k with
    | none => rwa [delete_of_entry?_eq_none he]
    | some e =>
      rcases c.delete_cases he with ⟨-, hd⟩ | ⟨-, hd⟩ | ⟨⟨j, hj, hs⟩, hd⟩ <;> rw [hd]
      · refine hb.give_up ht he (fun key => rfl) (fun j d hj hd => ?_) (fun t hne => ?_)
        · exact (entry?_detach_of_ne c k hj).trans hd
        · simp [get?, hne]
      · refine hb.give_up ht he (fun key => rfl) (fun j d hj hd => ?_) (fun t _ => ?_)
        · exact (entry?_detach_of_ne c k hj).trans hd
        · rw [get?, slots_detach]
          rfl
      · refine hb.invalidate ?_
        rw [← Bool.not_eq_true, isCurrent_iff_of_some he, hs]
        exact fun h => hj (Option.some.inj h)
  | clear =>
    intro key o ho
    simp [Action.apply, clear, NamedCache.get?] at ho
  | purge =>
    simp only [Action.apply, purge]
    split <;> exact hb
  | tag k label =>
    intro key o ho
    obtain ⟨g, hg⟩ := hb key o ho
    refine ⟨g, hg.mono (fun d hd => ?_) (fun d _ hs => hs)⟩
    simp only [Action.apply, entry?_modifyEntry]
    split
    · exact ⟨d.tagged label, by rw [hd]; rfl, d.worn_tagged label, rfl⟩
    · exact ⟨d, hd, Entry.Worn.refl d, rfl⟩
  | advance ms => exact hb

end Backed

/-! ### Noting a finding -/

variable (keep : Retention)

/-- What is noted for one entry does not touch what others answer for. -/
lemma backs_conclude_of_ne {g : Nat} (hg : g ≠ h) (f : Finding) (key : String) (o : Outline) :
    (c.conclude keep h f).Backs g key o ↔ c.Backs g key o := by
  unfold Backs
  rw [isCurrent_conclude, entry?_conclude_of_ne c keep h f hg]

lemma Backs.ne {g : Nat} {key : String} {o : Outline} (hb : c.Backs g key o) (he : c.entry? h = some e)
    (ha : e.available = false) : g ≠ h := by
  rintro rfl
  obtain ⟨-, d, hd, had, -⟩ := hb
  rw [he] at hd
  cases hd
  rw [ha] at had
  cases had

lemma Backs.conclude {g : Nat} {key : String} {o : Outline} (hb : c.Backs g key o)
    (he : c.entry? h = some e)
    (ha : e.available = false) (f : Finding) : (c.conclude keep h f).Backs g key o :=
  (backs_conclude_of_ne keep (hb.ne he ha) f key o).mpr hb

/-- An entry that is stored when its manifest is noted answers for the outline. -/
lemma backs_conclude_timely (he : c.entry? h = some e) (hc : c.isCurrent h = true) (o : Outline)
    (text : Option String) :
    (c.conclude keep h (.timely o text)).Backs h e.reference.contentKey o := by
  refine ⟨by rw [isCurrent_conclude, hc], _, entry?_conclude keep he _, rfl, ?_, ?_⟩
  · rw [reference_concluded]
  · rw [reference_concluded]
    rfl

/-- The finding leaves no orphan: it publishes nothing, or the entry is stored, or another one
answers for the outline. -/
def Covers (c : Cache) (h : Nat) : Finding → Prop
  | .timely o _ => c.isCurrent h = true ∨ ∃ e g, c.entry? h = some e ∧ c.Backs g e.reference.contentKey o
  | _ => True

lemma Backed.conclude_iff (hb : c.Backed) (he : c.entry? h = some e) (ha : e.available = false)
    (f : Finding) :
    (c.conclude keep h f).Backed ↔ c.Covers h f := by
  cases f with
  | missing =>
    refine iff_of_true (fun key o ho => ?_) trivial
    obtain ⟨g, hg⟩ := hb key o ho
    exact ⟨g, hg.conclude keep he ha _⟩
  | late o =>
    refine iff_of_true (fun key o ho => ?_) trivial
    obtain ⟨g, hg⟩ := hb key o ho
    exact ⟨g, hg.conclude keep he ha _⟩
  | timely o text =>
    have at_key : (c.conclude keep h (.timely o text)).outlines.get? e.reference.contentKey = some o := by
      rw [get?_outlines_conclude_timely keep he, if_pos rfl]
    constructor
    · intro hb'
      obtain ⟨g, hg⟩ := hb' _ o at_key
      by_cases hgh : g = h
      · subst hgh
        refine Or.inl ?_
        rw [← isCurrent_conclude c keep g (.timely o text)]
        exact hg.1
      · exact Or.inr ⟨e, g, he, (backs_conclude_of_ne keep hgh _ _ _).mp hg⟩
    · intro hcov key o' ho'
      rw [get?_outlines_conclude_timely keep he] at ho'
      split at ho'
      · rename_i hk
        cases ho'
        subst hk
        rcases hcov with hc | ⟨d, g, hd, hg⟩
        · exact ⟨h, backs_conclude_timely keep he hc o text⟩
        · rw [he] at hd
          cases hd
          exact ⟨g, hg.conclude keep he ha _⟩
      · obtain ⟨g, hg⟩ := hb key o' ho'
        exact ⟨g, hg.conclude keep he ha _⟩

/-- A finding that is noted as soon as it is judged leaves no orphan. -/
lemma covers_finding (c : Cache) (h : Nat) (load : Load) (answer : Except Failure String) :
    c.Covers h (c.finding h load answer) := by
  cases hf : c.finding h load answer with
  | missing => trivial
  | late o => trivial
  | timely o text => exact Or.inl (isCurrent_of_finding hf)

end Cache

/-! ### Runs -/

namespace State

/-- A text that has been written leaves no orphan. -/
def Covered (s : State) (h : Nat) : Prop := ∀ f, s.stage h = some (.writing f) → s.cache.Covers h f

/-- Of all events only the end of a writing can orphan an outline. -/
def EventCovered (s : State) : Event → Prop
  | .finish h => s.Covered h
  | _ => True

lemma backed_step_iff {keep : Retention} {s : State} (hs : s.Sound) (hb : s.cache.Backed) (ev : Event) :
    (s.step keep ev).cache.Backed ↔ s.EventCovered ev := by
  have noted (h : Nat) (t : Stage) (ht : s.stage h = some t) (f : Finding) :
      (s.note keep h f).cache.Backed ↔ s.cache.Covers h f := by
    obtain ⟨e, he, ha, -⟩ := hs.waiting h t ht
    exact hb.conclude_iff keep he ha f
  have taken := s.takes_step keep ev
  generalize s.step keep ev = s' at taken ⊢
  cases taken with
  | act a => exact iff_of_true (hb.apply hs.tidy a) trivial
  | start => exact iff_of_true hb trivial
  | miss => exact iff_of_true hb trivial
  | @answer h load a loading =>
    refine iff_of_true ?_ trivial
    rcases s.judge_cases keep h (s.cache.finding h load a) with ⟨-, judged⟩ | ⟨-, judged⟩ <;> rw [judged]
    · exact hb
    · exact (noted h _ loading _).mpr (s.cache.covers_finding h load a)
  | @finish h f writing =>
    rw [noted h _ writing f]
    constructor
    · intro hc g hg
      rw [writing] at hg
      cases hg
      exact hc
    · exact fun hc => hc f writing
  | nothing unnoted =>
    refine iff_of_true hb ?_
    cases ev with
    | finish h => exact fun f writing => by simp [noted?, writing] at unnoted
    | _ => trivial

end State

/-- In a program in which one resolving follows the other, every outline has an entry that answers
for it. -/
theorem backed_of_serial (keep : Retention) (now : Time.Instant) (store : Option ContentStore)
    {ops : List Op}
    (ho : ∀ op ∈ ops, op.Serial Set.univ) : (Op.runAll keep { now, store } ops).Backed := by
  refine (Op.Serial.runAll (P := fun c => c.Tidy ∧ c.Backed) ?_ ?_ ho ?_).2
  · rintro c a - ⟨ht, hb⟩
    exact ⟨ht.apply a, hb.apply ht a⟩
  · rintro c h e load answer he ha hr ⟨ht, hb⟩
    exact ⟨ht.conclude keep he hr _, (hb.conclude_iff keep he ha _).mpr (c.covers_finding h load answer)⟩
  · exact ⟨Cache.Tidy.initial now store, Cache.Backed.initial now store⟩

/-- Every program is a run, and along a run every outline has an entry that answers for it exactly
when, each time a text has been written, its entry is still stored or another one answers for its
outline. -/
theorem backed_iff_covered (keep : Retention) (now : Time.Instant) (store : Option ContentStore) :
    (∀ ops, (State.initial now store).Yields keep (Op.sightsAll keep { now, store } ops)
        (State.idle (Op.runAll keep { now, store } ops))) ∧
      ∀ es, (∀ p, p <+: es → ((State.initial now store).run keep p).cache.Backed) ↔
        ∀ p h, p ++ [.finish h] <+: es → ((State.initial now store).run keep p).Covered h := by
  refine ⟨fun ops => State.yields_runAll _ ops, fun es => ?_⟩
  rw [State.forall_prefix_iff State.Sound (fun s => s.cache.Backed) State.EventCovered (fun _ ev hs => hs.step ev)
    (fun _ ev hs hb => State.backed_step_iff hs hb ev) (State.Sound.initial now store)
    (Cache.Backed.initial now store) es]
  constructor
  · intro h p k hp
    exact h p (.finish k) hp
  · intro h p ev hp
    cases ev with
    | finish k => exact h p k hp
    | act a => trivial
    | start k => trivial
    | miss k => trivial
    | answer k a => trivial

/-! ### An orphan -/

/-- A text names something in a repository, where a manifest is found. -/
structure Served (raw location text : String) (o : Outline) : Prop where
  location : (Reference.ofText raw).location? = some location
  remote : (Reference.ofText raw).isLocal = false
  manifest : manifest? (Reference.ofText raw) text = .ok o

namespace Served

variable {raw location text : String} {o : Outline} {c : Cache} {h : Nat} (hs : Served raw location text o)
  (he : c.entry? h = some (Entry.fresh raw))

include hs he

/-- The manifest of a new entry is fetched where its file is not there. -/
lemma plan? (keep : Retention)
    (hf : ∀ name, ContentStore.fileName? (Reference.ofText raw) = some name → c.file? name = none) :
    c.plan? keep h = some (.fetch ⟨.repository, location⟩) := by
  have hr := Reference.isResolvable_of_location? hs.location
  rw [Cache.plan?_of_no_file he (Cache.needsResolution_fresh hr _) hs.location hf, Entry.reference_fresh,
    hs.remote]
  rfl

/-- The manifest of a stored entry has to be written where content is kept. -/
lemma finding (hc : c.get? raw = some h) (hk : c.store.isSome = true) :
    c.finding h (.fetch ⟨.repository, location⟩) (.ok text) = .timely o (some text) := by
  have hr := Reference.isResolvable_of_location? hs.location
  exact Cache.finding_of_fetched he hs.manifest ((Cache.isCurrent_iff_of_some he).mpr hc) hk hs.remote hr

lemma step_start (keep : Retention)
    (hf : ∀ name, ContentStore.fileName? (Reference.ofText raw) = some name → c.file? name = none) :
    (State.idle c).step keep (.start h) = (State.idle c).put h (some (.loading (.fetch ⟨.repository, location⟩))) := by
  have plan : (State.idle c).cache.plan? keep h = some (.fetch ⟨.repository, location⟩) := hs.plan? he keep hf
  simp only [State.step, plan]
  rfl

/-- The answer to a fetch is left to be written. -/
lemma step_answer (keep : Retention) (hc : c.get? raw = some h) (hk : c.store.isSome = true) :
    ((State.idle c).put h (some (.loading (.fetch ⟨.repository, location⟩)))).step keep (.answer h (.ok text)) =
      (State.idle c).put h (some (.writing (.timely o (some text)))) := by
  have found : (State.idle c).cache.finding h (.fetch ⟨.repository, location⟩) (.ok text) =
      .timely o (some text) := hs.finding he hc hk
  have writing : (Finding.timely o (some text)).isWriting = true := rfl
  simp only [State.step, State.stage_put, if_true]
  rw [if_pos (show Load.isAnswer _ _ = true from rfl), State.cache_put, found, State.judge, if_pos writing,
    State.put_put]

end Served

/-- What has been written is noted. -/
lemma State.step_finish (keep : Retention) (c : Cache) (h : Nat) (f : Finding) :
    ((idle c).put h (some (.writing f))).step keep (.finish h) = idle (c.conclude keep h f) := by
  have writing : ((idle c).put h (some (.writing f))).stage h = some (.writing f) := by simp [stage_put]
  rw [step, writing]
  exact (note_put (idle c) _ f).trans (note_idle c f)

/-- Two texts looked up where nothing is stored or kept. -/
def lookedUp (now : Time.Instant) (a b : String) : Cache :=
  ((Cache.create { now, store := some {} } a).2.create b).2

section orphan

variable (now : Time.Instant) (a b : String)

lemma entry?_lookedUp_zero : Cache.entry? (lookedUp now a b) 0 = some (Entry.fresh a) := rfl

lemma entry?_lookedUp_one : Cache.entry? (lookedUp now a b) 1 = some (Entry.fresh b) := rfl

lemma get?_lookedUp (t : String) :
    (lookedUp now a b).get? t = if t = b then some 1 else if t = a then some 0 else none := by
  rw [lookedUp, Cache.get?_create, Cache.get?_create]
  rfl

lemma file?_lookedUp (name : String) : (lookedUp now a b).file? name = none := rfl

variable {a b} in
lemma getOrCreate_lookedUp (hab : a ≠ b) :
    ((Cache.getOrCreate { now, store := some {} } a).2.getOrCreate b).2 = lookedUp now a b := by
  have first : Cache.getOrCreate { now, store := some {} } a = Cache.create { now, store := some {} } a :=
    Cache.getOrCreate_of_none rfl
  have second : (Cache.create { now, store := some {} } a).2.getOrCreate b =
      (Cache.create { now, store := some {} } a).2.create b := by
    refine Cache.getOrCreate_of_none ?_
    rw [Cache.get?_create, if_neg hab.symm]
    rfl
  rw [first, second, lookedUp]

variable {a b} in
lemma runAll_lookedUp (hab : a ≠ b) (keep : Retention) (ops : List Op) :
    Op.runAll keep { now, store := some {} } (.act (.getOrCreate a) :: .act (.getOrCreate b) :: ops) =
      Op.runAll keep (lookedUp now a b) ops := by
  rw [Op.runAll_cons, Op.runAll_cons, Op.run_act, Op.run_act, Action.apply, Action.apply, getOrCreate_lookedUp now hab]

variable {now a b} {keep : Retention} {reply : Reply} {la lb ta tb : String} {oa ob : Outline}
  (sa : Served a la ta oa) (sb : Served b lb tb ob)
  (hne : (Reference.ofText a).contentKey ≠ (Reference.ofText b).contentKey)
  (hpa : reply ⟨.repository, la⟩ = ([], .ok ta)) (hpb : reply ⟨.repository, lb⟩ = ([.delete 0], .ok tb))

include sa sb hne hpa hpb

/-- Both texts have to be written when the first entry has been deleted. -/
lemma begun_lookedUp : ∃ seen, Recorded.run (beginAll keep reply.watched [0, 1] []) (lookedUp now a b, []) =
    ([(0, .writing (.timely oa (some ta))), (1, .writing (.timely ob (some tb)))],
      (lookedUp now a b).delete 0, seen) := by
  have hab : a ≠ b := by
    rintro rfl
    exact hne rfl
  have slot_a : (lookedUp now a b).get? a = some 0 := by rw [get?_lookedUp, if_neg hab, if_pos rfl]
  have found_a : (lookedUp now a b).finding 0 (.fetch ⟨.repository, la⟩) (.ok ta) = .timely oa (some ta) :=
    sa.finding (entry?_lookedUp_zero now a b) slot_a rfl
  have found_b : ((lookedUp now a b).delete 0).finding 1 (.fetch ⟨.repository, lb⟩) (.ok tb) =
      .timely ob (some tb) := by
    refine sb.finding ?_ ?_ ?_
    · exact Cache.entry?_delete_of_isCurrent (entry?_lookedUp_zero now a b) slot_a Nat.one_ne_zero
    · rw [Cache.get?_delete_of_isCurrent (entry?_lookedUp_zero now a b) slot_a, Entry.reference_fresh,
        Reference.raw_ofText, if_neg hab.symm, get?_lookedUp, if_pos rfl]
    · exact Cache.isSome_store_delete_of_isCurrent (entry?_lookedUp_zero now a b) slot_a
  have writing_a : (Finding.timely oa (some ta)).isWriting = true := rfl
  have plan_a := sa.plan? (entry?_lookedUp_zero now a b) keep fun name _ => file?_lookedUp now a b name
  have plan_b := sb.plan? (entry?_lookedUp_one now a b) keep fun name _ => file?_lookedUp now a b name
  refine ⟨reply.sights (lookedUp now a b) ⟨.repository, la⟩ ++ reply.sights (lookedUp now a b) ⟨.repository, lb⟩, ?_⟩
  rw [Recorded.run_beginAll_of_fetch [1] rfl plan_a (reply.run_watched _ _), hpa]
  simp only [Action.applyAll, List.foldl_nil, found_a]
  rw [if_pos writing_a, Recorded.run_beginAll_of_fetch [] rfl plan_b (reply.run_watched _ _), hpb]
  simp only [Action.applyAll, List.foldl_cons, List.foldl_nil, Action.apply, found_b]
  rfl

/-- Where the first of two entries is deleted while the text of the second one is fetched, its
outline is orphaned. -/
lemma not_backed_of_deleted_while_writing :
    ¬ (Op.runAll keep { now, store := some {} }
        [.act (.getOrCreate a), .act (.getOrCreate b), .resolveAll reply [0, 1]]).Backed := by
  have hab : a ≠ b := by
    rintro rfl
    exact hne rfl
  set mid := (lookedUp now a b).delete 0 with hmid
  have slot_a : (lookedUp now a b).get? a = some 0 := by rw [get?_lookedUp, if_neg hab, if_pos rfl]
  have entry_a : mid.entry? 0 = some (Entry.fresh a).invalidated :=
    Cache.entry?_delete_self_of_isCurrent (entry?_lookedUp_zero now a b) slot_a
  have entry_b : Cache.entry? (mid.conclude keep 0 (.timely oa (some ta))) 1 = some (Entry.fresh b) := by
    rw [Cache.entry?_conclude_of_ne _ _ _ _ Nat.one_ne_zero]
    exact Cache.entry?_delete_of_isCurrent (entry?_lookedUp_zero now a b) slot_a Nat.one_ne_zero
  obtain ⟨seen, begun⟩ := begun_lookedUp sa sb hne hpa hpb
  rw [runAll_lookedUp now hab, Op.runAll_cons, Op.runAll_nil, run_resolveAll, begun]
  simp only [List.foldl_cons, List.foldl_nil, Cache.finish]
  intro hb
  have there : ((mid.conclude keep 0 (.timely oa (some ta))).conclude keep 1 (.timely ob (some tb))).outlines.get?
      (Reference.ofText a).contentKey = some oa := by
    rw [Cache.get?_outlines_conclude_timely keep entry_b, Entry.reference_fresh, if_neg hne,
      Cache.get?_outlines_conclude_timely keep entry_a]
    exact if_pos rfl
  -- of the two entries only the second one is stored, and it has another key
  obtain ⟨g, hg, e, he, -, hk, -⟩ := hb _ oa there
  rw [Cache.isCurrent_conclude, Cache.isCurrent_conclude, Cache.isCurrent_iff] at hg
  obtain ⟨d, hd, hs⟩ := hg
  rw [Cache.get?_delete_of_isCurrent (entry?_lookedUp_zero now a b) slot_a, get?_lookedUp] at hs
  split_ifs at hs
  · cases hs
    rw [Cache.entry?_conclude keep entry_b] at he
    cases he
    rw [Cache.reference_concluded] at hk
    exact hne hk.symm
  · rename_i not_a _ is_a
    exact absurd is_a not_a

end orphan

/-- Two actions are resolved at once, and the first one is deleted while the second one is fetched:
its outline stays. -/
theorem not_backed_two_actions :
    ¬ (Op.runAll {} { now := ⟨0⟩, store := some {} }
        [.act (.getOrCreate "o/a@v1"), .act (.getOrCreate "o/b@v1"),
          .resolveAll (fun r =>
            if r.location = "https://raw.githubusercontent.com/o/b/v1/action.yml" then
              ([.delete 0], .ok "inputs:")
            else ([], .ok "inputs:")) [0, 1]]).Backed := by
  obtain ⟨o, ho, -⟩ := exists_manifest? (by decide) actionInputs?_none
  have la : (Reference.ofText "o/a@v1").location? =
      some "https://raw.githubusercontent.com/o/a/v1/action.yml" := by cbv
  have lb : (Reference.ofText "o/b@v1").location? =
      some "https://raw.githubusercontent.com/o/b/v1/action.yml" := by cbv
  have ids : (Reference.ofText "o/a@v1").cacheId ≠ (Reference.ofText "o/b@v1").cacheId := by decide
  refine not_backed_of_deleted_while_writing ⟨la, by decide, ho _⟩ ⟨lb, by decide, ho _⟩ ?_ ?_ ?_
  · exact fun h => ids (Reference.contentKey_eq_iff.mp h).1
  · exact if_neg (by decide)
  · exact if_pos rfl

end CiWorkflow.Resolution
