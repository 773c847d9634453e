import CiWorkflow.Proofs.Resolution.Gate

/-!
# Trying a text again

A text is resolved through the entry that is stored for it, and after a failure that entry is not due
before the failure's retention is over. But who has found an entry and waits for it goes on with it,
even when a new entry has taken its place meanwhile. So a text is loaded again too early exactly when
a load begins while a failure of another entry for the text still holds. In a run that does nothing
but resolve texts while time passes that needs somebody who is still busy with an entry that is not
stored any more.
-/

namespace CiWorkflow.Resolution

open Time (Instant)

/-! ### Failures of other entries -/

namespace Mark

/-- When it was made. -/
def time : Mark → Instant
  | began t | ended t _ => t

end Mark

/-- Each point of a list in which neighbours are related is the last one, or is followed by another. -/
lemma exists_next_of_isChain {α : Type*} {R : α → α → Prop} {l : List α} (hl : l.IsChain R) {x : α} (hx : x ∈ l) :
    l.getLast? = some x ∨ ∃ y ∈ l, R x y := by
  induction l with
  | nil => cases hx
  | cons a l ih =>
    cases l with
    | nil =>
      rw [List.mem_singleton] at hx
      exact Or.inl (by rw [hx]; rfl)
    | cons b l =>
      obtain ⟨hab, hl⟩ := List.isChain_cons_cons.mp hl
      rcases List.mem_cons.mp hx with rfl | hx
      · exact Or.inr ⟨b, by simp, hab⟩
      · rw [List.getLast?_cons_cons]
        exact (ih hl hx).imp_right fun ⟨y, hy, hxy⟩ => ⟨y, List.mem_cons_of_mem a hy, hxy⟩

namespace State

variable (keep : Retention) (s : State)

/-- With an event a load of an entry begins, when the clock shows an instant. -/
def LoadsAt (e : Event) (k : Nat) (v : Instant) : Prop := s.mark? k (s.step keep e) = some (.began v)

/-- Along a run no text is loaded again while a failure holds: whenever a load of an entry begins, each
load that has failed for an entry of the same reference ended longer ago than a failure is kept. -/
def BacksOff (es : List Event) : Prop :=
  ∀ p e k v h t, p ++ [e] <+: es → (s.run keep p).LoadsAt keep e k v →
    (s.run keep p).cache.reference? h = (s.run keep p).cache.reference? k → .ended t false ∈ s.marks keep h p →
    t.after keep.failure < v

/-- Along a run a load of an entry begins only when no other entry of the same reference rests after a
failure that still holds. -/
def RespectsOthers (es : List Event) : Prop :=
  ∀ p e k v h t, p ++ [e] <+: es → (s.run keep p).LoadsAt keep e k v → h ≠ k →
    (s.run keep p).cache.reference? h = (s.run keep p).cache.reference? k →
    (s.marks keep h p).getLast? = some (.ended t false) → t.after keep.failure < v

variable {keep s} {h k : Nat} {v t : Instant} {e : Event} {es : List Event}

lemma time_of_mark? {s' : State} {m : Mark} (hm : s.mark? h s' = some m) : m.time = s.cache.now := by
  unfold mark? at hm
  split at hm <;> cases hm <;> rfl

lemma LoadsAt.now_eq (hl : s.LoadsAt keep e k v) : v = s.cache.now := time_of_mark? hl

/-- No point of a history lies in the future. -/
lemma time_le_now (hf : ∀ e ∈ es, e.IsForward) {m : Mark} (hm : m ∈ s.marks keep h es) :
    m.time ≤ (s.run keep es).cache.now := by
  induction es using List.reverseRecOn with
  | nil => cases hm
  | append_singleton es e ih =>
    have passes := now_le_step keep (s.run keep es) (hf e (by simp))
    rw [marks_concat, List.mem_append] at hm
    rw [run_concat]
    rcases hm with hm | hm
    · exact Instant.le_trans (ih (fun e he => hf e (List.mem_append_left _ he)) hm) passes
    · rw [Option.mem_toList] at hm
      rw [time_of_mark? hm]
      exact passes

/-- A load that failed, and after which the entry was loaded again, ended longer ago than a failure is
kept. -/
lemma after_lt_of_not_last (hs : s.Sound) (hr : s.stage h = none) (hf : ∀ e ∈ es, e.IsForward)
    (hm : .ended t false ∈ s.marks keep h es) (hl : (s.marks keep h es).getLast? ≠ some (.ended t false)) :
    t.after keep.failure < (s.run keep es).cache.now := by
  obtain ⟨chain, -⟩ := isChain_marks keep hs hr es
  obtain ⟨y, hy, next⟩ := (exists_next_of_isChain chain hm).resolve_left hl
  cases y with
  | ended u found => exact next.elim
  | began u => exact Instant.lt_of_lt_of_le next (time_le_now hf hy)

/-- A load of an entry begins when its own failure holds no longer, so only those of other entries can
be in the way. -/
lemma backsOff_iff (hs : s.Sound) (hr : ∀ h, s.stage h = none) (hf : ∀ e ∈ es, e.IsForward) :
    s.BacksOff keep es ↔ s.RespectsOthers keep es := by
  constructor
  · intro backs p e k v h t hp hl _ same last
    exact backs p e k v h t hp hl same (List.mem_of_getLast? last)
  · intro others p e k v h t hp hl same hm
    have earlier : ∀ e ∈ p, e.IsForward := fun e he => hf e (hp.subset (List.mem_append_left _ he))
    by_cases last : (s.marks keep h p).getLast? = some (.ended t false)
    · by_cases hk : h = k
      · subst hk
        -- the load that begins is the next one of the same entry
        obtain ⟨-, shows⟩ := isChain_marks keep hs (hr h) p
        have sound : (s.run keep p).Sound := run_induction (fun _ ev h => h.step ev) hs p
        rcases mark?_step keep sound shows e with ⟨none, -⟩ | ⟨m, some, next, -⟩
        · rw [LoadsAt, none] at hl
          cases hl
        · rw [LoadsAt, some] at hl
          cases hl
          exact next _ last
      · exact others p e k v h t hp hl hk same last
    · rw [hl.now_eq]
      exact after_lt_of_not_last hs (hr h) earlier hm last

end State

/-! ### Runs that only resolve texts -/

/-- The move is one of calls that resolve texts, or of the clock, which does not go back. -/
def Move.IsPolling : Move → Prop
  | .call _ | .enter _ => True
  | .other (.act (.getOrCreate _)) | .other (.answer _ _) | .other (.miss _) | .other (.finish _) => True
  | .other (.act (.advance ms)) => 0 ≤ ms
  | .other _ => False

namespace State

variable {keep : Retention} {s : State} {e : Event} {es : List Event} {h k : Nat}

/-- What resolves texts takes no entry out of its slot but one that has expired. -/
lemma expired_of_lost (hs : s.Sound) (hd : ∀ k, e ≠ .act (.delete k)) (hclear : e ≠ .act .clear)
    (hc : s.cache.isCurrent h = true) (hl : (s.step keep e).cache.isCurrent h = false) :
    (∃ raw, e = .act (.getOrCreate raw)) ∧ s.cache.Expired h := by
  obtain ⟨d, he, slot⟩ := (Cache.isCurrent_iff _).mp hc
  have own : s.cache.reference? h = some (Reference.ofText d.reference.raw) := by
    rw [Cache.reference?_of_some he, ← hs.tidy.read h d he]
  have lost : ¬ (e = .act (.getOrCreate d.reference.raw) → ¬ s.cache.Expired h) := by
    intro live
    rw [(Cache.isCurrent_iff_of_reference? (reference?_step own e)).mpr
      ((get?_step_iff own e).mpr ⟨slot, hclear, hd h, live⟩)] at hl
    cases hl
  push Not at lost
  exact ⟨⟨_, lost.1⟩, lost.2⟩

lemma respectsOthers_concat (others : s.RespectsOthers keep es)
    (last : ∀ k v h t, (s.run keep es).LoadsAt keep e k v → h ≠ k →
      (s.run keep es).cache.reference? h = (s.run keep es).cache.reference? k →
      (s.marks keep h es).getLast? = some (.ended t false) → t.after keep.failure < v) :
    s.RespectsOthers keep (es ++ [e]) := by
  intro p e' k v h t hp hl
  rcases List.prefix_concat_iff.mp hp with hp | hp
  · obtain ⟨rfl, he⟩ := List.append_inj' hp rfl
    cases he
    exact last k v h t hl
  · exact others p e' k v h t hp hl

/-- A load begins when its entry is begun with. -/
lemma LoadsAt.eq_start {v : Instant} (hl : s.LoadsAt keep e k v) : e = .start k := by
  obtain ⟨free, loading⟩ := stage_of_began hl
  rcases s.step_at keep k e with ⟨hst, -⟩ | ⟨rfl, -⟩ | ⟨hst, -⟩
  · exact absurd (hst.mpr free) loading
  · rfl
  · exact absurd free hst

end State

namespace Gated

variable (keep : Retention) (g : Gated)

/-- Somebody waits for an entry or is busy with it. -/
def IsHeld (h : Nat) : Prop := 0 < g.waiting h ∨ g.state.stage h ≠ none

/-- Along some moves nobody waits for an entry or is busy with it that is not stored any more. -/
def HoldsStored (ms : List Move) : Prop :=
  ∀ p h, p <+: ms → (g.run keep p).IsHeld h → (g.run keep p).state.cache.isCurrent h = true

/-- The failure of each entry that is not stored any more holds no longer. -/
def Spent (ms : List Move) : Prop :=
  ∀ h t, (g.run keep ms).state.cache.isCurrent h = false → (g.history keep h ms).getLast? = some (.ended t false) →
    t.after keep.failure < (g.run keep ms).state.cache.now

variable {keep g} {ms : List Move} {m : Move}

lemma event?_cases (hm : m.IsPolling) (g : Gated) {e : Event} (he : g.event? m = some e) :
    e.IsForward ∧ (∀ k, e ≠ .act (.delete k)) ∧ e ≠ .act .clear ∧ ∀ k, e = .start k → g.IsHeld k := by
  cases m with
  | call h => cases he
  | enter h =>
    simp only [event?, Option.ite_none_right_eq_some, Option.some.injEq] at he
    obtain ⟨⟨waits, -⟩, rfl⟩ := he
    refine ⟨trivial, by simp, by simp, fun k hk => ?_⟩
    cases hk
    exact Or.inl waits
  | other ev =>
    cases ev with
    | start h => cases he
    | act a =>
      cases he
      cases a with
      | getOrCreate raw => exact ⟨trivial, by simp, by simp, by simp⟩
      | advance t => exact ⟨hm, by simp, by simp, by simp⟩
      | delete h => exact hm.elim
      | clear => exact hm.elim
      | purge => exact hm.elim
      | tag h label => exact hm.elim
    | miss h => cases he; exact ⟨trivial, by simp, by simp, by simp⟩
    | answer h a => cases he; exact ⟨trivial, by simp, by simp, by simp⟩
    | finish h => cases he; exact ⟨trivial, by simp, by simp, by simp⟩

lemma forward_events (hm : ∀ m ∈ ms, m.IsPolling) (g : Gated) : ∀ e ∈ g.events keep ms, e.IsForward := by
  induction ms generalizing g with
  | nil => exact fun e he => nomatch he
  | cons m ms ih =>
    intro e he
    rw [events, collect, List.mem_append, Option.mem_toList] at he
    rcases he with he | he
    · exact (event?_cases (hm m List.mem_cons_self) g he).1
    · exact ih (fun n hn => hm n (List.mem_cons_of_mem m hn)) _ e he

/-- An entry is taken out of its slot only when its failure holds no longer, and then nobody begins
with it. -/
lemma Spent.concat (hs : g.state.Sound) (hr : ∀ h, g.state.stage h = none) (hp : g.Spent keep ms)
    (held : ∀ h, (g.run keep ms).IsHeld h → (g.run keep ms).state.cache.isCurrent h = true) (hm : m.IsPolling) :
    g.Spent keep (ms ++ [m]) := by
  intro h t lost last
  rw [history, events_concat] at last
  rw [state_concat] at lost ⊢
  cases he : (g.run keep ms).event? m with
  | none =>
    simp only [he, Option.toList_none, List.append_nil, State.run_nil] at lost last ⊢
    exact hp h t lost last
  | some e =>
    obtain ⟨forward, undeleted, uncleared, -⟩ := event?_cases hm _ he
    simp only [he, Option.toList_some, State.run_cons, State.run_nil] at lost last ⊢
    rw [State.marks_concat, ← state_run] at last
    set s := (g.run keep ms).state with hstate
    have sound : s.Sound := by
      rw [hstate, state_run]
      exact State.run_induction (fun _ ev h => h.step ev) hs _
    have shows : s.Shows keep h (g.history keep h ms).getLast? := by
      rw [hstate, state_run]
      exact (State.isChain_marks keep hs (hr h) _).2
    have passes : s.cache.now ≤ (s.step keep e).cache.now := State.now_le_step keep s forward
    rcases State.mark?_step keep sound shows e with ⟨none, -⟩ | ⟨mark, some, -, -⟩
    · -- nothing happens to the loads of the entry
      rw [none, Option.toList_none, List.append_nil] at last
      have ended : (g.history keep h ms).getLast? = .some (.ended t false) := last
      cases hc : s.cache.isCurrent h with
      | false => exact Instant.lt_of_lt_of_le (hp h t hc ended) passes
      | true =>
        obtain ⟨-, d, hd, expired⟩ := State.expired_of_lost sound undeleted uncleared hc lost
        rw [ended] at shows
        obtain ⟨-, d', hd', until_⟩ := shows
        rw [hd] at hd'
        cases hd'
        rw [Entry.isExpired, until_] at expired
        exact Instant.lt_of_lt_of_le (by simpa [Retention.seconds] using expired) passes
    · -- who ends a load is busy with the entry, which is still stored then
      rw [some, Option.toList_some, List.getLast?_concat] at last
      cases last
      obtain ⟨busy, free⟩ := State.stage_of_ended some
      obtain ⟨⟨raw, rfl⟩, -⟩ := State.expired_of_lost sound undeleted uncleared (held h (Or.inr busy)) lost
      have same : (s.step keep (.act (.getOrCreate raw))).stage h = s.stage h := rfl
      rw [same] at free
      exact absurd free busy

lemma spent (hs : g.state.Sound) (hr : ∀ h, g.state.stage h = none) (hm : ∀ m ∈ ms, m.IsPolling)
    (held : g.HoldsStored keep ms) : g.Spent keep ms := by
  induction ms using List.reverseRecOn with
  | nil => exact fun h t _ last => nomatch last
  | append_singleton ms m ih =>
    have earlier : g.HoldsStored keep ms := fun p h hp => held p h (hp.trans (List.prefix_append ms [m]))
    have before := ih (fun n hn => hm n (List.mem_append_left _ hn)) earlier
    exact before.concat hs hr (fun h => held ms h (List.prefix_append ms [m])) (hm m (by simp))

/-- Where nobody is busy with an entry that is not stored any more, a load begins only for the one entry
that is stored for its text, and the failures of the others hold no longer. -/
lemma respectsOthers_of_holdsStored (hs : g.state.Sound) (hr : ∀ h, g.state.stage h = none)
    (hm : ∀ m ∈ ms, m.IsPolling) (held : g.HoldsStored keep ms) : g.state.RespectsOthers keep (g.events keep ms) := by
  induction ms using List.reverseRecOn with
  | nil =>
    intro p e k v h t hp
    have impossible := hp.length_le
    simp [events, collect] at impossible
  | append_singleton ms m ih =>
    have polls : ∀ n ∈ ms, n.IsPolling := fun n hn => hm n (List.mem_append_left _ hn)
    have earlier : g.HoldsStored keep ms := fun p h hp => held p h (hp.trans (List.prefix_append ms [m]))
    rw [events_concat]
    cases he : (g.run keep ms).event? m with
    | none =>
      rw [Option.toList_none, List.append_nil]
      exact ih polls earlier
    | some e =>
      refine State.respectsOthers_concat (ih polls earlier) fun k v h t hl hk same last => ?_
      rw [← state_run] at hl same
      have waits := (event?_cases (hm m (by simp)) _ he).2.2.2 k hl.eq_start
      have current := held ms k (List.prefix_append ms [m]) waits
      have lost : (g.run keep ms).state.cache.isCurrent h = false := by
        obtain ⟨d, hd, -⟩ := (Cache.isCurrent_iff _).mp current
        rw [Cache.reference?_of_some hd] at same
        obtain ⟨x, hx, href⟩ := Cache.entry?_of_reference? same
        rw [← Bool.not_eq_true]
        intro other
        exact hk (Cache.eq_of_isCurrent hx hd other current (by rw [href]))
      rw [hl.now_eq]
      exact spent hs hr polls earlier h t lost last

end Gated

/-! ### Programs that resolve one text after another -/

/-- Time passes. -/
def Action.IsPassing : Action → Prop
  | advance ms => 0 ≤ ms
  | _ => False

/-- A text is resolved or time passes; while a fetch is under way nothing but time passes. -/
def Op.IsPolling : Op → Prop
  | act a => a.IsPassing
  | resolveText reply _ => ∀ r, ∀ a ∈ (reply r).1, a.IsPassing
  | _ => False

lemma Op.IsPolling.serial {op : Op} (hp : op.IsPolling) : op.Serial Set.univ := by
  have on (a : Action) : a.On Set.univ := by cases a <;> trivial
  cases op with
  | act a => exact on a
  | resolveText reply raw => exact ⟨trivial, fun _ a _ => on a⟩
  | resolve reply h => exact hp.elim
  | resolveAll reply hs => exact hp.elim

namespace Action

lemma exists_now_apply (c : Cache) {a : Action} (ha : a.IsPassing) :
    ∃ t, c.now ≤ t ∧ a.apply c = { c with now := t } := by
  cases a with
  | advance ms => exact ⟨c.now.addMillis ms, c.now.le_addMillis ha, rfl⟩
  | getOrCreate raw => exact ha.elim
  | delete h => exact ha.elim
  | clear => exact ha.elim
  | purge => exact ha.elim
  | tag h label => exact ha.elim

lemma exists_now_applyAll (c : Cache) {as : List Action} (ha : ∀ a ∈ as, a.IsPassing) :
    ∃ t, c.now ≤ t ∧ applyAll c as = { c with now := t } := by
  induction as generalizing c with
  | nil => exact ⟨c.now, Int.le_refl _, rfl⟩
  | cons a as ih =>
    obtain ⟨t, ht, happ⟩ := exists_now_apply c (ha a List.mem_cons_self)
    obtain ⟨u, hu, hall⟩ := ih { c with now := t } fun b hb => ha b (List.mem_cons_of_mem _ hb)
    refine ⟨u, Instant.le_trans ht hu, ?_⟩
    show applyAll (a.apply c) as = _
    rw [happ, hall]

end Action

namespace Cache

/-- To resolve a text something has to be loaded. -/
def Loads (c : Cache) (keep : Retention) (raw : String) : Prop :=
  ((c.getOrCreate raw).2.plan? keep (c.getOrCreate raw).1).isSome = true

/-- The entry that is stored for a text has no manifest, and that holds until an instant. -/
def FailedUntil (c : Cache) (raw : String) (u : Instant) : Prop :=
  ∃ h e, c.get? raw = some h ∧ c.entry? h = some e ∧ e.available = false ∧ e.expires = some u

variable (keep : Retention) {c : Cache} {raw : String} {u : Instant}

/-- While a failure holds, looking the text up finds the entry, and nothing is to be done. -/
lemma FailedUntil.getOrCreate (hf : c.FailedUntil raw u) (hu : ¬ u < c.now) :
    (c.getOrCreate raw).2 = c ∧ c.plan? keep (c.getOrCreate raw).1 = none := by
  obtain ⟨h, e, hs, he, -, hx⟩ := hf
  have live : e.isExpired c.now = false := by simpa [Entry.isExpired, hx] using hu
  have rests : e.needsResolution c.now = false := by simp [Entry.needsResolution, hx, hu]
  have found : c.getOrCreate raw = (h, c) := by simp [Cache.getOrCreate, hs, he, live]
  rw [found]
  exact ⟨rfl, by simp [plan?, he, rests]⟩

lemma FailedUntil.not_loads (hf : c.FailedUntil raw u) (hu : ¬ u < c.now) : ¬ c.Loads keep raw := by
  obtain ⟨same, idle⟩ := hf.getOrCreate keep hu
  rw [Loads, same, idle]
  exact Bool.false_ne_true

end Cache

section polling

variable (keep : Retention) {c : Cache} {raw : String} {u : Instant} {reply : Reply}

/-- What resolving a text comes to when nothing but time passes: the entry is looked up, and what
is loaded is noted at some later time. -/
lemma run_polling (hp : (Op.resolveText reply raw).IsPolling) :
    ¬ c.Loads keep raw ∧ Op.run keep c (.resolveText reply raw) = (c.getOrCreate raw).2 ∨
      c.Loads keep raw ∧ ∃ t f, c.now ≤ t ∧
        Op.run keep c (.resolveText reply raw) =
          Cache.conclude { (c.getOrCreate raw).2 with now := t } keep (c.getOrCreate raw).1 f := by
  rw [run_resolveText]
  cases hl : (c.getOrCreate raw).2.plan? keep (c.getOrCreate raw).1 with
  | none =>
    left
    exact ⟨by simp [Cache.Loads, hl], run_resolve_of_none reply hl⟩
  | some load =>
    right
    have acts : ∀ a ∈ reply.acts load, a.IsPassing := by
      cases load with
      | kept text => intro a ha; cases ha
      | fetch r => exact hp r
    obtain ⟨t, ht, hall⟩ := Action.exists_now_applyAll (c.getOrCreate raw).2 acts
    rw [Cache.now_getOrCreate] at ht
    set mid : Cache := { (c.getOrCreate raw).2 with now := t } with hmid
    refine ⟨by simp [Cache.Loads, hl], t, mid.finding (c.getOrCreate raw).1 load (reply.answer load), ht, ?_⟩
    rw [run_resolve_of_some reply hl, hall, Cache.settle]

lemma now_le_run {op : Op} (hp : op.IsPolling) : c.now ≤ (op.run keep c).now := by
  cases op with
  | act a =>
    obtain ⟨t, ht, happ⟩ := Action.exists_now_apply c (show a.IsPassing from hp)
    rw [Op.run_act, happ]
    exact ht
  | resolveText reply raw =>
    rcases run_polling keep (c := c) hp with ⟨-, hrun⟩ | ⟨-, t, f, ht, hrun⟩ <;> rw [hrun]
    · rw [Cache.now_getOrCreate]
      exact Int.le_refl _
    · rw [Cache.now_conclude]
      exact ht
  | resolve reply h => exact hp.elim
  | resolveAll reply hs => exact hp.elim

lemma tidy_run_polling (ht : c.Tidy) {op : Op} (hp : op.IsPolling) : (op.run keep c).Tidy := by
  refine Op.Serial.run (P := Cache.Tidy) (fun c a _ h => h.apply a) ?_ hp.serial ht
  intro c h e load answer he _ hr ht
  exact ht.conclude keep he hr _

lemma tidy_runAll_polling (ht : c.Tidy) {ops : List Op} (hp : ∀ op ∈ ops, op.IsPolling) :
    (Op.runAll keep c ops).Tidy := by
  induction ops generalizing c with
  | nil => exact ht
  | cons op ops ih =>
    exact ih (tidy_run_polling keep ht (hp op List.mem_cons_self)) fun o hm => hp o (List.mem_cons_of_mem op hm)

/-- A failure is noted with the time at which it was. -/
lemma failedUntil_run (ht : c.Tidy) (hp : (Op.resolveText reply raw).IsPolling) (hl : c.Loads keep raw)
    (hf : ∀ e, Cache.entry? (Op.run keep c (.resolveText reply raw)) (c.getOrCreate raw).1 = some e →
      e.available = false) :
    (Op.run keep c (.resolveText reply raw)).FailedUntil raw
      ((Op.run keep c (.resolveText reply raw)).now.after keep.failure) := by
  rcases run_polling keep (c := c) hp with ⟨hl', -⟩ | ⟨-, t, f, -, hrun⟩
  · exact absurd hl hl'
  · rw [hrun] at hf ⊢
    set d : Cache := { (c.getOrCreate raw).2 with now := t } with hd
    have slot : d.get? raw = some (c.getOrCreate raw).1 := c.get?_getOrCreate_self raw
    obtain ⟨e, he, -⟩ := Cache.entry?_of_reference? ((ht.apply (.getOrCreate raw)).stored raw _ slot)
    have there : d.entry? (c.getOrCreate raw).1 = some e := he
    have noted := Cache.entry?_conclude keep there f
    refine ⟨_, _, ?_, noted, hf _ noted, ?_⟩
    · rw [Cache.get?, Cache.slots_conclude]
      exact slot
    · rw [Cache.now_conclude]
      cases f with
      | missing => rfl
      | late o => cases hf _ noted
      | timely o text => cases hf _ noted

/-- While a failure holds, resolving texts leaves it. -/
lemma FailedUntil.run (ht : c.Tidy) (hf : c.FailedUntil raw u) (hu : ¬ u < c.now) {op : Op}
    (hp : op.IsPolling) : (op.run keep c).FailedUntil raw u := by
  cases op with
  | act a =>
    obtain ⟨t, -, happ⟩ := Action.exists_now_apply c (show a.IsPassing from hp)
    rw [Op.run_act, happ]
    exact hf
  | resolveText reply t =>
    by_cases hraw : t = raw
    · subst hraw
      obtain ⟨same, -⟩ := hf.getOrCreate keep hu
      rcases run_polling keep (c := c) hp with ⟨-, hrun⟩ | ⟨hl, -⟩
      · rw [hrun, same]
        exact hf
      · exact absurd hl (hf.not_loads keep hu)
    · obtain ⟨h, e, hs, he, ha, hx⟩ := hf
      obtain ⟨d, hd, href⟩ := Cache.entry?_of_reference? (ht.stored raw h hs)
      rw [he] at hd
      cases hd
      have kept : c.SameAt (c.getOrCreate t).2 h :=
        Cache.sameAt_getOrCreate ht he (by rw [href, Reference.raw_ofText]; exact Ne.symm hraw)
      have slot : (c.getOrCreate t).2.get? raw = some h := by
        rw [Cache.get?_getOrCreate_of_ne c (Ne.symm hraw), hs]
      have there : Cache.entry? (c.getOrCreate t).2 h = some e := kept.1.trans he
      rcases run_polling keep (c := c) hp with ⟨-, hrun⟩ | ⟨-, v, f, -, hrun⟩ <;> rw [hrun]
      · exact ⟨h, e, slot, there, ha, hx⟩
      · have apart : h ≠ (c.getOrCreate t).1 := by
          rintro rfl
          have own := (ht.apply (.getOrCreate t)).stored t _ (c.get?_getOrCreate_self t)
          rw [Cache.reference?_of_some (c := Action.apply c (.getOrCreate t)) there, href] at own
          exact hraw (congrArg Reference.raw (Option.some.inj own)).symm
        refine ⟨h, e, ?_, ?_, ha, hx⟩
        · rw [Cache.get?, Cache.slots_conclude]
          exact slot
        · rw [Cache.entry?_conclude_of_ne _ _ _ _ apart]
          exact there
  | resolve reply h => exact hp.elim
  | resolveAll reply hs => exact hp.elim

lemma FailedUntil.runAll (ht : c.Tidy) (hf : c.FailedUntil raw u) {ops : List Op}
    (hp : ∀ op ∈ ops, op.IsPolling) :
    u < (Op.runAll keep c ops).now ∨ (Op.runAll keep c ops).FailedUntil raw u := by
  have past (d : Cache) (hu : u < d.now) (ops : List Op) (hp : ∀ op ∈ ops, op.IsPolling) :
      u < (Op.runAll keep d ops).now := by
    induction ops generalizing d with
    | nil => exact hu
    | cons op ops ih =>
      refine ih (op.run keep d) ?_ fun o hm => hp o (List.mem_cons_of_mem op hm)
      exact Instant.lt_of_lt_of_le hu (now_le_run keep (hp op List.mem_cons_self))
  induction ops generalizing c with
  | nil => exact Or.inr hf
  | cons op ops ih =>
    by_cases hu : u < c.now
    · exact Or.inl (past c hu (op :: ops) hp)
    · have first := hp op List.mem_cons_self
      refine ih (tidy_run_polling keep ht first) (FailedUntil.run keep ht hf hu first) ?_
      exact fun o hm => hp o (List.mem_cons_of_mem op hm)

end polling

/-- However callers use the entries, and whoever waits at their gates, one load of an entry ends before
the next one begins, and that one begins when the retention of what the first one came to is over; every
program is such a use, with the same actions, fetches and answers. While the clock does not go back, no
text is loaded again before the retention of its failure is over exactly if no load begins while another
entry of the text rests after a failure that still holds. Where texts are resolved and time passes, and
nothing else, that is so if nobody waits for an entry, or is busy with it, that is not stored any more,
and so in every program that resolves one text after another. -/
theorem loads_are_spaced (keep : Retention) (now : Instant) (store : Option ContentStore) :
    let g : Gated := ⟨State.initial now store, fun _ => 0⟩
    (∀ ops, ∃ ms, g.sights keep ms = Op.sightsAll keep { now, store } ops ∧
      g.run keep ms = ⟨State.idle (Op.runAll keep { now, store } ops), fun _ => 0⟩) ∧
    (∀ ms h, List.IsChain (Spaced keep) (g.history keep h ms)) ∧
    (∀ ms, (∀ e ∈ g.events keep ms, e.IsForward) →
      (g.state.BacksOff keep (g.events keep ms) ↔ g.state.RespectsOthers keep (g.events keep ms))) ∧
    (∀ ms, (∀ m ∈ ms, m.IsPolling) → g.HoldsStored keep ms → g.state.BacksOff keep (g.events keep ms)) ∧
    ∀ ops raw reply later, (∀ op ∈ ops ++ .resolveText reply raw :: later, op.IsPolling) →
      let c := Op.runAll keep { now, store } ops
      let d := Op.run keep c (.resolveText reply raw)
      c.Loads keep raw → (∀ e, d.entry? (c.getOrCreate raw).1 = some e → e.available = false) →
        (Op.runAll keep d later).Loads keep raw → d.now.after keep.failure < (Op.runAll keep d later).now := by
  intro g
  have sound : g.state.Sound := State.Sound.initial now store
  have free : ∀ h, g.state.stage h = none := fun _ => rfl
  refine ⟨fun ops => ?_, fun ms h => ?_, fun ms forward => State.backsOff_iff sound free forward,
    fun ms polls held => ?_, fun ops raw reply later hp => ?_⟩
  · obtain ⟨es, -, seen, run⟩ : (State.initial now store).Yields keep _ _ := State.yields_runAll { now, store } ops
    obtain ⟨ms, seen', run'⟩ := State.exists_moves_run keep (State.initial now store) es
    exact ⟨ms, seen'.trans seen, by rw [run', run]⟩
  · exact (State.isChain_marks keep sound (free h) _).1
  · rw [State.backsOff_iff sound free (Gated.forward_events polls g)]
    exact Gated.respectsOthers_of_holdsStored sound free polls held
  · intro c d hl hf hl'
    have polls (op : Op) (hm : op ∈ ops ∨ op = .resolveText reply raw ∨ op ∈ later) : op.IsPolling := by
      refine hp op ?_
      simpa using hm
    have tidy : c.Tidy :=
      tidy_runAll_polling keep (Cache.Tidy.initial now store) fun op hm => polls op (Or.inl hm)
    have failed : d.FailedUntil raw (d.now.after keep.failure) :=
      failedUntil_run keep tidy (polls _ (Or.inr (Or.inl rfl))) hl hf
    have tidy' : d.Tidy := tidy_run_polling keep tidy (polls _ (Or.inr (Or.inl rfl)))
    rcases FailedUntil.runAll keep tidy' failed fun op hm => polls op (Or.inr (Or.inr hm)) with hu | hf'
    · exact hu
    · by_contra hu
      exact hf'.not_loads keep hu hl'

/-! ### Calls that are overtaken -/

/-- Two calls find an entry for a text. The first one fails, and while the second one is not awake, the
failure is over and a third call fails with a new entry; then the second one goes on with the old one. -/
def overtakenAtGate : List Move :=
  [.other (.act (.getOrCreate "o/a@v1")), .call 0, .enter 0, .other (.act (.getOrCreate "o/a@v1")), .call 0,
    .other (.act (.advance 2000)), .other (.answer 0 (.error (.emptyContent ""))), .other (.act (.advance 601000)),
    .other (.act (.getOrCreate "o/a@v1")), .call 1, .enter 1, .other (.act (.advance 1000)),
    .other (.answer 1 (.error (.emptyContent ""))), .other (.act (.advance 1000)), .enter 0]

/-- A call has failed. When its failure is just about to be over, the next one finds its entry; before it
asks for it, a third call fails with a new entry. -/
def overtakenBeforeGate : List Move :=
  [.other (.act (.getOrCreate "o/a@v1")), .call 0, .enter 0, .other (.answer 0 (.error (.emptyContent ""))),
    .other (.act (.advance 600000)), .other (.act (.getOrCreate "o/a@v1")), .other (.act (.advance 1)),
    .other (.act (.getOrCreate "o/a@v1")), .call 1, .enter 1, .other (.answer 1 (.error (.emptyContent ""))),
    .call 0, .enter 0]

/-- The loads of the calls that are overtaken at the gate, up to the last one. -/
def loadsAtGate : List Event :=
  [.act (.getOrCreate "o/a@v1"), .start 0, .act (.getOrCreate "o/a@v1"), .act (.advance 2000),
    .answer 0 (.error (.emptyContent "")), .act (.advance 601000), .act (.getOrCreate "o/a@v1"), .start 1,
    .act (.advance 1000), .answer 1 (.error (.emptyContent "")), .act (.advance 1000)]

/-- The loads of the calls that are overtaken before the gate, up to the last one. -/
def loadsBeforeGate : List Event :=
  [.act (.getOrCreate "o/a@v1"), .start 0, .answer 0 (.error (.emptyContent "")), .act (.advance 600000),
    .act (.getOrCreate "o/a@v1"), .act (.advance 1), .act (.getOrCreate "o/a@v1"), .start 1,
    .answer 1 (.error (.emptyContent ""))]

lemma events_overtakenAtGate :
    Gated.events {} ⟨State.initial ⟨0⟩ none, fun _ => 0⟩ overtakenAtGate = loadsAtGate ++ [.start 0] := by rfl

lemma events_overtakenBeforeGate :
    Gated.events {} ⟨State.initial ⟨0⟩ none, fun _ => 0⟩ overtakenBeforeGate = loadsBeforeGate ++ [.start 0] := by rfl

lemma isPolling_of_mem_overtaken : ∀ ms ∈ [overtakenAtGate, overtakenBeforeGate], ∀ m ∈ ms, m.IsPolling := by
  simp [overtakenAtGate, overtakenBeforeGate, Move.IsPolling]

/-- A load begins although another entry of the same reference has failed and its failure holds. -/
lemma State.not_backsOff_of_loadsAt {keep : Retention} {s : State} {p : List Event} {e : Event} {h k : Nat}
    {t v : Instant} (hl : (s.run keep p).LoadsAt keep e k v)
    (same : (s.run keep p).cache.reference? h = (s.run keep p).cache.reference? k)
    (failed : .ended t false ∈ s.marks keep h p) (holds : ¬ t.after keep.failure < v) :
    ¬ s.BacksOff keep (p ++ [e]) :=
  fun backs => holds (backs p e k v h t List.prefix_rfl hl same failed)

/-- The text is loaded one second, or at once, after it has failed. -/
theorem not_backsOff_overtaken :
    let g : Gated := ⟨State.initial ⟨0⟩ none, fun _ => 0⟩
    ∀ ms ∈ [overtakenAtGate, overtakenBeforeGate],
      (∀ m ∈ ms, m.IsPolling) ∧ ¬ g.state.BacksOff {} (g.events {} ms) := by
  intro g ms hms
  refine ⟨isPolling_of_mem_overtaken ms hms, ?_⟩
  simp only [List.mem_cons, List.not_mem_nil, or_false] at hms
  rcases hms with rfl | rfl
  · have loads : ((State.initial ⟨0⟩ none).run {} loadsAtGate).LoadsAt {} (.start 0) 0 ⟨605000000000⟩ := by
      unfold State.LoadsAt
      decide +kernel
    have failed : .ended ⟨604000000000⟩ false ∈ (State.initial ⟨0⟩ none).marks {} 1 loadsAtGate := by decide +kernel
    rw [events_overtakenAtGate]
    exact State.not_backsOff_of_loadsAt loads (by decide +kernel) failed (by decide +kernel)
  · have loads : ((State.initial ⟨0⟩ none).run {} loadsBeforeGate).LoadsAt {} (.start 0) 0 ⟨600001000000⟩ := by
      unfold State.LoadsAt
      decide +kernel
    have failed : .ended ⟨600001000000⟩ false ∈ (State.initial ⟨0⟩ none).marks {} 1 loadsBeforeGate := by decide +kernel
    rw [events_overtakenBeforeGate]
    exact State.not_backsOff_of_loadsAt loads (by decide +kernel) failed (by decide +kernel)

end CiWorkflow.Resolution
