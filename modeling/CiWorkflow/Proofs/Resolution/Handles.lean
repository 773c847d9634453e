import CiWorkflow.Proofs.Resolution.Simulation

/-!
# What a handle shows

Whoever holds an entry is shown the outline under its key while the entry is available, even after
it has lost its slot. No action of a caller puts a foreign outline there. A resolving can: by
publishing under a key that another available entry has, and by making an entry available that has
lost its slot to one with another manifest. What a handle shows is what it was resolved from exactly
when the interfaces agree at those points.
-/

namespace CiWorkflow.Resolution

namespace Cache

/-- Every handle that shows an outline has its interface. -/
def Faithful (c : Cache) : Prop :=
  ∀ h e o, c.entry? h = some e → c.outline? h = some o → e.interface = Interface.ofDocument o.document e.reference

/-- The finding for an entry says of every handle with its key what that handle has: what it
publishes has the interface of the other available entries there, and what comes too late has the
interface of what is published there. -/
def Agrees (c : Cache) (h : Nat) : Finding → Prop
  | .missing => True
  | .late o => ∀ e p, c.entry? h = some e → c.outlines.get? e.reference.contentKey = some p →
      Interface.ofDocument o.document e.reference = Interface.ofDocument p.document e.reference
  | .timely o _ => ∀ e k d, c.entry? h = some e → k ≠ h → c.entry? k = some d → d.available = true →
      d.reference.contentKey = e.reference.contentKey →
      d.interface = Interface.ofDocument o.document d.reference

variable {c : Cache} {h : Nat} {e : Entry}

lemma faithful_iff :
    c.Faithful ↔ ∀ h e o, c.entry? h = some e → e.available = true →
      c.outlines.get? e.reference.contentKey = some o →
      e.interface = Interface.ofDocument o.document e.reference := by
  constructor
  · intro hf h e o he ha ho
    exact hf h e o he (by rw [outline?_of_some he ha, ho])
  · intro hf h e o he ho
    obtain ⟨d, hd, ha, hk⟩ := c.outline?_eq_some_iff.mp ho
    rw [he] at hd
    cases hd
    exact hf h e o he ha hk

namespace Faithful

lemma initial (now : Time.Instant) (store : Option ContentStore) : Faithful { now, store } := by
  intro h e o he
  simp [Cache.entry?] at he

lemma apply (hf : c.Faithful) (a : Action) : (a.apply c).Faithful := by
  rw [faithful_iff] at hf ⊢
  intro h e' o he' ha ho
  obtain ⟨e, he, hav, hw⟩ := Action.available_of_apply he' ha
  rw [hw.interface, hw.reference]
  refine hf h e o he hav ?_
  rw [hw.reference] at ho
  exact Action.get?_outlines_of_apply ho

variable (keep : Retention)

/-- What noting a finding needs and what it leaves of the other entries. -/
lemma conclude_iff (hf : c.Faithful) (he : c.entry? h = some e) (f : Finding) :
    (c.conclude keep h f).Faithful ↔ c.Agrees h f := by
  rw [faithful_iff] at hf ⊢
  have self := entry?_conclude keep he f
  have others (k : Nat) (hk : k ≠ h) := c.entry?_conclude_of_ne keep h f hk
  cases f with
  | missing =>
    refine iff_of_true ?_ trivial
    intro k d o hd ha ho
    by_cases hk : k = h
    · subst hk
      rw [self] at hd
      cases hd
      cases ha
    · rw [others k hk] at hd
      exact hf k d o hd ha ho
  | late o =>
    constructor
    · intro hf' e' p he' hp
      rw [he] at he'
      cases he'
      exact hf' h _ p self rfl (by rw [reference_concluded]; exact hp)
    · intro hag k d p hd ha hp
      by_cases hk : k = h
      · subst hk
        rw [self] at hd
        cases hd
        rw [reference_concluded] at hp ⊢
        exact hag e p he hp
      · rw [others k hk] at hd
        exact hf k d p hd ha hp
  | timely o text =>
    have outlines (key : String) := get?_outlines_conclude_timely keep he o text key
    constructor
    · intro hf' e' k d he' hk hd ha hkey
      rw [he] at he'
      cases he'
      refine hf' k d o (by rw [others k hk, hd]) ha ?_
      rw [outlines, if_pos hkey]
    · intro hag k d p hd ha hp
      rw [outlines] at hp
      by_cases hk : k = h
      · subst hk
        rw [self] at hd
        cases hd
        rw [reference_concluded, if_pos rfl] at hp
        cases hp
        rw [reference_concluded]
        rfl
      · rw [others k hk] at hd
        split at hp
        · rename_i hkey
          cases hp
          exact hag e k d he hk hd ha hkey
        · exact hf k d p hd ha hp

end Faithful

end Cache

/-! ### Runs -/

namespace State

/-- What an event notes agrees with what the handles have. -/
def Agrees (s : State) (ev : Event) : Prop := ∀ h f, s.noted? ev = some (h, f) → s.cache.Agrees h f

lemma exists_of_noted? {s : State} (hs : s.Sound) {ev : Event} {h : Nat} {f : Finding}
    (hn : s.noted? ev = some (h, f)) :
    ∃ e, s.cache.entry? h = some e := by
  have staged : ∃ t, s.stage h = some t := by
    cases ev with
    | answer k a =>
      simp only [noted?] at hn
      split at hn
      · rename_i load hst
        split at hn
        · cases hn
          exact ⟨_, hst⟩
        · cases hn
      · cases hn
    | finish k =>
      simp only [noted?] at hn
      split at hn
      · rename_i g hst
        cases hn
        exact ⟨_, hst⟩
      · cases hn
    | act a => cases hn
    | start k => cases hn
    | miss k => cases hn
  obtain ⟨t, ht⟩ := staged
  obtain ⟨e, he, -⟩ := hs.waiting h t ht
  exact ⟨e, he⟩

lemma faithful_step_iff {keep : Retention} {s : State} (hs : s.Sound) (hf : s.cache.Faithful)
    (ev : Event) :
    (s.step keep ev).cache.Faithful ↔ s.Agrees ev := by
  unfold Agrees
  rcases s.step_cases keep ev with ⟨a, -, hn, hstep⟩ | ⟨hn, hc⟩ | ⟨h, f, hn, hstep⟩
  · rw [hn, hstep]
    exact iff_of_true (hf.apply a) fun h f he => by cases he
  · rw [hn, hc]
    exact iff_of_true hf fun h f he => by cases he
  · obtain ⟨e, he⟩ := exists_of_noted? hs hn
    rw [hstep, cache_note, hf.conclude_iff keep he f, hn]
    constructor
    · intro hag k g hk
      cases hk
      exact hag
    · intro hag
      exact hag h f rfl

end State

/-- Every program is a run, and along a run every handle that shows an outline has its interface
exactly when everything that is noted agrees with what the handles have. -/
theorem faithful_iff_agrees (keep : Retention) (now : Time.Instant) (store : Option ContentStore) :
    (∀ ops, (State.initial now store).Yields keep (Op.sightsAll keep { now, store } ops)
        (State.idle (Op.runAll keep { now, store } ops))) ∧
      ∀ es, (∀ p, p <+: es → ((State.initial now store).run keep p).cache.Faithful) ↔
        ∀ p ev h f, p ++ [ev] <+: es → ((State.initial now store).run keep p).noted? ev = some (h, f) →
          ((State.initial now store).run keep p).cache.Agrees h f := by
  refine ⟨fun ops => State.yields_runAll _ ops, fun es => ?_⟩
  rw [State.forall_prefix_iff State.Sound (fun s => s.cache.Faithful) State.Agrees (fun _ ev hs => hs.step ev)
    (fun _ ev hs hf => State.faithful_step_iff hs hf ev) (State.Sound.initial now store)
    (Cache.Faithful.initial now store) es]
  constructor
  · intro hag p ev h f hp hn
    exact hag p ev hp h f hn
  · intro hag p ev hp h f hn
    exact hag p ev h f hp hn

/-! ### A foreign outline -/

/-- Dropping all entries leaves them available, so the next entry for the text shows them its
outline. -/
lemma not_faithful_of_clear {keep : Retention} {now : Time.Instant} {raw t₁ t₂ : String} {o₁ o₂ : Outline}
    (hr : (Reference.ofText raw).isResolvable = true) (h₁ : manifest? (Reference.ofText raw) t₁ = .ok o₁)
    (h₂ : manifest? (Reference.ofText raw) t₂ = .ok o₂)
    (hne : Interface.ofDocument o₁.document (Reference.ofText raw) ≠
      Interface.ofDocument o₂.document (Reference.ofText raw)) :
    ¬ (Op.runAll keep { now }
        [.resolveText (Reply.always t₁) raw, .act .clear, .resolveText (Reply.always t₂) raw]).Faithful := by
  set c := Op.run keep { now } (.resolveText (Reply.always t₁) raw) with hc
  set c' := Op.run keep c.clear (.resolveText (Reply.always t₂) raw) with hc'
  have first : Cache.Gained { now } raw o₁ c := gained_of_resolveText rfl rfl hr h₁
  have second : c.clear.Gained raw o₂ c' := gained_of_resolveText rfl first.store hr h₂
  obtain ⟨e, he, href, hav, hint⟩ := first.own
  have foreign : c'.outlines.get? e.reference.contentKey = some o₂ := by rw [second.outlines, href, if_pos rfl]
  rw [Op.runAll_cons, Op.runAll_cons, Op.runAll_cons, Op.runAll_nil, Op.run_act, Cache.faithful_iff]
  intro hf
  have shown := hf _ e o₂ (second.others _ e he) hav foreign
  rw [hint, href] at shown
  exact hne shown

/-- The remote manifest of an action changes after all entries were dropped: the first entry keeps
its one input, and shows an outline that declares none. -/
theorem not_faithful_changed_manifest :
    ¬ (Op.runAll {} { now := ⟨0⟩ }
        [.resolveText (Reply.always "inputs:\n a:") "o/a@v1", .act .clear,
          .resolveText (Reply.always "inputs:") "o/a@v1"]).Faithful := by
  obtain ⟨o₁, h₁, one⟩ := exists_manifest? (by decide) actionInputs?_one
  obtain ⟨o₂, h₂, none⟩ := exists_manifest? (by decide) actionInputs?_none
  refine not_faithful_of_clear (by decide) (h₁ _) (h₂ _) ?_
  intro h
  have inputs := congrArg Interface.inputs h
  rw [one _ (by decide), none _ (by decide)] at inputs
  cases inputs

end CiWorkflow.Resolution
