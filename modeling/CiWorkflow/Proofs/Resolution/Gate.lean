import CiWorkflow.Proofs.Resolution.Identity
import Mathlib.Data.List.Chain

/-!
# The gate of an entry

Any number of calls may ask for an entry to be resolved. A call that finds the entry due waits at
the entry's gate until nobody else is inside, and then asks again, since those before it may have
resolved the entry. The history of an entry's loads says when each began and how each ended. What
is known holds at least for its retention, so of two loads the second begins after the retention of
what the first one came to.
-/

namespace CiWorkflow

/-! ### The clock -/

namespace Time.Instant

variable {a b c : Instant}

lemma le_trans (h : a ≤ b) (h' : b ≤ c) : a ≤ c := Int.le_trans h h'

lemma lt_of_lt_of_le (h : a < b) (h' : b ≤ c) : a < c := Int.lt_of_lt_of_le h h'

lemma le_addMillis (a : Instant) {ms : Int} (h : 0 ≤ ms) : a ≤ a.addMillis ms := by
  show a.nanos ≤ a.nanos + ms * nanosPerMilli
  unfold nanosPerMilli
  omega

end Time.Instant

namespace Resolution

open Time (Instant)

lemma Action.now_apply (c : Cache) (a : Action) :
    (a.apply c).now = match a with
      | .advance ms => c.now.addMillis ms
      | _ => c.now := by
  cases a with
  | getOrCreate raw => exact c.now_getOrCreate raw
  | delete h =>
    simp only [apply]
    cases he : c.entry? h with
    | none => rw [Cache.delete_of_entry?_eq_none he]
    | some e => rcases c.delete_cases he with ⟨-, hd⟩ | ⟨-, hd⟩ | ⟨-, hd⟩ <;> rw [hd] <;> simp
  | clear => rfl
  | purge =>
    simp only [apply, Cache.purge]
    split <;> rfl
  | tag h label => rfl
  | advance ms => rfl

/-- The event does not set the clock back. -/
def Event.IsForward : Event → Prop
  | .act (.advance ms) => 0 ≤ ms
  | _ => True

namespace State

lemma now_step (keep : Retention) (s : State) (e : Event) :
    (s.step keep e).cache.now = match e with
      | .act a => (a.apply s.cache).now
      | _ => s.cache.now := by
  rcases s.step_cases keep e with ⟨a, rfl, -, hstep⟩ | ⟨hn, hc⟩ | ⟨h, f, hn, hstep⟩
  · rfl
  · cases e with
    | act a => rfl
    | _ => rw [hc]
  · cases e with
    | act a => rfl
    | _ => rw [hstep, cache_note, Cache.now_conclude]

lemma now_le_step (keep : Retention) (s : State) {e : Event} (hf : e.IsForward) :
    s.cache.now ≤ (s.step keep e).cache.now := by
  have same : s.cache.now ≤ s.cache.now := Int.le_refl _
  rw [now_step]
  cases e with
  | act a =>
    dsimp only
    rw [Action.now_apply]
    cases a with
    | advance ms => exact s.cache.now.le_addMillis hf
    | _ => exact same
  | _ => exact same

end State

/-! ### Calls -/

/-- Whether it is time to resolve an entry. -/
def Cache.isDue (c : Cache) (h : Nat) : Bool := (c.entry? h).any (·.needsResolution c.now)

/-- A state, and how many calls wait at the gate of each entry. -/
structure Gated where
  state : State
  waiting : Nat → Nat := fun _ => 0

inductive Move where
  /-- a call asks for an entry, and waits at its gate where the entry is due -/
  | call (h : Nat)
  /-- a call that waits goes through the gate, which is free, and asks again -/
  | enter (h : Nat)
  /-- anything else that can happen -/
  | other (e : Event)

namespace Gated

variable (keep : Retention)

def step (g : Gated) : Move → Gated
  | .call h =>
    if g.state.cache.isDue h then { g with waiting := Function.update g.waiting h (g.waiting h + 1) } else g
  | .enter h =>
    if 0 < g.waiting h ∧ (g.state.stage h).isNone then
      { state := g.state.step keep (.start h), waiting := Function.update g.waiting h (g.waiting h - 1) }
    else g
  | .other (.start _) => g
  | .other e => { g with state := g.state.step keep e }

def run (g : Gated) (ms : List Move) : Gated := ms.foldl (step keep) g

@[simp] lemma run_nil (g : Gated) : g.run keep [] = g := rfl
@[simp] lemma run_cons (g : Gated) (m : Move) (ms : List Move) :
    g.run keep (m :: ms) = (g.step keep m).run keep ms :=
  rfl

/-- The event that a move is; none where it does nothing but make a call wait. -/
def event? (g : Gated) : Move → Option Event
  | .call _ | .other (.start _) => none
  | .enter h => if 0 < g.waiting h ∧ (g.state.stage h).isNone then some (.start h) else none
  | .other e => some e

/-- The events of some moves. -/
def events (g : Gated) (ms : List Move) : List Event := collect (step keep) (fun g m => (g.event? m).toList) g ms

/-- What can be seen of some moves. -/
def sights (g : Gated) (ms : List Move) : List Sight := g.state.sights keep (g.events keep ms)

lemma state_step (g : Gated) (m : Move) : (g.step keep m).state = g.state.run keep (g.event? m).toList := by
  cases m with
  | call h => unfold step; dsimp only; split <;> rfl
  | enter h => simp only [step, event?]; split <;> rfl
  | other e => cases e <;> rfl

/-- Whatever calls wait, the state is what the events make it. -/
lemma state_run (g : Gated) (ms : List Move) : (g.run keep ms).state = g.state.run keep (g.events keep ms) := by
  induction ms generalizing g with
  | nil => rfl
  | cons m ms ih => rw [run_cons, ih, state_step, ← State.run_append]; rfl

lemma run_append (g : Gated) (ms ns : List Move) : g.run keep (ms ++ ns) = (g.run keep ms).run keep ns := by
  simp [run]

lemma events_concat (g : Gated) (ms : List Move) (m : Move) :
    g.events keep (ms ++ [m]) = g.events keep ms ++ ((g.run keep ms).event? m).toList := collect_concat _ g ms m

lemma state_concat (g : Gated) (ms : List Move) (m : Move) :
    (g.run keep (ms ++ [m])).state = (g.run keep ms).state.run keep ((g.run keep ms).event? m).toList := by
  rw [run_append]
  exact state_step keep (g.run keep ms) m

lemma sights_append (g : Gated) (ms ns : List Move) :
    g.sights keep (ms ++ ns) = g.sights keep ms ++ (g.run keep ms).sights keep ns := by
  have parts : g.events keep (ms ++ ns) = g.events keep ms ++ (g.run keep ms).events keep ns := collect_append _ g ms ns
  rw [sights, parts, State.sights, collect_append]
  exact congrArg (fun s => _ ++ State.sights keep s _) (state_run keep g ms).symm

end Gated

lemma Cache.needsResolution_of_plan? {c : Cache} {keep : Retention} {h : Nat} {load : Load}
    (hp : c.plan? keep h = some load) : ∃ e, c.entry? h = some e ∧ e.needsResolution c.now = true := by
  unfold plan? at hp
  cases he : c.entry? h with
  | none => simp [he] at hp
  | some e =>
    simp only [he] at hp
    split at hp
    · rename_i hn
      exact ⟨e, rfl, hn⟩
    · cases hp

namespace State

variable (keep : Retention)

/-- A resolving that begins is one call that finds the gate free. -/
lemma exists_moves_step (s : State) (e : Event) :
    ∃ ms, Gated.sights keep ⟨s, fun _ => 0⟩ ms = s.sight keep e ∧
      Gated.run keep ⟨s, fun _ => 0⟩ ms = ⟨s.step keep e, fun _ => 0⟩ := by
  cases e with
  | start h =>
    cases hst : s.stage h with
    | some t =>
      refine ⟨[], ?_, by simp [step, hst]⟩
      simp [sight, asked?, hst, Gated.sights, Gated.events, sights, collect]
    | none =>
      cases hp : s.cache.plan? keep h with
      | none =>
        refine ⟨[], ?_, by simp [step, hst, hp]⟩
        simp [sight, asked?, hst, hp, Gated.sights, Gated.events, sights, collect]
      | some load =>
        obtain ⟨e, he, hn⟩ := Cache.needsResolution_of_plan? hp
        have due : s.cache.isDue h = true := by simp [Cache.isDue, he, hn]
        refine ⟨[.call h, .enter h], ?_, by simp [Gated.step, due, hst]⟩
        simp [Gated.sights, Gated.events, Gated.event?, Gated.step, due, hst, sights, collect]
  | act a => exact ⟨[.other (.act a)], List.append_nil _, rfl⟩
  | miss h => exact ⟨[.other (.miss h)], List.append_nil _, rfl⟩
  | answer h a => exact ⟨[.other (.answer h a)], List.append_nil _, rfl⟩
  | finish h => exact ⟨[.other (.finish h)], List.append_nil _, rfl⟩

/-- Every run is one in which all calls pass their gates, and the same is seen of it. -/
lemma exists_moves_run (s : State) (es : List Event) :
    ∃ ms, Gated.sights keep ⟨s, fun _ => 0⟩ ms = s.sights keep es ∧
      Gated.run keep ⟨s, fun _ => 0⟩ ms = ⟨s.run keep es, fun _ => 0⟩ := by
  induction es generalizing s with
  | nil => exact ⟨[], rfl, rfl⟩
  | cons e es ih =>
    obtain ⟨ms, seen, hm⟩ := exists_moves_step keep s e
    obtain ⟨ns, seen', hn⟩ := ih (s.step keep e)
    refine ⟨ms ++ ns, ?_, by rw [Gated.run_append, hm, hn]; rfl⟩
    rw [Gated.sights_append, hm, seen, seen']
    rfl

end State

/-! ### Histories -/

/-- A point in the history of an entry's loads. -/
inductive Mark where
  | began (t : Instant)
  /-- what a load came to has been noted: a manifest was found, or none -/
  | ended (t : Instant) (found : Bool)
  deriving DecidableEq

/-- How long a result holds. -/
def Retention.seconds (keep : Retention) (found : Bool) : Nat := if found then keep.success else keep.failure

/-- What may come next in a history: a load that began ends, and after its end the next one begins
when the retention of its result is over. -/
def Spaced (keep : Retention) : Mark → Mark → Prop
  | .began _, .ended _ _ => True
  | .ended t found, .began u => t.after (keep.seconds found) < u
  | _, _ => False

namespace State

/-- The mark that the history of an entry gets between two states: one of a load that is under way
in the second state only, or one of a load that is not any more. -/
def mark? (h : Nat) (s s' : State) : Option Mark :=
  match s.stage h, s'.stage h with
  | none, some _ => some (.began s.cache.now)
  | some _, none => some (.ended s.cache.now ((s'.cache.entry? h).any (·.available)))
  | _, _ => none

/-- The history of an entry's loads along a run. -/
def marks (keep : Retention) (h : Nat) (s : State) (es : List Event) : List Mark :=
  collect (step keep) (fun s e => (s.mark? h (s.step keep e)).toList) s es

end State

/-- The history of an entry's loads along some moves. -/
def Gated.history (keep : Retention) (h : Nat) (g : Gated) (ms : List Move) : List Mark :=
  g.state.marks keep h (g.events keep ms)

namespace State

variable (keep : Retention) {s : State} {h : Nat}

/-- Nothing happens to the loads of an entry between two states: one is under way in both or in
neither, and what is known of the entry holds as long. -/
def Rests (h : Nat) (s s' : State) : Prop :=
  (s'.stage h = none ↔ s.stage h = none) ∧
    ∀ d, s.cache.entry? h = some d → ∃ d', s'.cache.entry? h = some d' ∧ d'.expires = d.expires

lemma marks_concat (s : State) (es : List Event) (e : Event) :
    s.marks keep h (es ++ [e]) =
      s.marks keep h es ++ ((s.run keep es).mark? h ((s.run keep es).step keep e)).toList :=
  collect_concat _ s es e

/-- A load that begins was not under way, and is now. -/
lemma stage_of_began {t : Instant} (hm : s.mark? h s' = some (.began t)) : s.stage h = none ∧ s'.stage h ≠ none := by
  unfold mark? at hm
  split at hm
  · rename_i before after
    exact ⟨before, by simp [after]⟩
  · cases hm
  · cases hm

/-- A load that ends was under way, and is not any more. -/
lemma stage_of_ended {t : Instant} {found : Bool} (hm : s.mark? h s' = some (.ended t found)) :
    s.stage h ≠ none ∧ s'.stage h = none := by
  unfold mark? at hm
  split at hm
  · cases hm
  · rename_i u before after
    exact ⟨by simp [before], after⟩
  · cases hm

/-- A load of an entry that is due begins between two states. -/
def Begins (h : Nat) (s s' : State) : Prop :=
  s.stage h = none ∧ s'.stage h ≠ none ∧
    ∃ d, s.cache.entry? h = some d ∧ d.expires.all (· < s.cache.now) = true

lemma Rests.refl (h : Nat) (s : State) : Rests h s s := ⟨Iff.rfl, fun d hd => ⟨d, hd, rfl⟩⟩

lemma rests_put {k : Nat} {t : Stage} (hk : h = k → s.stage k ≠ none) : Rests h s (s.put k (some t)) := by
  refine ⟨?_, fun d hd => ⟨d, hd, rfl⟩⟩
  rw [stage_put]
  split
  · rename_i hkh
    subst hkh
    simp [hk rfl]
  · rfl

lemma rests_act (h : Nat) (s : State) (a : Action) : Rests h s { s with cache := a.apply s.cache } := by
  refine ⟨Iff.rfl, fun d hd => ?_⟩
  obtain ⟨d', hd', hw⟩ := Action.exists_worn hd a
  exact ⟨d', hd', hw.expires⟩

lemma rests_note {k : Nat} (hk : h ≠ k) (f : Finding) : Rests h s (s.note keep k f) := by
  refine ⟨by rw [stage_note, if_neg hk], fun d hd => ⟨d, ?_, rfl⟩⟩
  rw [cache_note, Cache.entry?_conclude_of_ne _ _ _ _ hk, hd]

/-- What an event is for the loads of one entry. -/
lemma step_at (s : State) (h : Nat) (e : Event) :
    Rests h s (s.step keep e) ∨ (e = .start h ∧ Begins h s (s.step keep e)) ∨
      s.stage h ≠ none ∧ ∃ f, s.step keep e = s.note keep h f := by
  have noted (k : Nat) (f : Finding) (hk : s.stage k ≠ none) :
      Rests h s (s.note keep k f) ∨ s.stage h ≠ none ∧ ∃ g, s.note keep k f = s.note keep h g := by
    by_cases hkh : h = k
    · subst hkh
      exact Or.inr ⟨hk, f, rfl⟩
    · exact Or.inl (rests_note keep hkh f)
  have taken := s.takes_step keep e
  generalize s.step keep e = s' at taken ⊢
  cases taken with
  | act a => exact Or.inl (rests_act h s a)
  | @start k load free plan =>
    by_cases hkh : h = k
    · subst hkh
      obtain ⟨d, hd, hn⟩ := Cache.needsResolution_of_plan? plan
      simp only [Entry.needsResolution, Bool.and_eq_true] at hn
      exact Or.inr (Or.inl ⟨rfl, free, by simp [stage_put], d, hd, hn.2⟩)
    · exact Or.inl (rests_put fun same => absurd same hkh)
  | miss reading => exact Or.inl (rests_put fun _ => by simp [reading])
  | @answer k load a loading =>
    have under : s.stage k ≠ none := by simp [loading]
    rcases s.judge_cases keep k (s.cache.finding k load a) with ⟨-, judged⟩ | ⟨-, judged⟩ <;> rw [judged]
    · exact Or.inl (rests_put fun _ => under)
    · exact (noted k _ under).imp_right Or.inr
  | finish writing => exact (noted _ _ (by simp [writing])).imp_right Or.inr
  | nothing => exact Or.inl (Rests.refl h s)

/-- The last mark of an entry's history tells how its resolving stands, and how long its result
holds. -/
def Shows (s : State) (h : Nat) : Option Mark → Prop
  | none => s.stage h = none
  | some (.began _) => s.stage h ≠ none
  | some (.ended t found) =>
    s.stage h = none ∧ ∃ e, s.cache.entry? h = some e ∧ e.expires = some (t.after (keep.seconds found))

lemma shows_note (hs : s.Sound) (hst : s.stage h ≠ none) (f : Finding) :
    ∃ found, s.mark? h (s.note keep h f) = some (.ended s.cache.now found) ∧
      (s.note keep h f).Shows keep h (some (.ended s.cache.now found)) := by
  obtain ⟨t, ht⟩ := Option.ne_none_iff_exists'.mp hst
  obtain ⟨e, he, -⟩ := hs.waiting h t ht
  have after : Cache.entry? (s.note keep h f).cache h = some (s.cache.concluded keep e f) :=
    Cache.entry?_conclude keep he f
  have free : (s.note keep h f).stage h = none := by rw [stage_note, if_pos rfl]
  refine ⟨(s.cache.concluded keep e f).available, ?_, free, _, after, ?_⟩
  · simp only [mark?, ht, free, after, Option.any_some]
  · cases f <;> rfl

/-- An event leaves the last mark of a history right, or adds one that may follow it. -/
lemma mark?_step (hs : s.Sound) {last : Option Mark} (hl : s.Shows keep h last) (e : Event) :
    (s.mark? h (s.step keep e) = none ∧ (s.step keep e).Shows keep h last) ∨
      ∃ m, s.mark? h (s.step keep e) = some m ∧ (∀ l ∈ last, Spaced keep l m) ∧
        (s.step keep e).Shows keep h (some m) := by
  rcases s.step_at keep h e with ⟨hst, hx⟩ | ⟨-, hst, hst', d, hd, hx⟩ | ⟨hst, f, hf⟩
  · left
    constructor
    · unfold mark?
      cases h₁ : s.stage h <;> cases h₂ : (s.step keep e).stage h <;> simp_all
    · cases last with
      | none => exact hst.mpr hl
      | some m =>
        cases m with
        | began t => exact fun h => hl (hst.mp h)
        | ended t found =>
          obtain ⟨free, d, hd, ht⟩ := hl
          obtain ⟨d', hd', hx'⟩ := hx d hd
          exact ⟨hst.mpr free, d', hd', hx'.trans ht⟩
  · right
    obtain ⟨t, ht⟩ := Option.ne_none_iff_exists'.mp hst'
    refine ⟨.began s.cache.now, by simp [mark?, hst, ht], ?_, hst'⟩
    intro l hl'
    cases hl'
    cases l with
    | began t => exact absurd hst hl
    | ended t found =>
      obtain ⟨-, d', hd', ht'⟩ := hl
      rw [hd] at hd'
      cases hd'
      rw [ht'] at hx
      simpa [Spaced] using hx
  · right
    rw [hf]
    obtain ⟨found, hm, hshow⟩ := shows_note keep hs hst f
    refine ⟨_, hm, ?_, hshow⟩
    intro l hl'
    cases hl'
    cases l with
    | began t => trivial
    | ended t found => exact absurd hl.1 hst

/-- Along a run the last mark stays right, a load of an entry ends before the next one begins, and that
is when the retention of its result is over. -/
lemma isChain_marks (hs : s.Sound) (hr : s.stage h = none) (es : List Event) :
    List.IsChain (Spaced keep) (s.marks keep h es) ∧ (s.run keep es).Shows keep h (s.marks keep h es).getLast? := by
  induction es using List.reverseRecOn with
  | nil => exact ⟨List.isChain_nil, hr⟩
  | append_singleton es e ih =>
    obtain ⟨chain, shows⟩ := ih
    have sound : (s.run keep es).Sound := run_induction (fun _ ev h => h.step ev) hs es
    rw [marks_concat, run_concat]
    rcases mark?_step keep sound shows e with ⟨none, shows'⟩ | ⟨m, some, spaced, shows'⟩
    · rw [none, Option.toList_none, List.append_nil]
      exact ⟨chain, shows'⟩
    · rw [some, Option.toList_some, List.getLast?_concat]
      refine ⟨chain.append (List.isChain_singleton m) fun l hl x hx => ?_, shows'⟩
      cases hx
      exact spaced l hl

end State

end Resolution

end CiWorkflow
