import CiWorkflow.Proofs.Resolution.Identity
import CiWorkflow.Proofs.Resolution.Outcome

/-!
# The life of an entry

An entry is changed by resolvings and by callers, who may give it up or label it at any time, also
while its text is on the way. What has happened to it so far is its life: what its attempts were
answered, whether it was given up, and which labels it got. What is known of an entry is told by its
life alone (`Entry.Follows`), and no order of events tears apart what one attempt has brought.
-/

namespace CiWorkflow.Resolution

/-- What has happened to an entry. -/
structure Life where
  /-- the answer to the latest load -/
  answer : Option (Except Failure String) := none
  /-- the answer of the last attempt that has finished -/
  last : Option (Except Failure String) := none
  /-- whether the entry was deleted, or given up for a new one -/
  givenUp : Bool := false
  /-- the labels it was given, latest first -/
  labels : List String := []

namespace Action

/-- Whether an action gives an entry up: it deletes it, or looks its text up after its expiry. -/
def givesUp (c : Cache) (h : Nat) : Action → Bool
  | getOrCreate raw => c.get? raw == some h && (c.entry? h).any (·.isExpired c.now)
  | delete k => k == h && (c.entry? h).isSome
  | _ => false

/-- The label that an action gives to an entry. -/
def label? (c : Cache) (h : Nat) : Action → Option String
  | tag k label => if k = h ∧ (c.entry? h).isSome then some label else none
  | _ => none

end Action

namespace State

variable (s : State) (h : Nat)

/-- The answer that an event brings to the load of an entry. -/
def heard? : Event → Option (Except Failure String)
  | .answer k a =>
    match s.stage k with
    | some (.loading load) => if k = h ∧ load.isAnswer a then some a else none
    | _ => none
  | _ => none

end State

namespace Life

/-- A life after one more event. -/
def next (l : Life) (s : State) (h : Nat) (ev : Event) : Life :=
  let answer := (s.heard? h ev).or l.answer
  { answer
    last := if (s.noted? ev).any (·.1 == h) then answer else l.last
    givenUp := l.givenUp || match ev with
      | .act a => a.givesUp s.cache h
      | _ => false
    labels := (match ev with
      | .act a => (a.label? s.cache h).toList
      | _ => []) ++ l.labels }

/-- The life of an entry along a run. -/
def along (keep : Retention) (h : Nat) : State → Life → List Event → Life
  | _, l, [] => l
  | s, l, ev :: es => along keep h (s.step keep ev) (l.next s h ev) es

/-- What resolvings of other entries bring makes no difference. -/
lemma next_eq {l : Life} {s : State} {h : Nat} {ev : Event} (act : ∀ a, ev ≠ .act a)
    (heard : s.heard? h ev = none) (noted : ∀ k f, s.noted? ev = some (k, f) → k ≠ h) : l.next s h ev = l := by
  have others : (s.noted? ev).any (·.1 == h) = false := by
    cases hn : s.noted? ev with
    | none => rfl
    | some x => simpa using noted x.1 x.2 hn
  cases ev with
  | act a => exact absurd rfl (act a)
  | _ => simp [next, heard, others]

/-- The manifest that the last attempt found: none where it failed, or where none has finished. -/
def found? (l : Life) (r : Reference) : Option Outline := l.last.bind (manifestIn? r)

end Life

/-- The interface that a manifest declares, which is empty where there is none. -/
def interfaceOf (r : Reference) : Option Outline → Interface
  | none => {}
  | some o => Interface.ofDocument o.document r

lemma Entry.interface_told (e : Entry) (keep : Retention) (now : Time.Instant) (m : Option Outline) :
    (e.told keep now m).interface = interfaceOf e.reference m := by
  cases m <;> rfl

namespace Entry

/-- An entry is as its life has made it. -/
structure Follows (e : Entry) (l : Life) : Prop where
  tried : e.expires = none ↔ l.last = none
  resolvable : l.last ≠ none → e.reference.isResolvable = true
  interface : e.interface = interfaceOf e.reference (l.found? e.reference)
  available : e.available = true → l.found? e.reference ≠ none
  lost : e.available = false → l.found? e.reference ≠ none → l.givenUp = true
  tags : ∀ label, label ∈ e.tags ↔ label ∈ l.labels

variable {e : Entry} {l : Life}

lemma follows_fresh (raw : String) : (fresh raw).Follows {} := by
  refine ⟨by simp [fresh], fun h => absurd rfl h, rfl, ?_, fun _ h => absurd rfl h, by simp [fresh]⟩
  intro h
  cases h

/-- Once an attempt has finished, its answer decides all but the labels. -/
lemma Follows.told (hf : e.Follows l) (hr : e.reference.isResolvable = true) (keep : Retention)
    (now : Time.Instant) (a : Except Failure String) {l' : Life} (last : l'.last = some a)
    (labels : l'.labels = l.labels) : (e.told keep now (manifestIn? e.reference a)).Follows l' := by
  have found (r : Reference) : l'.found? r = manifestIn? r a := by rw [Life.found?, last]; rfl
  refine ⟨?_, fun _ => by rwa [reference_told], ?_, ?_, ?_, ?_⟩
  · rw [last]
    cases manifestIn? e.reference a <;> simp [Entry.told, failed, resolved]
  · rw [interface_told, reference_told, found]
  · rw [reference_told, found]
    cases manifestIn? e.reference a with
    | none => intro h; cases h
    | some o => intro _; exact Option.some_ne_none o
  · rw [reference_told, found]
    cases manifestIn? e.reference a with
    | none => intro _ h; exact absurd rfl h
    | some o => intro h; cases h
  · intro label
    rw [labels, ← hf.tags]
    cases manifestIn? e.reference a <;> rfl

/-- Nothing but labels and the loss of an entry can come between two attempts. -/
lemma Follows.mono (hf : e.Follows l) {l' : Life} (last : l'.last = l.last)
    (givenUp : l.givenUp = true → l'.givenUp = true) (labels : l'.labels = l.labels) : e.Follows l' := by
  have found : l'.found? e.reference = l.found? e.reference := by rw [Life.found?, last]; rfl
  refine ⟨by rw [last]; exact hf.tried, by rw [last]; exact hf.resolvable, by rw [found]; exact hf.interface,
    by rw [found]; exact hf.available, ?_, by rw [labels]; exact hf.tags⟩
  rw [found]
  exact fun ha hm => givenUp (hf.lost ha hm)

end Entry

/-! ### What callers do to an entry -/

namespace Action

/-- What an action makes of an entry. -/
def effect (c : Cache) (h : Nat) (a : Action) (e : Entry) : Entry :=
  if a.givesUp c h then e.invalidated else ((a.label? c h).map e.tagged).getD e

variable {c : Cache} {h : Nat} {e : Entry}

lemma entry?_apply (he : c.entry? h = some e) (a : Action) :
    Cache.entry? (a.apply c) h = some (a.effect c h e) := by
  cases a with
  | getOrCreate raw =>
    simp only [apply, effect, givesUp, label?, he, Option.any_some]
    rcases c.getOrCreate_cases raw with ⟨k, hs, live, hk⟩ | ⟨hs, hk⟩ | ⟨k, hs, gone, hk⟩ <;> rw [hk]
    · by_cases hkh : k = h
      · subst hkh
        simp [he, live e he]
      · simp [he, hs, hkh]
    · rw [Cache.entry?_create_of_some raw he]
      simp [hs]
    · by_cases hkh : k = h
      · subst hkh
        have left : Cache.entry? (c.detach k) k = some e.invalidated := by
          rw [Cache.entry?_detach, if_pos rfl, he]
          rfl
        rw [Cache.entry?_create_of_some raw left]
        simp [hs, gone e he]
      · have left : Cache.entry? (c.detach k) h = some e := by
          rw [Cache.entry?_detach_of_ne c k (Ne.symm hkh), he]
        rw [Cache.entry?_create_of_some raw left]
        simp [hs, hkh]
  | delete k =>
    simp only [apply, effect, givesUp, label?, he, Option.isSome_some, Bool.and_true]
    have detached : Cache.entry? (c.detach k) h = some (if (k == h) = true then e.invalidated else e) := by
      rw [Cache.entry?_detach]
      by_cases hkh : k = h <;> simp [hkh, he]
    cases hd : c.entry? k with
    | none =>
      have hkh : k ≠ h := by
        rintro rfl
        rw [he] at hd
        cases hd
      rw [Cache.delete_of_entry?_eq_none hd, he]
      simp [hkh]
    | some d =>
      rcases c.delete_cases hd with ⟨-, hk⟩ | ⟨-, hk⟩ | ⟨-, hk⟩ <;> rw [hk]
      · exact detached
      · exact detached
      · rw [Cache.entry?_modifyEntry, ← Cache.entry?_detach]
        exact detached
  | tag k label =>
    simp only [apply, effect, givesUp, label?, he, Cache.entry?_modifyEntry]
    by_cases hkh : k = h <;> simp [hkh]
  | clear => exact he
  | purge =>
    simp only [apply, Cache.purge]
    split <;> exact he
  | advance ms => exact he

lemma mem_tags_effect (c : Cache) (h : Nat) (a : Action) (e : Entry) (label : String) :
    label ∈ (a.effect c h e).tags ↔ label ∈ (a.label? c h).toList ∨ label ∈ e.tags := by
  unfold effect
  cases hl : a.label? c h with
  | none => split <;> simp [Entry.invalidated]
  | some t =>
    have kept : a.givesUp c h = false := by
      cases a <;> first | rfl | cases hl
    simp [kept, Entry.tagged, Text.mem_insertSorted]

/-- What an action leaves of an entry follows a life in which it is noted. -/
lemma follows_effect {l l' : Life} (hf : e.Follows l) (a : Action) (last : l'.last = l.last)
    (givenUp : l'.givenUp = (l.givenUp || a.givesUp c h))
    (labels : l'.labels = (a.label? c h).toList ++ l.labels) : (a.effect c h e).Follows l' := by
  have found (r : Reference) : l'.found? r = l.found? r := by rw [Life.found?, last]; rfl
  have tags (label : String) : label ∈ (a.effect c h e).tags ↔ label ∈ l'.labels := by
    rw [mem_tags_effect, labels, List.mem_append, hf.tags]
  by_cases hg : a.givesUp c h = true
  · have left : a.effect c h e = e.invalidated := by simp [effect, hg]
    rw [left] at tags ⊢
    refine ⟨by rw [last]; exact hf.tried, by rw [last]; exact hf.resolvable, ?_, ?_, fun _ _ => ?_, tags⟩
    · rw [Entry.reference_invalidated, found]
      exact hf.interface
    · intro ha
      cases ha
    · simp [givenUp, hg]
  · have same : (a.effect c h e).reference = e.reference ∧ (a.effect c h e).interface = e.interface ∧
        (a.effect c h e).available = e.available ∧ (a.effect c h e).expires = e.expires := by
      simp only [effect, hg]
      cases a.label? c h <;> simp [Entry.tagged]
    obtain ⟨reference, interface, available, expires⟩ := same
    refine ⟨by rw [expires, last]; exact hf.tried, by rw [last, reference]; exact hf.resolvable, ?_, ?_, ?_, tags⟩
    · rw [interface, reference, found]
      exact hf.interface
    · rw [available, reference, found]
      exact hf.available
    · rw [available, reference, found]
      intro ha hm
      simp [givenUp, hf.lost ha hm]

end Action

/-! ### Along a run -/

namespace State

/-- Noting a finding tells its entry what was found. -/
lemma entry?_note (keep : Retention) {s : State} {h : Nat} {e : Entry} (he : s.cache.entry? h = some e) {f : Finding}
    {m : Option Outline} (hf : f.outline? = m) :
    (s.note keep h f).cache.entry? h = some (e.told keep s.cache.now m) := by
  rw [cache_note, Cache.entry?_conclude keep he, Cache.concluded_eq_told, hf]

/-- A life is that of an entry: the entry, if it was made, follows it, and what is written for it is
the manifest in the latest answer. -/
structure Tells (s : State) (h : Nat) (l : Life) : Prop where
  follows : ∀ e, s.cache.entry? h = some e → e.Follows l
  unmade : s.cache.entry? h = none → l = {}
  writing : ∀ e f, s.cache.entry? h = some e → s.stage h = some (.writing f) →
    ∃ a, l.answer = some a ∧ f.outline? = manifestIn? e.reference a

namespace Tells

variable {keep : Retention} {s : State} {h : Nat} {l : Life}

lemma initial (now : Time.Instant) (store : Option ContentStore) (h : Nat) : (State.initial now store).Tells h {} := by
  refine ⟨fun e he => ?_, fun _ => rfl, fun e f he => ?_⟩ <;> simp [State.initial, idle, Cache.entry?] at he

lemma act (hs : s.Sound) (ht : s.Tells h l) (a : Action) :
    State.Tells { s with cache := a.apply s.cache } h (l.next s h (.act a)) := by
  have answer : (l.next s h (.act a)).answer = l.answer := rfl
  have labels : (l.next s h (.act a)).labels = (a.label? s.cache h).toList ++ l.labels := rfl
  cases he : s.cache.entry? h with
  | some e =>
    have there := Action.entry?_apply he a
    refine ⟨fun d hd => ?_, fun hn => ?_, fun d f hd hst => ?_⟩
    · rw [there] at hd
      cases hd
      exact Action.follows_effect (ht.follows e he) a rfl rfl labels
    · rw [there] at hn
      cases hn
    · obtain ⟨d', hd', hw⟩ := Action.exists_worn he a
      rw [hd] at hd'
      cases hd'
      rw [answer, hw.reference]
      exact ht.writing e f he hst
  | none =>
    -- nothing is noted of an entry that is not there
    have still : l.next s h (.act a) = {} := by
      rw [ht.unmade he]
      cases a <;> simp [Life.next, Action.givesUp, Action.label?, heard?, noted?, he]
    rw [still]
    refine ⟨fun e he' => ?_, fun _ => rfl, fun e f _ hst => ?_⟩
    · obtain ⟨raw, -, rfl⟩ := Action.fresh_of_new he he'
      exact Entry.follows_fresh raw
    · obtain ⟨d, hd, -⟩ := hs.waiting h _ hst
      rw [he] at hd
      cases hd

/-- Loads come and go without a trace. -/
lemma put (ht : s.Tells h l) {k : Nat} {t : Stage} (hw : ∀ e f, k = h → s.cache.entry? h = some e → t = .writing f →
      ∃ a, l.answer = some a ∧ f.outline? = manifestIn? e.reference a) :
    (s.put k (some t)).Tells h l := by
  refine ⟨ht.follows, ht.unmade, fun e f he hst => ?_⟩
  rw [stage_put] at hst
  split at hst
  · rename_i hk
    exact hw e f hk.symm he (Option.some.inj hst)
  · exact ht.writing e f he hst

/-- A new answer is heard before anything is made of it. -/
lemma hear (ht : s.Tells h l) {t : Stage} (hst : s.stage h = some t) (ht' : ∀ f, t ≠ .writing f)
    (hs : s.Sound) (a : Except Failure String) : s.Tells h { l with answer := some a } := by
  refine ⟨fun e he => (ht.follows e he).mono rfl id rfl, fun hn => ?_, fun e f _ hf => ?_⟩
  · obtain ⟨d, hd, -⟩ := hs.waiting h t hst
    rw [hn] at hd
    cases hd
  · rw [hst] at hf
    exact absurd (Option.some.inj hf) (ht' f)

lemma note_of_ne (ht : s.Tells h l) {k : Nat} (hk : h ≠ k) (f : Finding) : (s.note keep k f).Tells h l := by
  have same : (s.note keep k f).cache.entry? h = s.cache.entry? h := Cache.entry?_conclude_of_ne _ _ _ _ hk
  refine ⟨fun e he => ht.follows e (same ▸ he), fun hn => ht.unmade (same ▸ hn), fun e g he hst => ?_⟩
  rw [stage_note, if_neg hk] at hst
  exact ht.writing e g (same ▸ he) hst

/-- What is noted of an entry is the manifest in the latest answer. -/
lemma note (hs : s.Sound) (ht : s.Tells h l) {t : Stage} (hst : s.stage h = some t) {f : Finding}
    {a : Except Failure String} (ha : l.answer = some a)
    (hf : ∀ e, s.cache.entry? h = some e → f.outline? = manifestIn? e.reference a) :
    (s.note keep h f).Tells h { l with last := l.answer } := by
  obtain ⟨e, he, -, hr⟩ := hs.waiting h t hst
  have noted := entry?_note keep he (hf e he)
  refine ⟨fun d hd => ?_, fun hn => ?_, fun d g _ hg => ?_⟩
  · rw [noted] at hd
    cases hd
    exact (ht.follows e he).told hr keep _ a ha rfl
  · rw [noted] at hn
    cases hn
  · rw [stage_note, if_pos rfl] at hg
    cases hg

/-- An answer is noted at once, or when its text has been written. -/
lemma answer (hs : s.Sound) (ht : s.Tells h l) (k : Nat) (a : Except Failure String) :
    (s.step keep (.answer k a)).Tells h (l.next s h (.answer k a)) := by
  by_cases hl : ∃ load, s.stage k = some (.loading load) ∧ load.isAnswer a = true
  · obtain ⟨load, hst, ha⟩ := hl
    by_cases hk : h = k
    · subst hk
      have heard := ht.hear hst (fun f hf => by cases hf) hs a
      have manifest (e : Entry) (he : s.cache.entry? h = some e) :
          (s.cache.finding h load a).outline? = manifestIn? e.reference a :=
        Cache.outline?_finding he load a
      by_cases hw : (s.cache.finding h load a).isWriting = true
      · have life : l.next s h (.answer h a) = { l with answer := some a } := by
          simp [Life.next, heard?, noted?, hst, ha, hw]
        have written : s.step keep (.answer h a) = s.put h (some (.writing (s.cache.finding h load a))) := by
          simp [step, hst, ha, judge, hw]
        rw [life, written]
        refine heard.put fun e f _ he hf => ⟨a, rfl, ?_⟩
        cases hf
        exact manifest e he
      · have life : l.next s h (.answer h a) = { l with answer := some a, last := some a } := by
          simp [Life.next, heard?, noted?, hst, ha, hw]
        have noted : s.step keep (.answer h a) = s.note keep h (s.cache.finding h load a) := by
          simp [step, hst, ha, judge, hw]
        rw [life, noted]
        exact Tells.note hs heard hst rfl manifest
    · have life : l.next s h (.answer k a) = l := by
        refine Life.next_eq (fun b hb => by cases hb) (by simp [heard?, hst, Ne.symm hk]) fun j f hn => ?_
        simp only [noted?, hst] at hn
        split at hn <;> cases hn
        exact Ne.symm hk
      rw [life]
      simp only [step, hst, ha, if_true, judge]
      split
      · exact ht.put fun e f hkh => absurd hkh.symm hk
      · exact ht.note_of_ne hk _
  · -- an answer that nobody waits for
    have quiet : s.step keep (.answer k a) = s ∧ l.next s h (.answer k a) = l := by
      cases hst : s.stage k with
      | none => exact ⟨by simp [step, hst], by simp [Life.next, heard?, noted?, hst]⟩
      | some t =>
        cases t with
        | writing f => exact ⟨by simp [step, hst], by simp [Life.next, heard?, noted?, hst]⟩
        | loading load =>
          have ha : load.isAnswer a = false := by simpa using fun ha => hl ⟨load, hst, ha⟩
          exact ⟨by simp [step, hst, ha], by simp [Life.next, heard?, noted?, hst, ha]⟩
    rw [quiet.1, quiet.2]
    exact ht

/-- A text has been written, and what was found in it is noted. -/
lemma finish (hs : s.Sound) (ht : s.Tells h l) (k : Nat) :
    (s.step keep (.finish k)).Tells h (l.next s h (.finish k)) := by
  by_cases hw : ∃ f, s.stage k = some (.writing f)
  · obtain ⟨f, hst⟩ := hw
    have noted : s.step keep (.finish k) = s.note keep k f := by simp [step, hst]
    rw [noted]
    by_cases hk : h = k
    · subst hk
      have life : l.next s h (.finish h) = { l with last := l.answer } := by
        simp [Life.next, heard?, noted?, hst]
      obtain ⟨e, he, -⟩ := hs.waiting h _ hst
      obtain ⟨a, ha, -⟩ := ht.writing e f he hst
      rw [life]
      refine Tells.note hs ht hst ha fun d hd => ?_
      obtain ⟨b, hb, hf⟩ := ht.writing d f hd hst
      rw [ha] at hb
      cases hb
      exact hf
    · have life : l.next s h (.finish k) = l := by
        refine Life.next_eq (fun b hb => by cases hb) rfl fun j g hn => ?_
        simp only [noted?, hst] at hn
        cases hn
        exact Ne.symm hk
      rw [life]
      exact ht.note_of_ne hk f
  · have quiet : s.step keep (.finish k) = s ∧ s.noted? (.finish k) = none := by
      cases hst : s.stage k with
      | none => simp [step, noted?, hst]
      | some t =>
        cases t with
        | loading load => simp [step, noted?, hst]
        | writing f => exact absurd ⟨f, hst⟩ hw
    have life : l.next s h (.finish k) = l :=
      Life.next_eq (fun b hb => by cases hb) rfl fun j f hn => by rw [quiet.2] at hn; cases hn
    rw [life, quiet.1]
    exact ht

lemma step (hs : s.Sound) (ht : s.Tells h l) (ev : Event) : (s.step keep ev).Tells h (l.next s h ev) := by
  have loading {k : Nat} {load : Load} : (s.put k (some (.loading load))).Tells h l :=
    ht.put fun e f _ _ hf => by cases hf
  cases ev with
  | act a => exact ht.act hs a
  | start k =>
    rw [Life.next_eq (fun a ha => by cases ha) rfl fun j f hn => by cases hn]
    simp only [State.step]
    split
    · exact loading
    · exact ht
  | miss k =>
    rw [Life.next_eq (fun a ha => by cases ha) rfl fun j f hn => by cases hn]
    simp only [State.step]
    split
    · exact loading
    · exact ht
  | answer k a => exact ht.answer hs k a
  | finish k => exact ht.finish hs k

lemma run (hs : s.Sound) (ht : s.Tells h l) (es : List Event) :
    (s.run keep es).Tells h (Life.along keep h s l es) := by
  induction es generalizing s l with
  | nil => exact ht
  | cons ev es ih => exact ih (hs.step ev) (ht.step hs ev)

end Tells

end State

namespace Life

variable {keep : Retention} {h : Nat} {label : String}

lemma along_append (s : State) (l : Life) (es fs : List Event) :
    along keep h s l (es ++ fs) = along keep h (s.run keep es) (along keep h s l es) fs := by
  induction es generalizing s l with
  | nil => rfl
  | cons ev es ih => exact ih _ _

/-- A label stays in the life of its entry. -/
lemma mem_labels_along (s : State) (l : Life) (es : List Event) (hl : label ∈ l.labels) :
    label ∈ (along keep h s l es).labels := by
  induction es generalizing s l with
  | nil => exact hl
  | cons ev es ih => exact ih _ _ (List.mem_append_right _ hl)

end Life

/-- Every program is a run, and after every run each entry that was ever made is as its life tells: it
has no expiry only as long as no attempt has finished, and then it is empty and not available; it is
available only with an expiry and for a reference that can be resolved; it declares what the manifest
in the answer of its last finished attempt declares, and nothing where that attempt failed or there
was none; it is not available in spite of what it declares only when it was deleted, or given up for
a new one; where its reference cannot be resolved it never gets an expiry, never expires and is never
available; and it has the labels that it was given, and keeps them. -/
theorem entry_lifecycle (keep : Retention) (now : Time.Instant) (store : Option ContentStore) :
    (∀ ops, (State.initial now store).Yields keep (Op.sightsAll keep { now, store } ops)
        (State.idle (Op.runAll keep { now, store } ops))) ∧
      ∀ es h, let s := (State.initial now store).run keep es
        let l := Life.along keep h (State.initial now store) {} es
        ∀ e, s.cache.entry? h = some e →
          (e.expires = none → e.available = false ∧ e.interface = {}) ∧
          (e.available = true → e.expires.isSome = true ∧ e.reference.isResolvable = true) ∧
          e.interface = interfaceOf e.reference (l.last.bind (manifestIn? e.reference)) ∧
          (e.available = false → e.interface ≠ {} → l.givenUp = true) ∧
          (e.reference.isResolvable = false →
            e.expires = none ∧ e.available = false ∧ ∀ t, e.isExpired t = false) ∧
          ∀ label, (label ∈ e.tags ↔ label ∈ l.labels) ∧ (label ∈ e.tags →
            ∀ fs, ∃ e', (s.run keep fs).cache.entry? h = some e' ∧ label ∈ e'.tags) := by
  refine ⟨fun ops => State.yields_runAll _ ops, fun es h => ?_⟩
  intro s l e he
  have start : (State.initial now store).Tells h {} := State.Tells.initial now store h
  have sound : (State.initial now store).Sound := State.Sound.initial now store
  have told : s.Tells h l := start.run sound es
  obtain ⟨tried, resolvable, interface, available, lost, tags⟩ := told.follows e he
  have found_of_tried (hl : l.last = none) : l.found? e.reference = none := by rw [Life.found?, hl]; rfl
  have untried (hx : e.expires = none) : e.available = false ∧ e.interface = {} := by
    have none_found := found_of_tried (tried.mp hx)
    refine ⟨?_, by rw [interface, none_found]; rfl⟩
    by_contra ha
    exact available (Bool.not_eq_false _ ▸ ha) none_found
  have answered (ha : e.available = true) : l.last ≠ none := fun hl => available ha (found_of_tried hl)
  refine ⟨untried, fun ha => ⟨?_, resolvable (answered ha)⟩, interface, fun ha hi => lost ha fun hm => hi ?_,
    fun hr => ?_, fun label => ⟨tags label, fun hl fs => ?_⟩⟩
  · rw [Option.isSome_iff_ne_none]
    exact fun hx => answered ha (tried.mp hx)
  · rw [interface, hm]
    rfl
  · have never : e.expires = none := tried.mpr (by
      by_contra hl
      rw [resolvable hl] at hr
      cases hr)
    refine ⟨never, (untried never).1, fun t => ?_⟩
    rw [Entry.isExpired, never]
    rfl
  · have there : (s.run keep fs).cache.reference? h = some e.reference :=
      State.reference?_run (Cache.reference?_of_some he) fs
    obtain ⟨e', he', -⟩ := Cache.entry?_of_reference? there
    have later : ((State.initial now store).run keep (es ++ fs)).Tells h (Life.along keep h _ {} (es ++ fs)) :=
      start.run sound (es ++ fs)
    rw [Life.along_append, State.run_append] at later
    exact ⟨e', he', ((later.follows e' he').tags label).mpr (Life.mem_labels_along _ _ _ ((tags label).mp hl))⟩

end CiWorkflow.Resolution
