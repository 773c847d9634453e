import CiWorkflow.Proofs.Resolution.Asking
import CiWorkflow.Proofs.Resolution.Lifecycle
import CiWorkflow.Proofs.Resolution.Staleness
import CiWorkflow.Proofs.Resolution.Together
import CiWorkflow.Proofs.Resolution.Transparency

/-!
# What one attempt comes to

An attempt is made for an entry that is due, and it asks for at most one text: for the path as it is
written, or for the address in a repository where no fresh file has the text. Whatever the answer
is, the attempt ends, and then the entry is as the manifest in the answer says, or empty. Either way
it rests at the instant at which the attempt has ended.
-/

namespace CiWorkflow

/-! ### Expiries -/

namespace Time.Instant

/-- An instant lies between the earliest one and the latest one. -/
def InCalendar (t : Instant) : Prop := earliest ≤ t ∧ t ≤ latest

/-- Within the calendar, what lies behind the latest instant is cut off there, and that is so too
where a duration is too long to be added. -/
lemma after_eq_min {t : Instant} (ht : t.InCalendar) (seconds : Nat) :
    t.after seconds = ⟨min (t.nanos + seconds * nanosPerSecond) latest.nanos⟩ := by
  have early : earliest.nanos ≤ t.nanos := ht.1
  have span := latest_sub_earliest_le
  unfold after
  dsimp only
  split
  · rename_i h
    have le : t.nanos + seconds * nanosPerSecond ≤ latest.nanos := h.2
    rw [Int.min_eq_left le]
  · rename_i cut
    have late : latest.nanos ≤ t.nanos + seconds * nanosPerSecond := by
      by_cases long : seconds ≤ longestSeconds
      · exact Int.le_of_lt (Int.not_le.mp fun le => cut ⟨long, le⟩)
      · unfold nanosPerSecond at span ⊢
        omega
    rw [Int.min_eq_right late]

end Time.Instant

/-! ### What is asked for -/

namespace Reference

/-- What there is to ask for: a path in the project as it is written, without the blanks around it,
and for what lies in a repository its address. -/
def AsksFor (r : Reference) (q : Resolution.Request) : Prop :=
  r.isLocal = true ∧ q = ⟨.project, String.ofList r.text⟩ ∨
    r.isLocal = false ∧ q.origin = .repository ∧ r.rawUrl? = some q.location

lemma asksFor_of_requestFor? {raw : String} {q : Resolution.Request}
    (hq : Resolution.requestFor? (ofText raw) = some q) : (ofText raw).AsksFor q := by
  have origin := Resolution.origin_of_requestFor? hq
  unfold Resolution.requestFor? at hq
  cases hl : (ofText raw).isLocal with
  | true =>
    have path : (ofText raw).target = .inProject (String.ofList (ofText raw).text) :=
      targetOf_of_local ((kind_ofText_iff raw).1.mp (isLocal_iff_kind.mp hl))
    left
    refine ⟨hl, ?_⟩
    simpa [location?, path, hl, eq_comm] using hq
  | false =>
    right
    rw [hl] at origin
    refine ⟨hl, origin, ?_⟩
    have address : (ofText raw).location? = (ofText raw).rawUrl? := by
      unfold isLocal at hl
      unfold location?
      cases ht : (ofText raw).target with
      | inProject p => simp [ht] at hl
      | action o p s f => rfl
      | workflow o p n f => rfl
      | unparsable => rfl
    rw [address] at hq
    obtain ⟨l, hl', rfl⟩ := Option.map_eq_some_iff.mp hq
    exact hl'

end Reference

namespace Resolution

open Time (Instant)
open CiWorkflow.Tree (Document)

/-! ### The outcome -/

/-- A text is a manifest with this document. -/
def IsManifest (text : String) (d : Document) : Prop :=
  Text.allBlank text.toList = false ∧ Document.ofManifest text = .ok d

/-- What an attempt that ends at an instant makes of an entry: it is available exactly if the answer
is a manifest, and what it declares and until when that holds is told by the answer. -/
structure Entry.Attempted (keep : Retention) (now : Instant) (answer : Except Failure String) (e e' : Entry) :
    Prop where
  reference : e'.reference = e.reference
  tags : e'.tags = e.tags
  available : e'.available = true ↔ ∃ text d, answer = .ok text ∧ IsManifest text d
  found : ∀ text d, answer = .ok text → IsManifest text d → e'.interface = Interface.ofDocument d e.reference ∧
    e'.expires = some ⟨min (now.nanos + keep.success * Instant.nanosPerSecond) Instant.latest.nanos⟩
  failed : e'.available = false → e'.interface = {} ∧
    e'.expires = some ⟨min (now.nanos + keep.failure * Instant.nanosPerSecond) Instant.latest.nanos⟩

lemma manifest?_eq_ok_iff {r : Reference} {text : String} {o : Outline} :
    manifest? r text = .ok o ↔ ∃ d, IsManifest text d ∧ Outline.ofDocument d = o := by
  unfold manifest? IsManifest
  cases hb : Text.allBlank text.toList <;> cases hd : Document.ofManifest text <;> simp

lemma manifestIn?_eq_some_iff {r : Reference} {a : Except Failure String} {o : Outline} :
    manifestIn? r a = some o ↔ ∃ text d, a = .ok text ∧ IsManifest text d ∧ Outline.ofDocument d = o := by
  constructor
  · intro hm
    obtain ⟨text, rfl, hok⟩ := State.exists_ok_of_manifestIn? hm
    obtain ⟨d, hd, ho⟩ := manifest?_eq_ok_iff.mp hok
    exact ⟨text, d, rfl, hd, ho⟩
  · rintro ⟨text, d, rfl, hd⟩
    rw [manifestIn?, manifest?_eq_ok_iff.mpr ⟨d, hd⟩]
    rfl

lemma Entry.attempted_told {now : Instant} (hn : now.InCalendar) (keep : Retention) (e : Entry)
    (a : Except Failure String) : e.Attempted keep now a (e.told keep now (manifestIn? e.reference a)) := by
  cases hm : manifestIn? e.reference a with
  | none =>
    have nothing (text : String) (d : Document) (ha : a = .ok text) (hd : IsManifest text d) : False := by
      have found : manifestIn? e.reference a = some (Outline.ofDocument d) :=
        manifestIn?_eq_some_iff.mpr ⟨text, d, ha, hd, rfl⟩
      rw [hm] at found
      cases found
    refine ⟨rfl, rfl, ?_, fun text d ha hd => (nothing text d ha hd).elim, fun _ => ⟨rfl, ?_⟩⟩
    · refine iff_of_false Bool.false_ne_true ?_
      rintro ⟨text, d, ha, hd⟩
      exact nothing text d ha hd
    · exact congrArg some (Instant.after_eq_min hn _)
  | some o =>
    obtain ⟨text, d, rfl, hd, rfl⟩ := manifestIn?_eq_some_iff.mp hm
    refine ⟨rfl, rfl, iff_of_true rfl ⟨text, d, rfl, hd⟩, fun text' d' ha hd' => ⟨?_, ?_⟩, fun h => ?_⟩
    · cases ha
      have same := hd.2.symm.trans hd'.2
      cases same
      rfl
    · exact congrArg some (Instant.after_eq_min hn _)
    · cases h

/-! ### The way to the answer -/

/-- The text for a reference stands in a file that is fresh. -/
def Cache.HasFresh (c : Cache) (keep : Retention) (r : Reference) (text : String) : Prop :=
  ∃ name written, ContentStore.fileName? r = some name ∧ c.file? name = some ⟨.text text, written⟩ ∧
    written.isYoungerThan c.now keep.success = true

/-- What is asked for a reference that is due, the cache as it is when the answer comes, and the
answer. -/
inductive Cache.Answers (c : Cache) (keep : Retention) (reply : Reply) (r : Reference) :
    List Request → Cache → Except Failure String → Prop where
  | kept {text : String} : c.HasFresh keep r text → Answers c keep reply r [] c (.ok text)
  | asked {q : Request} : (∀ text, ¬ c.HasFresh keep r text) → r.AsksFor q →
      Answers c keep reply r [q] (Action.applyAll c (reply q).1) (reply q).2

/-- Resolving an entry does nothing and asks for nothing, whatever the files are. -/
def Cache.AtRest (c : Cache) (keep : Retention) (h : Nat) : Prop :=
  ∀ files reply asked, let c' := { c with store := files }
    Recorded.run (resolve keep (Reply.recorded reply) h) (c', asked) = ((), c', asked)

section attempt

variable {keep : Retention} {reply : Reply} {c : Cache} {asked : List Request} {h : Nat} {e : Entry}

lemma entry?_settle {d : Entry} (hd : c.entry? h = some d) (load : Load) (a : Except Failure String) :
    Cache.entry? (c.settle keep h load a) h = some (d.told keep c.now (manifestIn? d.reference a)) := by
  rw [Cache.settle, Cache.entry?_conclude keep hd, Cache.concluded_eq_told, Cache.outline?_finding hd]

/-- An attempt for an entry that is due ends with the entry told what the answer comes to. -/
lemma attempt_of_due (reply : Reply) (asked : List Request) {raw : String} (he : c.entry? h = some e)
    (hr : e.reference = Reference.ofText raw) (hn : e.needsResolution c.now = true) :
    ∃ new mid answer after d, c.Answers keep reply e.reference new mid answer ∧
      Recorded.run (resolve keep reply.recorded h) (c, asked) = ((), after, asked ++ new) ∧ after.now = mid.now ∧
      mid.entry? h = some d ∧ e.Worn d ∧
      after.entry? h = some (d.told keep mid.now (manifestIn? d.reference answer)) := by
  rcases c.due_cases h with ⟨e', q, he', -, hq⟩ | idle
  · rw [he] at he'
    cases he'
    have asks : e.reference.AsksFor q := by
      rw [hr] at hq ⊢
      exact Reference.asksFor_of_requestFor? hq
    cases hf : c.freshText? keep e.reference with
    | some text =>
      have plan : c.plan? keep h = some (.kept text) := by rw [Cache.plan?_of_due he hn hq, hf]
      have answers : c.Answers keep reply e.reference [] c (.ok text) :=
        .kept (Cache.freshText?_eq_some_iff.mp hf)
      refine ⟨[], c, .ok text, _, e, answers, ?_, c.now_conclude keep h _, he, Entry.Worn.refl e,
        entry?_settle he (.kept text) _⟩
      rw [Recorded.run_resolve_of_kept plan, List.append_nil]
      rfl
    | none =>
      have plan : c.plan? keep h = some (.fetch q) := by rw [Cache.plan?_of_due he hn hq, hf]
      have unkept (text : String) : ¬ c.HasFresh keep e.reference text := by
        intro hfresh
        rw [Cache.freshText?_eq_some_iff.mpr hfresh] at hf
        cases hf
      obtain ⟨d, hd, worn⟩ := Action.exists_worn_applyAll he (reply q).1
      exact ⟨[q], Action.applyAll c (reply q).1, (reply q).2, _, d, .asked unkept asks,
        Recorded.run_resolve_of_fetch plan (reply.run_recorded _ q), Cache.now_conclude _ keep h _, hd, worn,
        entry?_settle hd (.fetch q) _⟩
  · rw [idle e he] at hn
    cases hn

/-- An entry that has just been told something is at rest. -/
lemma atRest_of_told {now : Instant} {m : Option Outline} (hn : now.InCalendar) (hc : c.now = now)
    (he : c.entry? h = some (e.told keep now m)) : c.AtRest keep h := by
  intro files reply asked c'
  refine Recorded.run_resolve_of_none (Cache.plan?_of_not_due fun d hd => ?_)
  have same : d = e.told keep now m := Option.some.inj (hd.symm.trans he)
  rw [same, show c'.now = now from hc]
  exact Entry.needsResolution_told hn.2 e keep m

end attempt

/-! ### Attempts in a run -/

namespace State

variable {s : State} {h : Nat} {l : Life}

/-- An event that ends an attempt tells the entry what the latest answer comes to. -/
lemma told_of_noted? (keep : Retention) (hs : s.Sound) (ht : s.Tells h l) {ev : Event} {f : Finding}
    (hn : s.noted? ev = some (h, f)) :
    ∃ e a, s.cache.entry? h = some e ∧ (l.next s h ev).last = some a ∧ s.step keep ev = s.note keep h f ∧
      f.outline? = manifestIn? e.reference a := by
  cases ev with
  | act a => cases hn
  | start k => cases hn
  | miss k => cases hn
  | answer k a =>
    cases hst : s.stage k with
    | none => simp [noted?, hst] at hn
    | some t =>
      cases t with
      | writing g => simp [noted?, hst] at hn
      | loading load =>
        have ended : load.isAnswer a = true ∧ (s.cache.finding k load a).isWriting = false := by
          by_contra hc
          simp [noted?, hst, hc] at hn
        simp only [noted?, hst, ended, Bool.not_false, Bool.and_self, if_true, Option.some.injEq, Prod.mk.injEq] at hn
        obtain ⟨rfl, rfl⟩ := hn
        obtain ⟨e, he, -⟩ := hs.waiting k _ hst
        refine ⟨e, a, he, ?_, ?_, Cache.outline?_finding he load a⟩
        · simp [Life.next, heard?, noted?, hst, ended]
        · simp [step, judge, hst, ended]
  | finish k =>
    cases hst : s.stage k with
    | none => simp [noted?, hst] at hn
    | some t =>
      cases t with
      | loading load => simp [noted?, hst] at hn
      | writing g =>
        simp only [noted?, hst, Option.some.injEq, Prod.mk.injEq] at hn
        obtain ⟨rfl, rfl⟩ := hn
        obtain ⟨e, he, -⟩ := hs.waiting k _ hst
        obtain ⟨a, ha, hf⟩ := ht.writing e g he hst
        refine ⟨e, a, he, ?_, ?_, hf⟩
        · simp [Life.next, heard?, noted?, hst, ha]
        · simp [step, hst]

end State

/-- Every program is a run, and after every run, whatever the files are by then: resolving an entry that
is not due does nothing and asks for nothing; for one that is due at most one text is asked for, none
where a fresh file has it; and whatever the answer is, the attempt ends with the entry as the answer
says, with the labels it had by then, and to resolve it again at that instant does nothing. So does
every attempt that ends while others are under way. -/
theorem attempt_outcome (keep : Retention) (now : Instant) (store : Option ContentStore) :
    (∀ ops, (State.initial now store).Yields keep (Op.sightsAll keep { now, store } ops)
        (State.idle (Op.runAll keep { now, store } ops))) ∧
      ∀ es, let s := (State.initial now store).run keep es
        (∀ h e, s.cache.entry? h = some e → ∀ files reply asked, let c := { s.cache with store := files }
          (e.needsResolution c.now = false ∨ e.reference.isResolvable = false →
            Recorded.run (resolve keep (Reply.recorded reply) h) (c, asked) = ((), c, asked)) ∧
          (e.needsResolution c.now = true → ∃ new mid answer after d d',
            Cache.Answers c keep reply e.reference new mid answer ∧
            Recorded.run (resolve keep (Reply.recorded reply) h) (c, asked) = ((), after, asked ++ new) ∧
            after.now = mid.now ∧ mid.entry? h = some d ∧ e.Worn d ∧ after.entry? h = some d' ∧
            (after.now.InCalendar → d.Attempted keep after.now answer d' ∧ after.AtRest keep h))) ∧
        ∀ h ev f, s.noted? ev = some (h, f) → let t := s.step keep ev
          ∃ e e' a, ((Life.along keep h (State.initial now store) {} es).next s h ev).last = some a ∧
            s.cache.entry? h = some e ∧ t.cache.entry? h = some e' ∧
            (s.cache.now.InCalendar → e.Attempted keep s.cache.now a e' ∧ t.cache.AtRest keep h) := by
  refine ⟨fun ops => State.yields_runAll _ ops, fun es => ?_⟩
  intro s
  have start : (State.initial now store).Sound := State.Sound.initial now store
  have sound : s.Sound := State.run_induction (fun _ ev hs => hs.step ev) start es
  refine ⟨fun h e he files reply asked => ?_, fun h ev f hn => ?_⟩
  · intro c
    have there : c.entry? h = some e := he
    refine ⟨fun rests => Recorded.run_resolve_of_none (Cache.plan?_of_not_due fun d hd => ?_),
      fun due => ?_⟩
    · rw [there] at hd
      cases hd
      rcases rests with rests | unresolvable
      · exact rests
      · simp [Entry.needsResolution, unresolvable]
    · obtain ⟨new, mid, answer, after, d, answers, ran, clock, hd, worn, told⟩ :=
        attempt_of_due reply asked there (sound.tidy.read h e he) due
      refine ⟨new, mid, answer, after, d, _, answers, ran, clock, hd, worn, told, fun cal => ⟨?_, ?_⟩⟩
      · rw [← clock]
        exact Entry.attempted_told cal keep d answer
      · exact atRest_of_told cal rfl (clock.symm ▸ told)
  · have tells : s.Tells h (Life.along keep h (State.initial now store) {} es) :=
      (State.Tells.initial now store h).run start es
    obtain ⟨e, a, he, last, noted, found⟩ := State.told_of_noted? keep sound tells hn
    have told := State.entry?_note keep he found
    rw [← noted] at told
    refine ⟨e, _, a, last, he, told, fun cal => ⟨Entry.attempted_told cal keep e a, atRest_of_told cal ?_ told⟩⟩
    rw [noted, State.cache_note, Cache.now_conclude]

/-- An action whose manifest is served is asked for once, at its address, and holds for a day. -/
theorem attempted_checkout :
    let c := Action.apply { now := ⟨0⟩ } (.getOrCreate "o/a@v1")
    ∃ after d, Recorded.run (resolve {} (Reply.recorded (Reply.always "inputs:")) 0) (c, []) =
        ((), after, [⟨.repository, "https://raw.githubusercontent.com/o/a/v1/action.yml"⟩]) ∧
      after.entry? 0 = some d ∧ d.available = true ∧ d.expires = some ⟨86400 * Instant.nanosPerSecond⟩ ∧
      after.AtRest {} 0 := by
  intro c
  obtain ⟨-, outcome⟩ := attempt_outcome {} ⟨0⟩ none
  have made : c.entry? 0 = some (Entry.fresh "o/a@v1") := by decide
  have due : (Entry.fresh "o/a@v1").needsResolution c.now = true := Cache.needsResolution_fresh (by decide) _
  obtain ⟨new, mid, answer, after, d, d', answers, ran, clock, -, -, told, ended⟩ :=
    ((outcome [.act (.getOrCreate "o/a@v1")]).1 0 _ made none (Reply.always "inputs:") []).2 due
  cases answers with
  | kept fresh =>
    obtain ⟨name, written, -, gone, -⟩ := fresh
    cases gone
  | @asked q _ asks =>
    have now_eq : after.now = ⟨0⟩ := clock
    obtain ⟨attempted, rests⟩ := ended (by rw [now_eq]; exact ⟨by decide +kernel, by decide +kernel⟩)
    obtain ⟨o, ho, -⟩ := exists_manifest? (by decide) actionInputs?_none
    obtain ⟨doc, hdoc, -⟩ := manifest?_eq_ok_iff.mp (ho (Reference.ofText "o/a@v1"))
    obtain ⟨-, expires⟩ := attempted.found "inputs:" doc rfl hdoc
    have located : q = ⟨.repository, "https://raw.githubusercontent.com/o/a/v1/action.yml"⟩ := by
      rcases asks with ⟨inProject, -⟩ | ⟨-, origin, address⟩
      · cases (show (Reference.ofText "o/a@v1").isLocal = false by decide).symm.trans inProject
      · have url : (Reference.ofText "o/a@v1").rawUrl? =
            some "https://raw.githubusercontent.com/o/a/v1/action.yml" := by decide
        obtain ⟨_, _⟩ := q
        cases origin
        cases url.symm.trans address
        rfl
    rw [located] at ran
    refine ⟨after, d', ran, told, attempted.available.mpr ⟨_, doc, rfl, hdoc⟩, ?_, rests⟩
    rw [expires, now_eq]
    decide +kernel

end Resolution

end CiWorkflow
