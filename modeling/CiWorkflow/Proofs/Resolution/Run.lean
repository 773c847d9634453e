import CiWorkflow.Proofs.Resolution.Effect
import Mathlib.Data.List.Induction
import Mathlib.Data.List.Infix

/-!
# Runs

A cache is used by callers who look entries up and give them up, and by any number of resolvings
that are under way at the same time. A run is a list of events in the order in which they happen; an
event that cannot happen in a state changes nothing there. Each entry is resolved at most once at a
time. Between the judgement of an answer and its publication lies the writing of the text, and any
other event can fall into that gap.
-/

namespace CiWorkflow.Resolution

/-! ### Steps -/

section steps

variable {σ ε β : Type} (step : σ → ε → σ)

/-- What some steps bring, one after another. -/
def collect (f : σ → ε → List β) : σ → List ε → List β
  | _, [] => []
  | s, e :: es => f s e ++ collect f (step s e) es

/-- Each of some steps meets a condition in the state in which it is taken. -/
def Along (P : σ → ε → Prop) : σ → List ε → Prop
  | _, [] => True
  | s, e :: es => P s e ∧ Along P (step s e) es

variable {step} {f : σ → ε → List β} {P Q : σ → ε → Prop} {s : σ} {e : ε} {es fs : List ε}

lemma collect_append (f : σ → ε → List β) (s : σ) (es fs : List ε) :
    collect step f s (es ++ fs) = collect step f s es ++ collect step f (es.foldl step s) fs := by
  induction es generalizing s with
  | nil => rfl
  | cons e es ih => rw [List.cons_append, collect, collect, ih, List.append_assoc, List.foldl_cons]

lemma collect_concat (f : σ → ε → List β) (s : σ) (es : List ε) (e : ε) :
    collect step f s (es ++ [e]) = collect step f s es ++ f (es.foldl step s) e := by
  rw [collect_append, collect, collect, List.append_nil]

lemma mem_collect_of_prefix {x : β} (hp : es ++ [e] <+: fs) (hx : x ∈ f (es.foldl step s) e) :
    x ∈ collect step f s fs := by
  obtain ⟨gs, rfl⟩ := hp
  rw [collect_append, collect_concat]
  exact List.mem_append_left _ (List.mem_append_right _ hx)

/-- What some steps bring, one of them brings. -/
lemma exists_of_mem_collect {x : β} (hx : x ∈ collect step f s fs) :
    ∃ es e, es ++ [e] <+: fs ∧ x ∈ f (es.foldl step s) e := by
  induction fs generalizing s with
  | nil => cases hx
  | cons e fs ih =>
    rcases List.mem_append.mp hx with here | later
    · exact ⟨[], e, List.prefix_append [e] fs, here⟩
    · obtain ⟨es, e', hp, hx'⟩ := ih later
      exact ⟨e :: es, e', List.prefix_cons_inj e |>.mpr hp, hx'⟩

namespace Along

lemma append (he : Along step P s es) (hf : Along step P (es.foldl step s) fs) : Along step P s (es ++ fs) := by
  induction es generalizing s with
  | nil => exact hf
  | cons e es ih => exact ⟨he.1, ih he.2 hf⟩

lemma of_prefix (ha : Along step P s fs) (hp : es ++ [e] <+: fs) : P (es.foldl step s) e := by
  obtain ⟨gs, rfl⟩ := hp
  induction es generalizing s with
  | nil => exact ha.1
  | cons x es ih => exact ih ha.2

lemma mono (ha : Along step P s es) (h : ∀ s e, P s e → Q s e) : Along step Q s es := by
  induction es generalizing s with
  | nil => trivial
  | cons e es ih => exact ⟨h s e ha.1, ih ha.2⟩

end Along

end steps

/-! ### What callers do -/

/-- What callers do to a cache. -/
inductive Action where
  | getOrCreate (raw : String)
  | delete (h : Nat)
  | clear
  | purge
  | tag (h : Nat) (label : String)
  | advance (ms : Int)

namespace Action

def apply (c : Cache) : Action → Cache
  | getOrCreate raw => (c.getOrCreate raw).2
  | delete h => c.delete h
  | clear => c.clear
  | purge => c.purge.2
  | tag h label => c.modifyEntry h fun e => e.tagged label
  | advance ms => c.advance ms

def applyAll (c : Cache) (as : List Action) : Cache := as.foldl apply c

end Action

/-! ### Events -/

/-- How far the resolving of an entry has come. -/
inductive Stage where
  /-- its text is on the way -/
  | loading (load : Load)
  /-- its text is being written -/
  | writing (f : Finding)

/-- A cache and the resolvings that are under way. -/
structure State where
  cache : Cache
  stage : Nat → Option Stage := fun _ => none

inductive Event where
  | act (a : Action)
  /-- the resolving of an entry begins -/
  | start (h : Nat)
  /-- the kept text of an entry cannot be read, and has to be fetched -/
  | miss (h : Nat)
  /-- the answer to the load of an entry comes; a kept text is what the file holds by then -/
  | answer (h : Nat) (a : Except Failure String)
  /-- the text of an entry has been written -/
  | finish (h : Nat)

/-- Whether an answer can come to a load. A kept text that cannot be read is no answer: it is
fetched then. -/
def Load.isAnswer : Load → Except Failure String → Bool
  | kept _, .error _ => false
  | _, _ => true

/-- What can be seen from outside: what callers do, and with the time by the clock which fetches begin
and what they are answered. -/
inductive Sight where
  | did (a : Action)
  | asked (q : Request) (t : Time.Instant)
  | answered (q : Request) (a : Except Failure String) (t : Time.Instant)
  /-- a new cache takes the place of the old one -/
  | restarted

namespace State

/-- No resolving is under way. -/
def idle (c : Cache) : State := { cache := c }

/-- Nothing has been looked up yet. -/
def initial (now : Time.Instant) (store : Option ContentStore) : State := idle { now, store }

variable (keep : Retention) (s : State)

/-- Brings the resolving of one entry to a stage, or to its end. -/
def put (h : Nat) (t : Option Stage) : State :=
  { s with stage := fun k => if k = h then t else s.stage k }

/-- Notes a finding, which ends a resolving. -/
def note (h : Nat) (f : Finding) : State := { s.put h none with cache := s.cache.conclude keep h f }

/-- Notes a finding unless its text has to be written before. -/
def judge (h : Nat) (f : Finding) : State :=
  if f.isWriting then s.put h (some (.writing f)) else s.note keep h f

def step : Event → State
  | .act a => { s with cache := a.apply s.cache }
  | .start h =>
    match s.stage h, s.cache.plan? keep h with
    | none, some load => s.put h (some (.loading load))
    | _, _ => s
  | .miss h =>
    match s.stage h, (s.cache.reference? h).bind Reference.location? with
    | some (.loading (.kept _)), some l => s.put h (some (.loading (.fetch ⟨.repository, l⟩)))
    | _, _ => s
  | .answer h a =>
    match s.stage h with
    | some (.loading load) => if load.isAnswer a then s.judge keep h (s.cache.finding h load a) else s
    | _ => s
  | .finish h =>
    match s.stage h with
    | some (.writing f) => s.note keep h f
    | _ => s

/-- The finding that an event notes, with its entry. -/
def noted? : Event → Option (Nat × Finding)
  | .answer h a =>
    match s.stage h with
    | some (.loading load) =>
      let f := s.cache.finding h load a
      if load.isAnswer a && !f.isWriting then some (h, f) else none
    | _ => none
  | .finish h =>
    match s.stage h with
    | some (.writing f) => some (h, f)
    | _ => none
  | _ => none

def run (es : List Event) : State := es.foldl (step keep) s

@[simp] lemma run_nil : s.run keep [] = s := rfl
@[simp] lemma run_cons (e : Event) (es : List Event) :
    s.run keep (e :: es) = (s.step keep e).run keep es :=
  rfl

lemma run_append (es fs : List Event) :
    s.run keep (es ++ fs) = (s.run keep es).run keep fs := by
  simp [run]

lemma run_concat (es : List Event) (e : Event) :
    s.run keep (es ++ [e]) = (s.run keep es).step keep e := by
  simp [run]

lemma run_acts (as : List Action) :
    s.run keep (as.map .act) = { s with cache := Action.applyAll s.cache as } := by
  induction as generalizing s with
  | nil => rfl
  | cons a as ih => simp only [List.map_cons, run_cons, ih]; rfl

/-! ### What can be seen -/

/-- The fetch that begins with an event, and its entry. -/
def asked? : Event → Option (Nat × Request)
  | .start h =>
    match s.stage h, s.cache.plan? keep h with
    | none, some (.fetch q) => some (h, q)
    | _, _ => none
  | .miss h =>
    match s.stage h, (s.cache.reference? h).bind Reference.location? with
    | some (.loading (.kept _)), some l => some (h, ⟨.repository, l⟩)
    | _, _ => none
  | _ => none

/-- What can be seen of an event. -/
def sight : Event → List Sight
  | .act a => [.did a]
  | .answer h a =>
    match s.stage h with
    | some (.loading (.fetch q)) => [.answered q a s.cache.now]
    | _ => []
  | e => (s.asked? keep e).toList.map fun x => .asked x.2 s.cache.now

/-- What can be seen of a run. -/
def sights (es : List Event) : List Sight := collect (step keep) (sight keep) s es

/-- The fetches that begin along a run, with their entries. -/
def asks (es : List Event) : List (Nat × Request) := collect (step keep) (fun s e => (s.asked? keep e).toList) s es

lemma sights_acts (as : List Action) : s.sights keep (as.map .act) = as.map .did := by
  induction as generalizing s with
  | nil => rfl
  | cons a as ih => exact congrArg (Sight.did a :: ·) (ih (s.step keep (.act a)))

/-! ### What a step can do -/

@[simp] lemma cache_put (h : Nat) (t : Option Stage) : (s.put h t).cache = s.cache := rfl
@[simp] lemma cache_note (h : Nat) (f : Finding) :
    (s.note keep h f).cache = s.cache.conclude keep h f :=
  rfl

lemma stage_put (h k : Nat) (t : Option Stage) :
    (s.put h t).stage k = if k = h then t else s.stage k :=
  rfl
lemma stage_note (h k : Nat) (f : Finding) :
    (s.note keep h f).stage k = if k = h then none else s.stage k :=
  rfl

variable {keep s} in
/-- A fetch that begins is under way then, and nothing was under way for its entry but the reading of a
kept text. -/
lemma stage_of_asked? {e : Event} {x : Nat × Request} (hx : s.asked? keep e = some x) :
    (s.step keep e).stage x.1 = some (.loading (.fetch x.2)) ∧
      (e = .start x.1 ∧ s.stage x.1 = none ∨ e = .miss x.1 ∧ ∃ text, s.stage x.1 = some (.loading (.kept text))) := by
  cases e with
  | start h =>
    simp only [asked?] at hx
    split at hx
    · rename_i q hst hp
      cases hx
      exact ⟨by simp [step, hst, hp, stage_put], Or.inl ⟨rfl, hst⟩⟩
    · cases hx
  | miss h =>
    simp only [asked?] at hx
    split at hx
    · rename_i text l hst hl
      cases hx
      exact ⟨by simp [step, hst, hl, stage_put], Or.inr ⟨rfl, text, hst⟩⟩
    · cases hx
  | act a => cases hx
  | answer h a => cases hx
  | finish h => cases hx

lemma judge_cases (h : Nat) (f : Finding) :
    f.isWriting = true ∧ s.judge keep h f = s.put h (some (.writing f)) ∨
      f.isWriting = false ∧ s.judge keep h f = s.note keep h f := by
  unfold judge
  cases f.isWriting with
  | true => exact Or.inl ⟨rfl, rfl⟩
  | false => exact Or.inr ⟨rfl, rfl⟩

/-- What comes of an event, and of one that does not fit nothing. -/
inductive Takes : Event → State → Prop where
  | act (a : Action) : Takes (.act a) { s with cache := a.apply s.cache }
  | start {h : Nat} {load : Load} (free : s.stage h = none) (plan : s.cache.plan? keep h = some load) :
      Takes (.start h) (s.put h (some (.loading load)))
  | miss {h : Nat} {text location : String} (reading : s.stage h = some (.loading (.kept text)))
      (address : (s.cache.reference? h).bind Reference.location? = some location) :
      Takes (.miss h) (s.put h (some (.loading (.fetch ⟨.repository, location⟩))))
  | answer {h : Nat} {load : Load} {a : Except Failure String} (loading : s.stage h = some (.loading load))
      (fits : load.isAnswer a = true) : Takes (.answer h a) (s.judge keep h (s.cache.finding h load a))
  | finish {h : Nat} {f : Finding} (writing : s.stage h = some (.writing f)) :
      Takes (.finish h) (s.note keep h f)
  | nothing {e : Event} (unnoted : s.noted? e = none) : Takes e s

lemma takes_step (e : Event) : s.Takes keep e (s.step keep e) := by
  cases e with
  | act a => exact .act a
  | start h =>
    simp only [step]
    split
    · rename_i load free plan
      exact .start free plan
    · exact .nothing rfl
  | miss h =>
    simp only [step]
    split
    · rename_i text location reading address
      exact .miss reading address
    · exact .nothing rfl
  | answer h a =>
    simp only [step]
    split
    · rename_i load loading
      split
      · rename_i fits
        exact .answer loading fits
      · rename_i unfit
        exact .nothing (by simp [noted?, loading, unfit])
    · exact .nothing (by simp only [noted?])
  | finish h =>
    simp only [step]
    split
    · rename_i f writing
      exact .finish writing
    · exact .nothing (by simp only [noted?])

/-- A step applies an action, brings a resolving to another stage, or notes what an answer
came to. -/
lemma step_cases (e : Event) :
    (∃ a, e = .act a ∧ s.noted? e = none ∧ s.step keep e = { s with cache := a.apply s.cache }) ∨
      (s.noted? e = none ∧ (s.step keep e).cache = s.cache) ∨
        ∃ h f, s.noted? e = some (h, f) ∧ s.step keep e = s.note keep h f := by
  have taken := s.takes_step keep e
  generalize s.step keep e = s' at taken ⊢
  cases taken with
  | act a => exact Or.inl ⟨a, rfl, rfl, rfl⟩
  | start free plan => exact Or.inr (Or.inl ⟨rfl, rfl⟩)
  | miss reading address => exact Or.inr (Or.inl ⟨rfl, rfl⟩)
  | @answer h load a loading fits =>
    rcases s.judge_cases keep h (s.cache.finding h load a) with ⟨hw, judged⟩ | ⟨hw, judged⟩ <;> rw [judged]
    · exact Or.inr (Or.inl ⟨by simp [noted?, loading, hw], rfl⟩)
    · exact Or.inr (Or.inr ⟨h, _, by simp [noted?, loading, fits, hw], rfl⟩)
  | @finish h f writing => exact Or.inr (Or.inr ⟨h, f, by simp [noted?, writing], rfl⟩)
  | nothing unnoted => exact Or.inr (Or.inl ⟨unnoted, rfl⟩)

variable {keep s} in
lemma stage_of_note {h k : Nat} {f : Finding} {t : Stage} (hst : (s.note keep k f).stage h = some t) :
    s.stage h = some t := by
  rw [stage_note] at hst
  split at hst
  · cases hst
  · exact hst

variable {keep s} in
lemma loading_of_judge {h k : Nat} {f : Finding} {load : Load}
    (hst : (s.judge keep k f).stage h = some (.loading load)) : s.stage h = some (.loading load) := by
  rcases s.judge_cases keep k f with ⟨-, judged⟩ | ⟨-, judged⟩ <;> rw [judged] at hst
  · rw [stage_put] at hst
    split at hst
    · cases hst
    · exact hst
  · exact stage_of_note hst

variable {keep s} in
/-- What is on the way was so before, or has just been planned, or is fetched in place of a kept text. -/
lemma loading_of_step {e : Event} {h : Nat} {load : Load} (hst : (s.step keep e).stage h = some (.loading load)) :
    s.stage h = some (.loading load) ∨ (s.step keep e).cache = s.cache ∧ (s.cache.plan? keep h = some load ∨
      ∃ text l, s.stage h = some (.loading (.kept text)) ∧
        (s.cache.reference? h).bind Reference.location? = some l ∧ load = .fetch ⟨.repository, l⟩) := by
  have taken := s.takes_step keep e
  generalize s.step keep e = s' at taken hst ⊢
  cases taken with
  | act a => exact Or.inl hst
  | start free plan =>
    rw [stage_put] at hst
    split at hst
    · rename_i hk
      cases hst
      exact Or.inr ⟨rfl, Or.inl (hk ▸ plan)⟩
    · exact Or.inl hst
  | miss reading address =>
    rw [stage_put] at hst
    split at hst
    · rename_i hk
      cases hst
      exact Or.inr ⟨rfl, Or.inr ⟨_, _, hk ▸ reading, hk ▸ address, rfl⟩⟩
    · exact Or.inl hst
  | answer loading fits => exact Or.inl (loading_of_judge hst)
  | finish writing => exact Or.inl (stage_of_note hst)
  | nothing unnoted => exact Or.inl hst

/-! ### What holds along a run -/

/-- What a step keeps, a run keeps. -/
lemma run_induction {keep : Retention} {P : State → Prop} (step : ∀ s e, P s → P (s.step keep e))
    {s : State} (hs : P s) (es : List Event) : P (s.run keep es) := by
  induction es generalizing s with
  | nil => exact hs
  | cons e es ih => exact ih (step s e hs)

/-- Where a step keeps `B` exactly under the condition `C`, a run keeps `B` throughout exactly when
each of its events meets `C`. -/
lemma forall_prefix_iff {keep : Retention} (I B : State → Prop) (C : State → Event → Prop)
    (inv : ∀ s e, I s → I (s.step keep e)) (exact : ∀ s e, I s → B s → (B (s.step keep e) ↔ C s e)) {s : State}
    (hI : I s) (hB : B s) (es : List Event) :
    (∀ p, p <+: es → B (s.run keep p)) ↔ ∀ p e, p ++ [e] <+: es → C (s.run keep p) e := by
  constructor
  · intro h p e hp
    have before := h p ((List.prefix_append p [e]).trans hp)
    refine (exact _ e (run_induction inv hI p) before).mp ?_
    rw [← run_concat]
    exact h _ hp
  · intro h p
    induction p using List.reverseRecOn with
    | nil => exact fun _ => hB
    | append_singleton p e ih =>
      intro hp
      rw [run_concat]
      exact (exact _ e (run_induction inv hI p) (ih ((List.prefix_append p [e]).trans hp))).mpr (h p e hp)

end State

end CiWorkflow.Resolution
