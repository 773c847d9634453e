import CiWorkflow.Proofs.Reference.Key
import CiWorkflow.Proofs.Resolution.Fetch
import CiWorkflow.Proofs.Resolution.Invariant
import Mathlib.Data.Set.Basic

/-!
# Programs

A program does one thing after the other with a cache, and while a fetch is under way its callers
may go on using the cache. What can be seen of a program from outside is noted as it goes: what its
callers do, what is asked for, and what the answers are.
-/

namespace CiWorkflow.Resolution

/-- What comes of a fetch: what callers do to the cache while it is under way, and the answer. -/
abbrev Reply := Request → List Action × Except Failure String

namespace Reply

variable (reply : Reply)

/-- What can be seen of a fetch that begins with a cache. -/
def sights (c : Cache) (q : Request) : List Sight :=
  .asked q c.now :: ((reply q).1.map .did ++ [.answered q (reply q).2 (Action.applyAll c (reply q).1).now])

/-- Fetches, and notes all that can be seen of it. -/
def watched : Fetch (StateM (List Sight)) := fun q => do
  let c ← get
  modifyThe (List Sight) fun seen => seen ++ reply.sights c q
  modify fun c => Action.applyAll c (reply q).1
  pure (reply q).2

/-- Fetches, and notes what was asked for. -/
def recorded : Fetch (StateM (List Request)) := fun q => do
  modifyThe (List Request) fun asked => asked ++ [q]
  modify fun c => Action.applyAll c (reply q).1
  pure (reply q).2

lemma run_watched (x : Recorded (List Sight)) (q : Request) :
    x.run (reply.watched q) = ((reply q).2, Action.applyAll x.1 (reply q).1, x.2 ++ reply.sights x.1 q) := rfl

lemma run_recorded (x : Recorded (List Request)) (q : Request) :
    x.run (reply.recorded q) = ((reply q).2, Action.applyAll x.1 (reply q).1, x.2 ++ [q]) := rfl

/-- What callers do while a load is under way. A kept text is there at once. -/
def acts : Load → List Action
  | .kept _ => []
  | .fetch r => (reply r).1

def answer : Load → Except Failure String
  | .kept text => .ok text
  | .fetch r => (reply r).2

/-- What can be seen of a load. That a kept text is read cannot be seen. -/
def seen (c : Cache) : Load → List Sight
  | .kept _ => []
  | .fetch q => reply.sights c q

/-- A text comes at once. -/
def always (text : String) : Reply := fun _ => ([], .ok text)

lemma isAnswer_answer (load : Load) : load.isAnswer (reply.answer load) = true := by
  cases load <;> rfl

end Reply

/-- What a program does next. -/
inductive Op where
  | act (a : Action)
  | resolve (reply : Reply) (h : Nat)
  | resolveText (reply : Reply) (raw : String)
  | resolveAll (reply : Reply) (hs : List Nat)

namespace Op

variable (keep : Retention) (c : Cache)

/-- What becomes of a cache, and what can be seen of it. -/
def watch : Op → Recorded (List Sight)
  | act a => (a.apply c, [.did a])
  | resolve reply h => (Recorded.run (Resolution.resolve keep reply.watched h) (c, [])).2
  | resolveText reply raw =>
    (Recorded.run (Resolution.resolveText keep reply.watched raw) (c, [.did (.getOrCreate raw)])).2
  | resolveAll reply hs => (Recorded.run (Resolution.resolveAll keep reply.watched hs) (c, [])).2

def run (op : Op) : Cache := (op.watch keep c).1

def sights (op : Op) : List Sight := (op.watch keep c).2

def runAll (ops : List Op) : Cache := ops.foldl (run keep) c

def sightsAll (ops : List Op) : List Sight := collect (run keep) (sights keep) c ops

@[simp] lemma runAll_nil : runAll keep c [] = c := rfl

@[simp] lemma runAll_cons (op : Op) (ops : List Op) :
    runAll keep c (op :: ops) = runAll keep (op.run keep c) ops := rfl

@[simp] lemma run_act (a : Action) : run keep c (.act a) = a.apply c := rfl

end Op

/-! ### One entry -/

section resolve

variable {keep : Retention} {c : Cache} {h : Nat} (reply : Reply)

lemma watch_resolve_of_none (hp : c.plan? keep h = none) : Op.watch keep c (.resolve reply h) = (c, []) := by
  rw [Op.watch, Recorded.run_resolve_of_none hp]

/-- A resolving settles the answer in the cache as callers have left it by then. -/
lemma watch_resolve_of_some {load : Load} (hp : c.plan? keep h = some load) :
    Op.watch keep c (.resolve reply h) =
      ((Action.applyAll c (reply.acts load)).settle keep h load (reply.answer load), reply.seen c load) := by
  cases load with
  | kept text => rw [Op.watch, Recorded.run_resolve_of_kept hp]; rfl
  | fetch q => rw [Op.watch, Recorded.run_resolve_of_fetch hp (reply.run_watched _ q)]; rfl

lemma run_resolve_of_none (hp : c.plan? keep h = none) : Op.run keep c (.resolve reply h) = c :=
  congrArg Prod.fst (watch_resolve_of_none reply hp)

lemma run_resolve_of_some {load : Load} (hp : c.plan? keep h = some load) :
    Op.run keep c (.resolve reply h) =
      (Action.applyAll c (reply.acts load)).settle keep h load (reply.answer load) :=
  congrArg Prod.fst (watch_resolve_of_some reply hp)

/-- To resolve a text is to look it up and to resolve the entry that is found. -/
lemma watch_resolveText (raw : String) :
    let d := (c.getOrCreate raw).2
    let own := Op.resolve reply (c.getOrCreate raw).1
    Op.watch keep c (.resolveText reply raw) = (own.run keep d, .did (.getOrCreate raw) :: own.sights keep d) := by
  intro d own
  have looked : Op.watch keep c (.resolveText reply raw) =
      (Recorded.run (resolve keep reply.watched (c.getOrCreate raw).1) (d, [.did (.getOrCreate raw)])).2 := rfl
  rw [looked, Op.run, Op.sights]
  cases hp : d.plan? keep (c.getOrCreate raw).1 with
  | none => rw [Recorded.run_resolve_of_none hp, watch_resolve_of_none reply hp]
  | some load =>
    rw [watch_resolve_of_some reply hp]
    cases load with
    | kept text => rw [Recorded.run_resolve_of_kept hp]; rfl
    | fetch q => rw [Recorded.run_resolve_of_fetch hp (reply.run_watched _ q)]; rfl

lemma run_resolveText (raw : String) :
    Op.run keep c (.resolveText reply raw) =
      Op.run keep (c.getOrCreate raw).2 (.resolve reply (c.getOrCreate raw).1) := by
  rw [Op.run, watch_resolveText]

lemma run_resolveAll (hs : List Nat) :
    Op.run keep c (.resolveAll reply hs) =
      let (rest, y) := Recorded.run (beginAll keep reply.watched hs []) (c, [])
      rest.foldl (fun c (h, r) => c.finish keep h r) y.1 := rfl

/-- A text that is not stored is looked up and resolved where no content is kept. -/
lemma run_resolveText_new {raw text : String} {o : Outline} (hs : c.get? raw = none) (hk : c.store = none)
    (hr : (Reference.ofText raw).isResolvable = true) (hm : manifest? (Reference.ofText raw) text = .ok o) :
    Op.run keep c (.resolveText (Reply.always text) raw) =
      (c.create raw).2.conclude keep c.entries.size (.timely o none) := by
  have he : Cache.entry? (c.create raw).2 c.entries.size = some (Entry.fresh raw) := by
    rw [Cache.entry?_create, if_pos rfl]
  have hc : (c.create raw).2.isCurrent c.entries.size = true := by
    rw [Cache.isCurrent_iff_of_some he, Entry.reference_fresh, Reference.raw_ofText, Cache.get?_create,
      if_pos rfl]
  have nothing (name : String) : (c.create raw).2.file? name = none := by simp [Cache.file?, hk]
  obtain ⟨l, hl⟩ := Reference.exists_location? hr
  set load := Load.fetch ⟨if (Reference.ofText raw).isLocal then .project else .repository, l⟩ with hload
  have hp : (c.create raw).2.plan? keep c.entries.size = some load :=
    Cache.plan?_of_no_file he (Cache.needsResolution_fresh hr _) hl fun name _ => nothing name
  have found : (c.create raw).2.finding c.entries.size load (.ok text) = .timely o none := by
    have unnamed : (c.create raw).2.fileName? (Reference.ofText raw) = none := by simp [Cache.fileName?, hk]
    rw [Cache.finding_of_manifest? he hm hc, Entry.reference_fresh, unnamed]
    simp
  rw [run_resolveText, Cache.getOrCreate_of_none hs, Cache.fst_create, run_resolve_of_some _ hp]
  have quiet : (Reply.always text).acts load = [] := rfl
  have answered : (Reply.always text).answer load = .ok text := rfl
  rw [quiet, answered, Cache.settle, Action.applyAll, List.foldl_nil, found]

/-- A cache without kept content has gained an entry that was resolved. -/
structure Cache.Gained (c : Cache) (raw : String) (o : Outline) (c' : Cache) : Prop where
  store : c'.store = none
  size : c'.entries.size = c.entries.size + 1
  slots : ∀ t, c'.get? t = if t = raw then some c.entries.size else c.get? t
  others : ∀ k e, c.entry? k = some e → c'.entry? k = some e
  outlines : ∀ key, c'.outlines.get? key =
    if key = (Reference.ofText raw).contentKey then some o else c.outlines.get? key
  own : ∃ e, c'.entry? c.entries.size = some e ∧ e.reference = Reference.ofText raw ∧ e.available = true ∧
    e.interface = Interface.ofDocument o.document (Reference.ofText raw)

lemma gained_of_resolveText {raw text : String} {o : Outline} (hs : c.get? raw = none)
    (hk : c.store = none)
    (hr : (Reference.ofText raw).isResolvable = true) (hm : manifest? (Reference.ofText raw) text = .ok o) :
    c.Gained raw o (Op.run keep c (.resolveText (Reply.always text) raw)) := by
  have made : Cache.entry? (c.create raw).2 c.entries.size = some (Entry.fresh raw) := by
    rw [Cache.entry?_create, if_pos rfl]
  rw [run_resolveText_new hs hk hr hm]
  refine ⟨?_, ?_, fun t => ?_, fun k e he => ?_, fun key => ?_, ?_⟩
  · have h := Cache.isSome_store_conclude (c.create raw).2 keep c.entries.size (.timely o none)
    rw [Cache.store_create, hk, Option.isSome_none] at h
    exact Option.not_isSome_iff_eq_none.mp (by rw [h]; exact Bool.false_ne_true)
  · rw [Cache.size_conclude]
    simp [Cache.create]
  · rw [Cache.get?, Cache.slots_conclude]
    exact Cache.get?_create c raw t
  · rw [Cache.entry?_conclude_of_ne _ _ _ _ (Nat.ne_of_lt (Cache.lt_size_of_some he))]
    exact Cache.entry?_create_of_some raw he
  · rw [Cache.get?_outlines_conclude_timely keep made]
    rfl
  · obtain ⟨e, he, href, hav, hint⟩ := Cache.exists_entry_of_conclude_timely keep made o none
    rw [Entry.reference_fresh] at href hint
    exact ⟨e, he, href, hav, hint⟩

end resolve

/-! ### Serial programs -/

namespace Action

/-- The action looks up nothing but texts of a set. -/
def On (R : Set String) : Action → Prop
  | getOrCreate raw => raw ∈ R
  | _ => True

end Action

namespace Op

/-- At most one resolving is under way at a time, and nothing but texts of a set is looked up. -/
def Serial (R : Set String) : Op → Prop
  | act a => a.On R
  | resolve reply _ => ∀ r, ∀ a ∈ (reply r).1, a.On R
  | resolveText reply raw => raw ∈ R ∧ ∀ r, ∀ a ∈ (reply r).1, a.On R
  | resolveAll _ _ => False

variable {keep : Retention} {R : Set String} {P : Cache → Prop}

/-- What the actions of callers and the settling of an answer keep, a serial operation keeps. -/
lemma Serial.run (act : ∀ (c : Cache) (a : Action), a.On R → P c → P (a.apply c))
    (settle : ∀ c h e load answer, c.entry? h = some e → e.available = false →
      e.reference.isResolvable = true → P c → P (c.settle keep h load answer))
    {op : Op} (ho : op.Serial R) {c : Cache} (hc : P c) : P (op.run keep c) := by
  have one (reply : Reply) (ha : ∀ r, ∀ a ∈ (reply r).1, a.On R) (h : Nat) (d : Cache) (hd : P d) :
      P (Op.run keep d (.resolve reply h)) := by
    cases hp : d.plan? keep h with
    | none => rwa [run_resolve_of_none reply hp]
    | some load =>
      -- the entry is not available when the answer comes either
      obtain ⟨e, he, hav, hr⟩ := Cache.exists_of_plan? hp
      obtain ⟨e', he', hw⟩ := Action.exists_worn_applyAll he (reply.acts load)
      have acts : ∀ a ∈ reply.acts load, a.On R := by
        cases load with
        | kept text => intro a hm; cases hm
        | fetch r => exact ha r
      rw [run_resolve_of_some reply hp]
      refine settle _ h e' load _ he' (hw.not_available hav) (by rwa [hw.reference]) ?_
      exact Action.applyAll_induction act acts hd
  cases op with
  | act a => exact act c a ho hc
  | resolve reply h => exact one reply ho h c hc
  | resolveText reply raw =>
    rw [run_resolveText]
    exact one reply ho.2 _ _ (act c (.getOrCreate raw) ho.1 hc)
  | resolveAll reply hs => exact ho.elim

lemma Serial.runAll (act : ∀ (c : Cache) (a : Action), a.On R → P c → P (a.apply c))
    (settle : ∀ c h e load answer, c.entry? h = some e → e.available = false →
      e.reference.isResolvable = true → P c → P (c.settle keep h load answer))
    {ops : List Op} (ho : ∀ op ∈ ops, op.Serial R) {c : Cache} (hc : P c) : P (Op.runAll keep c ops) := by
  induction ops generalizing c with
  | nil => exact hc
  | cons op ops ih =>
    refine ih (fun o hm => ho o (List.mem_cons_of_mem op hm)) ?_
    exact Serial.run act settle (ho op List.mem_cons_self) hc

end Op

end CiWorkflow.Resolution
