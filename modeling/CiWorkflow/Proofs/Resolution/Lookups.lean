import CiWorkflow.Proofs.Resolution.Identity
import CiWorkflow.Proofs.Resolution.Simulation

/-!
# Several texts at once

Whoever resolves several texts at once gets one entry for each text, in the order of the texts: whatever
is done with the cache meanwhile, an entry keeps the reference that it was made for.
-/

namespace CiWorkflow.Resolution

variable {keep : Retention} {c : Cache} {h : Nat} {r : Reference} {raws : List String}

/-! ### References are kept -/

/-- No program changes the reference of an entry. -/
lemma reference?_op (keep : Retention) (hr : c.reference? h = some r) (op : Op) :
    (op.run keep c).reference? h = some r := by
  obtain ⟨es, -, -, run⟩ : (State.idle c).Yields keep _ (State.idle (op.run keep c)) := State.yields_op c op
  have kept : ((State.idle c).run keep es).cache.reference? h = some r := State.reference?_run hr es
  rwa [run] at kept

/-- After every program each slot holds an entry of its own text. -/
lemma tidy_runAll (now : Time.Instant) (store : Option ContentStore) (ops : List Op) :
    (Op.runAll keep { now, store } ops).Tidy :=
  (State.YieldsBy.induction (fun _ ev hs => hs.step ev) (State.yields_runAll _ ops)
    (State.Sound.initial now store)).tidy

namespace Cache

lemma getOrCreateAll_cons (c : Cache) (raw : String) (raws : List String) :
    c.getOrCreateAll (raw :: raws) = ((c.getOrCreate raw).1 :: ((c.getOrCreate raw).2.getOrCreateAll raws).1,
      ((c.getOrCreate raw).2.getOrCreateAll raws).2) := rfl

lemma snd_getOrCreateAll (c : Cache) (raws : List String) :
    (c.getOrCreateAll raws).2 = Action.applyAll c (raws.map .getOrCreate) := by
  induction raws generalizing c with
  | nil => rfl
  | cons raw raws ih => exact ih _

/-- Each text is looked up as an entry of its own, and stays its own while the others are looked up. -/
lemma reference?_getOrCreateAll (ht : c.Tidy) (raws : List String) :
    List.Forall₂ (fun raw h => (c.getOrCreateAll raws).2.reference? h = some (Reference.ofText raw)) raws
      (c.getOrCreateAll raws).1 := by
  induction raws generalizing c with
  | nil => exact List.Forall₂.nil
  | cons raw raws ih =>
    have tidy : (c.getOrCreate raw).2.Tidy := ht.apply (.getOrCreate raw)
    have own : (c.getOrCreate raw).2.reference? (c.getOrCreate raw).1 = some (Reference.ofText raw) :=
      tidy.stored raw _ (c.get?_getOrCreate_self raw)
    rw [getOrCreateAll_cons]
    refine List.Forall₂.cons ?_ (ih tidy)
    obtain ⟨e, he, href⟩ := entry?_of_reference? own
    obtain ⟨e', he', worn⟩ := Action.exists_worn_applyAll he (raws.map .getOrCreate)
    rw [← snd_getOrCreateAll] at he'
    rw [reference?_of_some he', worn.reference, href]

end Cache

/-! ### The entries -/

/-- The entries for some texts, resolved at once with these replies. -/
def resolved (keep : Retention) (reply : Reply) (c : Cache) (raws : List String) : List Entry :=
  (Recorded.run (resolveTexts keep reply.watched raws) (c, [])).1

lemma resolved_eq (reply : Reply) :
    resolved keep reply c raws = (c.getOrCreateAll raws).1.filterMap
      (Cache.entry? (Op.run keep (c.getOrCreateAll raws).2 (.resolveAll reply (c.getOrCreateAll raws).1))) := rfl

/-- There is one entry for each text, in the order of the texts. -/
lemma map_raw_resolved (ht : c.Tidy) (reply : Reply) :
    (resolved keep reply c raws).map (·.reference.raw) = raws := by
  have looked := Cache.reference?_getOrCreateAll ht raws
  rw [resolved_eq]
  generalize (c.getOrCreateAll raws).1 = hs at looked
  generalize (c.getOrCreateAll raws).2 = d at looked
  generalize Op.resolveAll reply hs = op
  induction looked with
  | nil => rfl
  | @cons raw h raws hs own _ ih =>
    obtain ⟨e, he, href⟩ := Cache.entry?_of_reference? (reference?_op keep own op)
    rw [List.filterMap_cons_some he, List.map_cons, href, Reference.raw_ofText, ih]

/-! ### One text -/

/-- Resolving several entries at once, of which there is one, is resolving it. -/
lemma run_resolveAll_singleton (c : Cache) (reply : Reply) (h : Nat) :
    Op.run keep c (.resolveAll reply [h]) = Op.run keep c (.resolve reply h) := by
  rw [run_resolveAll]
  cases hp : c.plan? keep h with
  | none =>
    rw [Recorded.run_beginAll_of_none [] rfl hp, run_resolve_of_none reply hp]
    rfl
  | some load =>
    rw [run_resolve_of_some reply hp]
    cases load with
    | kept text =>
      rw [Recorded.run_beginAll_of_kept [] rfl hp]
      rfl
    | fetch q =>
      rw [Recorded.run_beginAll_of_fetch [] rfl hp (reply.run_watched _ q)]
      dsimp only
      split <;> rfl

/-- A text that is not stored is resolved to an entry with the interface of its manifest. -/
lemma exists_resolved (keep : Retention) {raw text : String} {o : Outline} (hs : c.get? raw = none) (hk : c.store = none)
    (hr : (Reference.ofText raw).isResolvable = true) (hm : manifest? (Reference.ofText raw) text = .ok o) :
    ∃ e, resolved keep (Reply.always text) c [raw] = [e] ∧ e.reference.raw = raw ∧ e.available = true ∧
      e.interface = Interface.ofDocument o.document (Reference.ofText raw) := by
  have gained : c.Gained raw o (Op.run keep c (.resolveText (Reply.always text) raw)) :=
    gained_of_resolveText hs hk hr hm
  obtain ⟨e, he, href, available, interface⟩ := gained.own
  refine ⟨e, ?_, by rw [href, Reference.raw_ofText], available, interface⟩
  have looked : c.getOrCreateAll [raw] = ([c.entries.size], (c.create raw).2) := by
    rw [Cache.getOrCreateAll_cons, Cache.getOrCreate_of_none hs]
    rfl
  rw [run_resolveText, Cache.getOrCreate_of_none hs, Cache.fst_create] at he
  rw [resolved_eq, looked, run_resolveAll_singleton, List.filterMap_cons_some he]
  rfl

/-! ### Interfaces -/

/-- Where no two entries have the same text, the interface for a text is that of its entry. -/
lemma Entry.interfaceFor?_eq_some_iff {es : List Entry} (nodup : (es.map (·.reference.raw)).Nodup) {raw : String}
    {i : Interface} :
    Entry.interfaceFor? es raw = some i ↔
      ∃ e ∈ es, e.reference.raw = raw ∧ e.available = true ∧ e.interface = i := by
  rw [Entry.interfaceFor?, Option.map_eq_some_iff]
  constructor
  · rintro ⟨e, he, rfl⟩
    have own := List.find?_some he
    simp only [Bool.and_eq_true, beq_iff_eq] at own
    exact ⟨e, List.mem_of_find?_eq_some he, own.1, own.2, rfl⟩
  · rintro ⟨e, he, rfl, available, rfl⟩
    cases hf : es.find? fun x => x.reference.raw == e.reference.raw && x.available with
    | none =>
      have := List.find?_eq_none.mp hf e he
      simp [available] at this
    | some x =>
      have own := List.find?_some hf
      simp only [Bool.and_eq_true, beq_iff_eq] at own
      rw [List.inj_on_of_nodup_map nodup (List.mem_of_find?_eq_some hf) he own.1]
      exact ⟨e, rfl, rfl⟩

end CiWorkflow.Resolution
