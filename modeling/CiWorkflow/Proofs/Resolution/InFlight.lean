import CiWorkflow.Proofs.Resolution.Program

/-!
# What a resolving leaves behind

While the text of an entry is on the way, callers may replace or delete the entry, drop all entries
or move the clock. When the answer comes, whatever it is, an entry that is not stored any more gets
its interface and nothing else changes; an entry that is still stored changes only itself and what
is kept under its own key.
-/

namespace CiWorkflow.Resolution

/-- Nothing is different but the interface, the availability and the expiry of one entry, and what
is kept of manifests. -/
structure Cache.SameBut (h : Nat) (c c' : Cache) : Prop where
  now : c'.now = c.now
  slots : c'.slots = c.slots
  others : ∀ k, k ≠ h → c'.entry? k = c.entry? k
  own : ∃ i a t, c'.entry? h = (c.entry? h).map fun e => { e with interface := i, available := a, expires := t }

/-- What is kept is the same but for the outline and the file of one reference. -/
structure Cache.KeepsBut (r : Reference) (c c' : Cache) : Prop where
  keeping : c'.store.isSome = c.store.isSome
  outlines : ∀ key, key ≠ r.contentKey → c'.outlines.get? key = c.outlines.get? key
  files : ∀ name, ContentStore.fileName? r ≠ some name → c'.file? name = c.file? name

namespace Cache

variable (c : Cache) (keep : Retention) (h : Nat)

lemma sameBut_conclude (f : Finding) : SameBut h c (c.conclude keep h f) := by
  refine ⟨c.now_conclude keep h f, c.slots_conclude keep h f, fun k hk => c.entry?_conclude_of_ne keep h f hk, ?_⟩
  cases he : c.entry? h with
  | none =>
    have hr : (c.conclude keep h f).reference? h = none := by
      rw [reference?_conclude, reference?, he]
      rfl
    refine ⟨{}, false, none, ?_⟩
    simpa [reference?] using hr
  | some e =>
    rw [entry?_conclude keep he]
    cases f with
    | missing => exact ⟨_, _, _, rfl⟩
    | late o => exact ⟨_, _, _, rfl⟩
    | timely o text => exact ⟨_, _, _, rfl⟩

lemma keepsBut_conclude {c : Cache} {h : Nat} {e : Entry} (he : c.entry? h = some e) (f : Finding) :
    KeepsBut e.reference c (c.conclude keep h f) := by
  have keeping := c.isSome_store_conclude keep h f
  cases f with
  | missing => exact ⟨keeping, fun key _ => rfl, fun name _ => rfl⟩
  | late o => exact ⟨keeping, fun key _ => rfl, fun name _ => rfl⟩
  | timely o text =>
    refine ⟨keeping, fun key hk => ?_, fun name hn => file?_conclude_timely keep he o text hn⟩
    rw [get?_outlines_conclude_timely keep he, if_neg hk]

lemma keepsBut_detach {c : Cache} {h : Nat} {e : Entry} (he : c.entry? h = some e) :
    KeepsBut e.reference c (c.detach h) := by
  refine ⟨c.isSome_store_detach h, fun key hkey => ?_, fun name hname => ?_⟩
  · rw [get?_outlines_detach he, if_neg hkey]
  · rw [file?_detach he, if_neg hname]

/-- An entry that is not stored leaves nothing behind. -/
lemma kept_settle_of_not_isCurrent {load : Load} {answer : Except Failure String}
    (hc : c.isCurrent h = false) :
    (c.settle keep h load answer).outlines = c.outlines ∧ (c.settle keep h load answer).store = c.store := by
  unfold settle
  cases hf : c.finding h load answer with
  | missing => exact ⟨rfl, rfl⟩
  | late o => exact ⟨rfl, rfl⟩
  | timely o text =>
    have stored := isCurrent_of_finding hf
    rw [hc] at stored
    cases stored

end Cache

/-- Resolving does nothing, or settles the answer in the cache as callers left it while the text was
on the way. An entry that is not stored then changes nothing but itself; one that is stored changes
itself and what is kept under its own key. -/
theorem resolve_frame (keep : Retention) (reply : Reply) (c : Cache) (h : Nat) :
    let after := (Recorded.run (resolve keep reply.watched h) (c, [])).2.1
    c.plan? keep h = none ∧ after = c ∨
      ∃ e load, c.entry? h = some e ∧ c.plan? keep h = some load ∧
        let mid := Action.applyAll c (reply.acts load)
        mid.SameBut h after ∧
          (mid.isCurrent h = false → after.outlines = mid.outlines ∧ after.store = mid.store) ∧
          (mid.isCurrent h = true → mid.KeepsBut e.reference after) := by
  intro after
  cases hp : c.plan? keep h with
  | none => exact Or.inl ⟨rfl, run_resolve_of_none reply hp⟩
  | some load =>
    obtain ⟨e, he, -, -⟩ := Cache.exists_of_plan? hp
    refine Or.inr ⟨e, load, he, rfl, ?_⟩
    intro mid
    have settled : after = mid.settle keep h load (reply.answer load) := run_resolve_of_some reply hp
    obtain ⟨e', he', hw⟩ := Action.exists_worn_applyAll he (reply.acts load)
    rw [settled]
    refine ⟨mid.sameBut_conclude keep h _, mid.kept_settle_of_not_isCurrent keep h, fun _ => ?_⟩
    rw [← hw.reference]
    exact Cache.keepsBut_conclude keep he' _

end CiWorkflow.Resolution
