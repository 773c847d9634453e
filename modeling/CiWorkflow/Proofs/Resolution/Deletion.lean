import CiWorkflow.Proofs.Resolution.Identity

/-!
# What a deletion leaves

A handle can be deleted at any time: while its entry is stored, after all entries were dropped, after
it was deleted before, or after another entry has come into its slot. Its own entry stops being
available and is not stored any more. With the entry go the outline and the file under its key,
unless the slot of its text is another one's by then, who keeps all it has.
-/

namespace CiWorkflow.Resolution

namespace Cache

variable (c : Cache) (h : Nat)

/-! ### Deleting once -/

lemma entry?_delete (k : Nat) :
    Cache.entry? (c.delete h) k = if h = k then (c.entry? k).map Entry.invalidated else c.entry? k := by
  cases he : c.entry? h with
  | none =>
    rw [delete_of_entry?_eq_none he]
    split
    · rename_i hk
      subst hk
      rw [he]
      rfl
    · rfl
  | some e =>
    rcases c.delete_cases he with ⟨-, hd⟩ | ⟨-, hd⟩ | ⟨-, hd⟩ <;> rw [hd]
    · exact c.entry?_detach h k
    · exact c.entry?_detach h k
    · exact c.entry?_modifyEntry h Entry.invalidated k

lemma now_delete : (c.delete h).now = c.now := by
  cases he : c.entry? h with
  | none => rw [delete_of_entry?_eq_none he]
  | some e =>
    rcases c.delete_cases he with ⟨-, hd⟩ | ⟨-, hd⟩ | ⟨-, hd⟩ <;> rw [hd]
    · exact c.now_detach h
    · exact c.now_detach h
    · rfl

variable {c : Cache} {h : Nat} {e : Entry}

/-- A slot is emptied where the deleted entry is in it, and no other slot is touched. -/
lemma get?_delete (he : c.entry? h = some e) (raw : String) :
    (c.delete h).get? raw = if raw = e.reference.raw ∧ c.get? raw = some h then none else c.get? raw := by
  have apart (hs : c.get? e.reference.raw ≠ some h) :
      ¬ (raw = e.reference.raw ∧ c.get? raw = some h) := by
    rintro ⟨rfl, own⟩
    exact hs own
  rcases c.delete_cases he with ⟨own, -⟩ | ⟨empty, hd⟩ | ⟨⟨k, hk, other⟩, hd⟩
  · rw [get?_delete_of_isCurrent he own]
    by_cases hraw : raw = e.reference.raw
    · rw [if_pos hraw, if_pos ⟨hraw, by rwa [hraw]⟩]
    · rw [if_neg hraw, if_neg fun hr => hraw hr.1]
  · rw [if_neg (apart (by rw [empty]; exact (Option.some_ne_none h).symm)), hd, get?, slots_detach]
    rfl
  · rw [if_neg (apart (by rw [other]; exact fun hs => hk (Option.some.inj hs))), hd]
    rfl

lemma get?_delete_of_ne (he : c.entry? h = some e) {raw : String} (hr : raw ≠ e.reference.raw) :
    (c.delete h).get? raw = c.get? raw := by
  rw [get?_delete he, if_neg fun hraw => hr hraw.1]

lemma entry?_delete_self (he : c.entry? h = some e) : Cache.entry? (c.delete h) h = some e.invalidated := by
  rw [entry?_delete, if_pos rfl, he]
  rfl

lemma isCurrent_delete_self (he : c.entry? h = some e) : (c.delete h).isCurrent h = false := by
  rw [← Bool.not_eq_true, isCurrent_iff_of_some (entry?_delete_self he), Entry.reference_invalidated, get?_delete he]
  split
  · exact (Option.some_ne_none h).symm
  · rename_i hs
    exact fun own => hs ⟨rfl, own⟩

/-- Every other entry stays as it is, and where it is. -/
lemma sameAt_delete (he : c.entry? h = some e) {k : Nat} (hk : k ≠ h) : c.SameAt (c.delete h) k := by
  have same : Cache.entry? (c.delete h) k = c.entry? k := by rw [entry?_delete, if_neg (Ne.symm hk)]
  refine ⟨same, ?_⟩
  cases hd : c.entry? k with
  | none => simp only [isCurrent, same, hd]
  | some d =>
    rw [Bool.eq_iff_iff, isCurrent_iff_of_some (same.trans hd), isCurrent_iff_of_some hd, get?_delete he]
    split
    · rename_i own
      rw [own.2]
      exact iff_of_false (Option.some_ne_none k).symm fun hs => hk (Option.some.inj hs).symm
    · rfl

/-- Where the slot is another one's, nothing goes but the availability of the deleted entry. -/
lemma delete_of_replaced (he : c.entry? h = some e) {k : Nat} (hs : c.get? e.reference.raw = some k) (hk : k ≠ h) :
    c.delete h = c.modifyEntry h Entry.invalidated := by
  rcases c.delete_cases he with ⟨own, -⟩ | ⟨empty, -⟩ | ⟨-, hd⟩
  · rw [own] at hs
    exact absurd (Option.some.inj hs).symm hk
  · rw [empty] at hs
    cases hs
  · exact hd

lemma keepsBut_delete (he : c.entry? h = some e) : c.KeepsBut e.reference (c.delete h) := by
  rcases c.delete_cases he with ⟨-, hd⟩ | ⟨-, hd⟩ | ⟨-, hd⟩ <;> rw [hd]
  · have left := keepsBut_detach he
    exact ⟨left.keeping, left.outlines, left.files⟩
  · exact keepsBut_detach he
  · exact ⟨rfl, fun _ _ => rfl, fun _ _ => rfl⟩

/-- Where the slot is not another one's, it is empty afterwards, and nothing is kept for the entry. -/
lemma givenUp_delete (he : c.entry? h = some e) (hs : ∀ k, c.get? e.reference.raw = some k → k = h) :
    (c.delete h).get? e.reference.raw = none ∧ (c.delete h).GivenUp h := by
  rcases c.delete_cases he with ⟨own, hd⟩ | ⟨empty, hd⟩ | ⟨⟨k, hk, other⟩, -⟩
  · refine ⟨(get?_delete he _).trans (if_pos ⟨rfl, own⟩), ?_⟩
    rw [hd]
    exact givenUp_detach he
  · refine ⟨(get?_delete he _).trans ?_, ?_⟩
    · rw [empty, ite_self]
    · rw [hd]
      exact givenUp_detach he
  · exact absurd (hs k other) hk

/-! ### Deleting again -/

variable (c h)

lemma modifyEntry_invalidated_twice :
    (c.modifyEntry h Entry.invalidated).modifyEntry h Entry.invalidated = c.modifyEntry h Entry.invalidated := by
  have twice : (c.entries.modify h Entry.invalidated).modify h Entry.invalidated =
      c.entries.modify h Entry.invalidated := by
    apply Array.ext_getElem?
    intro k
    simp only [Array.getElem?_modify]
    split
    · rw [Option.map_map]
      rfl
    · rfl
  simp only [modifyEntry, twice]

lemma dropFile_dropFile (r : Reference) : (c.dropFile r).dropFile r = c.dropFile r := by
  unfold dropFile
  cases ContentStore.fileName? r with
  | none => rfl
  | some name => cases c.store <;> simp [NamedCache.erase_erase]

/-- A file is dropped whatever else changes. -/
lemma modifyEntry_dropFile (r : Reference) (f : Entry → Entry) (outlines : NamedCache Outline) :
    { (c.dropFile r).modifyEntry h f with outlines } = dropFile { c.modifyEntry h f with outlines } r := by
  unfold dropFile
  split <;> rfl

/-- An entry is given up whatever is stored. -/
lemma detach_slots (slots : NamedCache Nat) : detach { c with slots } h = { c.detach h with slots } := by
  unfold detach dropFile
  rw [show Cache.entry? { c with slots } h = c.entry? h from rfl]
  split
  · rfl
  · split <;> rfl

lemma detach_detach : (c.detach h).detach h = c.detach h := by
  cases he : c.entry? h with
  | none =>
    have left : c.detach h = c := by simp [detach, he]
    rw [left, left]
  | some e =>
    have he' : Cache.entry? (c.detach h) h = some e.invalidated := by simp [entry?_detach, he]
    have twice := congrArg Cache.entries (c.modifyEntry_invalidated_twice h)
    rw [detach_of_some he', detach_of_some he, Entry.reference_invalidated, modifyEntry_dropFile, dropFile_dropFile,
      outlines_dropFile, NamedCache.erase_erase]
    simp only [modifyEntry] at twice ⊢
    rw [twice]

/-- Deleting an entry that is deleted changes nothing. -/
lemma delete_delete : (c.delete h).delete h = c.delete h := by
  cases he : c.entry? h with
  | none => rw [delete_of_entry?_eq_none he, delete_of_entry?_eq_none he]
  | some e =>
    have there := entry?_delete_self he
    rcases Cache.delete_cases _ there with ⟨own, -⟩ | ⟨empty, again⟩ | ⟨⟨k, hk, other⟩, again⟩
    · rw [← isCurrent_iff_of_some there, isCurrent_delete_self he] at own
      cases own
    · rw [again]
      rw [Entry.reference_invalidated] at empty
      rcases c.delete_cases he with ⟨-, hd⟩ | ⟨-, hd⟩ | ⟨⟨k, hk, other⟩, -⟩
      · rw [hd, detach_slots, detach_detach]
      · rw [hd, detach_detach]
      · rw [get?_delete he, if_neg (fun own => hk (Option.some.inj (other.symm.trans own.2))), other] at empty
        cases empty
    · rw [again]
      rw [Entry.reference_invalidated, get?_delete he] at other
      split at other
      · cases other
      · rw [delete_of_replaced he other hk, modifyEntry_invalidated_twice]

end Cache

/-- Every program is a run, and whatever entry is deleted after whatever run: it stops being available,
leaves its slot and is never stored again; where the slot of its text is another one's by then, the
slots, the outlines and the files stay as they are; where it is not, the slot is empty afterwards,
and the outline and the file under the key of the entry are gone; every other entry stays as it is
and where it is, the slots of other texts are left, and nothing is lost under other keys; and to
delete the entry again changes nothing. -/
theorem delete_frame (keep : Retention) (now : Time.Instant) (store : Option ContentStore) :
    (∀ ops, (State.initial now store).Yields keep (Op.sightsAll keep { now, store } ops)
        (State.idle (Op.runAll keep { now, store } ops))) ∧
      ∀ es h e, let s := (State.initial now store).run keep es
        let t := s.step keep (.act (.delete h))
        s.cache.entry? h = some e →
          t.cache.entry? h = some { e with available := false } ∧
          (∀ fs, (t.run keep fs).cache.isCurrent h = false) ∧
          (∀ k, s.cache.get? e.reference.raw = some k → k ≠ h →
            t.cache.slots = s.cache.slots ∧ t.cache.outlines = s.cache.outlines ∧ t.cache.store = s.cache.store) ∧
          ((∀ k, s.cache.get? e.reference.raw = some k → k = h) →
            t.cache.get? e.reference.raw = none ∧ t.cache.GivenUp h) ∧
          (∀ k, k ≠ h → s.cache.SameAt t.cache k) ∧
          (∀ raw, raw ≠ e.reference.raw → t.cache.get? raw = s.cache.get? raw) ∧
          s.cache.KeepsBut e.reference t.cache ∧
          t.cache.now = s.cache.now ∧ t.stage = s.stage ∧
          t.step keep (.act (.delete h)) = t := by
  refine ⟨fun ops => State.yields_runAll _ ops, fun es h e => ?_⟩
  intro s t he
  have sound : s.Sound := State.run_induction (fun _ ev hs => hs.step ev) (State.Sound.initial now store) es
  have there : t.cache.entry? h = some e.invalidated := Cache.entry?_delete_self he
  refine ⟨there, fun fs => ?_, fun k hs hk => ?_, Cache.givenUp_delete he, fun k hk => Cache.sameAt_delete he hk,
    fun raw hr => Cache.get?_delete_of_ne he hr, Cache.keepsBut_delete he, s.cache.now_delete h, rfl, ?_⟩
  · exact State.isCurrent_run_eq_false (sound.step _) there (Cache.isCurrent_delete_self he) fs
  · rw [show t.cache = s.cache.modifyEntry h Entry.invalidated from Cache.delete_of_replaced he hs hk]
    exact ⟨rfl, rfl, rfl⟩
  · exact congrArg (fun c => { s with cache := c }) (s.cache.delete_delete h)

end CiWorkflow.Resolution
