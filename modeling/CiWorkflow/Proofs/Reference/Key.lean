import CiWorkflow.Reference.Key
import CiWorkflow.Reference.Location
import Mathlib.Data.Set.Basic
import Mathlib.Tactic.Lemma

/-!
# What a key tells apart

A key ends in sixteen digits of a digest, so it determines that part and the readable part before
it. The digest is of the text without the blanks around it: keys cannot tell texts apart that differ
in nothing else, and they tell all others apart unless their digests collide.
-/

namespace CiWorkflow

namespace Digest

lemma length_sha256 (m : List UInt8) : (sha256 m).length = 32 := by
  simp [sha256, bytesOf]

lemma length_hex (bytes : List UInt8) : (hex bytes).length = 2 * bytes.length := by
  induction bytes with
  | nil => rfl
  | cons b bs ih =>
    have h : hex (b :: bs) = [Text.hexDigit (b.toNat / 16), Text.hexDigit (b.toNat % 16)] ++ hex bs := rfl
    rw [h, List.length_append, ih, List.length_cons]
    simp only [List.length_cons, List.length_nil]
    omega

end Digest

namespace Reference

variable {r s : Reference}

/-! ### The parts of a key -/

lemma length_storageKey (r : Reference) : r.storageKey.toList.length = 16 := by
  unfold storageKey
  rw [String.toList_ofList, Digest.length_hex, List.length_take, Digest.length_sha256]
  rfl

/-- A key is as good as its two parts. -/
lemma contentKey_eq_iff :
    r.contentKey = s.contentKey ↔ r.cacheId = s.cacheId ∧ r.storageKey = s.storageKey := by
  constructor
  · intro h
    have h' := congrArg String.toList h
    simp only [contentKey, String.toList_append] at h'
    obtain ⟨front, back⟩ := List.append_inj' h' (by rw [length_storageKey, length_storageKey])
    obtain ⟨front, -⟩ := List.append_inj' front rfl
    exact ⟨String.toList_inj.mp front, String.toList_inj.mp back⟩
  · rintro ⟨hc, hs⟩
    rw [contentKey, contentKey, hc, hs]

lemma storageKey_congr (h : r.text = s.text) : r.storageKey = s.storageKey := by
  unfold storageKey
  rw [h]

/-! ### References of texts -/

lemma isResolvable_of_location? {l : String} (h : r.location? = some l) : r.isResolvable = true := by
  unfold location? rawUrl? at h
  unfold isResolvable
  cases ht : r.target with
  | unparsable => simp [ht] at h
  | action o p q f => rfl
  | workflow o p n f => rfl
  | inProject p => rfl

lemma exists_location? (h : r.isResolvable = true) : ∃ l, r.location? = some l := by
  unfold isResolvable at h
  unfold location? rawUrl?
  cases ht : r.target with
  | unparsable => simp [ht] at h
  | action o p q f => exact ⟨_, rfl⟩
  | workflow o p n f => exact ⟨_, rfl⟩
  | inProject p => exact ⟨_, rfl⟩

/-- Blanks around a text make no difference to what it names. -/
lemma target_ofText_congr {a b : String} (h : (ofText a).text = (ofText b).text) :
    (ofText a).target = (ofText b).target :=
  congrArg targetOf h

lemma contentKey_ofText_congr {a b : String} (h : (ofText a).text = (ofText b).text) :
    (ofText a).contentKey = (ofText b).contentKey := by
  rw [contentKey_eq_iff]
  refine ⟨?_, storageKey_congr h⟩
  have ht := target_ofText_congr h
  unfold cacheId name subpath ref
  rw [ht, h]

/-- No two texts of a set collide in the eight bytes of their digests. -/
def NoCollision (R : Set String) : Prop :=
  ∀ a ∈ R, ∀ b ∈ R, (ofText a).storageKey = (ofText b).storageKey → (ofText a).text = (ofText b).text

/-- Where no digests collide, keys tell texts apart up to the blanks around them. -/
lemma contentKey_ofText_eq_iff {R : Set String} (hR : NoCollision R) {a b : String} (ha : a ∈ R)
    (hb : b ∈ R) :
    (ofText a).contentKey = (ofText b).contentKey ↔ (ofText a).text = (ofText b).text := by
  constructor
  · intro h
    exact hR a ha b hb (contentKey_eq_iff.mp h).2
  · exact contentKey_ofText_congr

end Reference

end CiWorkflow
