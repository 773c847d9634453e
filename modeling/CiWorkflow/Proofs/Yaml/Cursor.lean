import CiWorkflow.Text.Slice
import CiWorkflow.Yaml.Lexeme
import Mathlib.Tactic.Lemma

/-!
# Cursors that move on

Whatever reads a text from a cursor on answers a cursor further on in the same text. The offset of
such a cursor counts the bytes in front of it, so it never cuts a character.
-/

namespace CiWorkflow

namespace Text

@[simp] lemma byteLength_append (s t : List Char) : byteLength (s ++ t) = byteLength s + byteLength t := by
  induction s with
  | nil => simp [byteLength]
  | cons c s ih => simp only [List.cons_append, byteLength, ih]; omega

/-- A place between two characters of a text, or at one of its ends. -/
def IsCut (s : List Char) (n : Nat) : Prop := ∃ a b, s = a ++ b ∧ byteLength a = n

lemma IsCut.le {s : List Char} {n : Nat} (h : IsCut s n) : n ≤ byteLength s := by
  obtain ⟨a, b, rfl, rfl⟩ := h
  rw [byteLength_append]
  omega

lemma isCut_zero (s : List Char) : IsCut s 0 := ⟨[], s, rfl, rfl⟩

lemma isCut_byteLength (s : List Char) : IsCut s (byteLength s) := ⟨s, [], (List.append_nil s).symm, rfl⟩

lemma dropBytes_byteLength (a b : List Char) : dropBytes (byteLength a) (a ++ b) = some b := by
  induction a with
  | nil => cases b <;> rfl
  | cons c a ih =>
    have hc := c.utf8Size_pos
    obtain ⟨n, hn⟩ : ∃ n, c.utf8Size + byteLength a = n + 1 := ⟨c.utf8Size + byteLength a - 1, by omega⟩
    rw [byteLength, hn, List.cons_append, dropBytes, if_pos (by omega), ← hn, Nat.add_sub_cancel_left]
    exact ih

lemma takeBytes_byteLength (a b : List Char) : takeBytes (byteLength a) (a ++ b) = some a := by
  induction a with
  | nil => cases b <;> rfl
  | cons c a ih =>
    have hc := c.utf8Size_pos
    obtain ⟨n, hn⟩ : ∃ n, c.utf8Size + byteLength a = n + 1 := ⟨c.utf8Size + byteLength a - 1, by omega⟩
    rw [byteLength, hn, List.cons_append, takeBytes, if_pos (by omega), ← hn, Nat.add_sub_cancel_left, ih]
    rfl

/-- Two cuts part a text in three. -/
lemma exists_parts {s : List Char} {m n : Nat} (hm : IsCut s m) (hn : IsCut s n) (hmn : m ≤ n) :
    ∃ a b c, s = a ++ (b ++ c) ∧ byteLength a = m ∧ byteLength (a ++ b) = n := by
  obtain ⟨a, b, rfl, rfl⟩ := hm
  obtain ⟨a', b', hs, rfl⟩ := hn
  -- the first cut does not lie behind the second one
  rcases List.append_eq_append_iff.mp hs with ⟨c, rfl, rfl⟩ | ⟨c, rfl, rfl⟩
  · exact ⟨a, c, b', rfl, rfl, rfl⟩
  · rw [byteLength_append] at hmn
    cases c with
    | nil => exact ⟨a', [], b, by simp, by simp, by simp⟩
    | cons x c =>
      have hx := x.utf8Size_pos
      rw [byteLength] at hmn
      omega

lemma slice_append (a b c : List Char) :
    slice (a ++ (b ++ c)) (byteLength a) (byteLength (a ++ b)) = some b := by
  rw [byteLength_append, slice, if_pos (Nat.le_add_right _ _), dropBytes_byteLength, Option.bind_some,
    Nat.add_sub_cancel_left]
  exact takeBytes_byteLength b c

/-- Between two cuts a text has a slice. -/
lemma exists_slice {s : List Char} {m n : Nat} (hm : IsCut s m) (hn : IsCut s n) (hmn : m ≤ n) :
    ∃ t, slice s m n = some t := by
  obtain ⟨a, b, c, rfl, rfl, rfl⟩ := exists_parts hm hn hmn
  exact ⟨b, slice_append a b c⟩

end Text

namespace Yaml

open Text (byteLength IsCut)

lemma Position.offset_after (p : Position) (c : Char) : (p.after c).offset = p.offset + c.utf8Size := by
  unfold Position.after
  split <;> rfl

namespace Cursor

/-- `e` is `p`, or a place further on in the same text. -/
def Reaches (p e : Cursor) : Prop := ∃ cs, p.rest = cs ++ e.rest ∧ e.offset = p.offset + byteLength cs

variable {b p q e stop : Cursor}

namespace Reaches

lemma refl (p : Cursor) : p.Reaches p := ⟨[], rfl, rfl⟩

lemma trans (h : p.Reaches q) (h' : q.Reaches e) : p.Reaches e := by
  obtain ⟨cs, hr, ho⟩ := h
  obtain ⟨ds, hr', ho'⟩ := h'
  refine ⟨cs ++ ds, by rw [hr, hr', List.append_assoc], ?_⟩
  rw [ho', ho, Text.byteLength_append]
  omega

lemma offset_le (h : p.Reaches e) : p.offset ≤ e.offset := by
  obtain ⟨cs, -, ho⟩ := h
  omega

/-- One character further on. -/
lemma after {pos : Position} {c : Char} {r : List Char} (h : b.Reaches ⟨pos, c :: r⟩) : b.Reaches ⟨pos.after c, r⟩ := by
  refine h.trans ⟨[c], rfl, ?_⟩
  rw [Position.offset_after]
  rfl

lemma next (h : b.Reaches p) : b.Reaches p.next := by
  obtain ⟨pos, rest⟩ := p
  unfold Cursor.next
  cases rest with
  | nil => exact h
  | cons c r => exact h.after

lemma skip (h : b.Reaches p) (n : Nat) : b.Reaches (p.skip n) := by
  induction n generalizing p with
  | zero => exact h
  | succ n ih => exact ih h.next

end Reaches

lemma offset_lt_next (h : p.rest ≠ []) : p.offset < p.next.offset := by
  unfold Cursor.next
  cases hr : p.rest with
  | nil => exact absurd hr h
  | cons c r =>
    have hc := c.utf8Size_pos
    simp only [Position.offset_after]
    omega

lemma rest_ne_nil_of_head? {c : Char} (h : p.rest.head? = some c) : p.rest ≠ [] := by
  intro hn
  rw [hn] at h
  cases h

lemma rest_ne_nil_of_atIndicator {c : Char} (h : p.atIndicator c = true) : p.rest ≠ [] := by
  simp only [atIndicator, Bool.and_eq_true, beq_iff_eq] at h
  exact rest_ne_nil_of_head? h.1

/-- A reader that took a character first has moved on. -/
lemma Reaches.offset_lt (h : p.next.Reaches e) (hp : p.rest ≠ []) : p.offset < e.offset :=
  Nat.lt_of_lt_of_le (offset_lt_next hp) h.offset_le

/-- A cursor stands in a text. -/
def In (source : List Char) (p : Cursor) : Prop := Reaches ⟨⟨0, 0, 0⟩, source⟩ p

lemma In.isCut {source : List Char} (h : p.In source) : IsCut source p.offset := by
  obtain ⟨cs, hr, ho⟩ := h
  exact ⟨cs, p.rest, hr, by simpa using ho.symm⟩

end Cursor

/-! ### Gaps -/

open Cursor (Reaches)

lemma reaches_scan {b mark : Cursor} {s : List Char} {pos : Position} (spaces : Nat) (tab : Bool)
    (opened : Option Nat) (comments : List ConcreteTree) (hb : b.Reaches mark) (hm : mark.Reaches ⟨pos, s⟩) :
    b.Reaches (Gap.scan s pos mark spaces tab opened comments).mark ∧
      (Gap.scan s pos mark spaces tab opened comments).mark.Reaches
        (Gap.scan s pos mark spaces tab opened comments).ahead := by
  fun_induction Gap.scan s pos mark spaces tab opened comments with
  | case1 => exact ⟨hb, hm⟩
  | case2 => exact ⟨hb.trans hm, Reaches.refl _⟩
  | case3 _ _ _ _ _ _ _ _ _ ih => exact ih (hb.trans hm) (Reaches.refl _).after
  | case4 _ _ _ _ _ _ _ _ _ ih => exact ih hb hm.after
  | case5 _ _ _ _ _ _ _ _ ih => exact ih hb hm.after
  | case6 _ _ _ _ _ _ _ ih => exact ih hb hm.after
  | case7 _ _ _ _ _ _ _ _ ih => exact ih hb hm.after
  | case8 _ _ _ _ _ _ _ _ _ _ _ ih => exact ih hb hm.after
  | case9 => exact ⟨hb, hm⟩

namespace Cursor

variable {b p : Cursor}

lemma Reaches.mark (h : b.Reaches p) : b.Reaches p.gap.mark :=
  (reaches_scan 0 false none [] h (refl p)).1

lemma reaches_ahead (p : Cursor) : p.gap.mark.Reaches p.gap.ahead :=
  (reaches_scan 0 false none [] (Reaches.refl p) (Reaches.refl p)).2

lemma Reaches.ahead (h : b.Reaches p) : b.Reaches p.gap.ahead := h.mark.trans p.reaches_ahead

end Cursor

/-! ### Lexemes -/

section lexemes

variable {b p e stop : Cursor} {s : List Char} {pos : Position} {margin : Nat}

lemma reaches_skipBlank (h : b.Reaches ⟨pos, s⟩) : b.Reaches (skipBlank s pos) := by
  fun_induction skipBlank s pos with
  | case1 => exact h
  | case2 _ _ _ _ ih => exact ih h.after
  | case3 => exact h

lemma reaches_skipWhile (f : Char → Bool) (h : b.Reaches ⟨pos, s⟩) : b.Reaches (skipWhile f s pos) := by
  fun_induction skipWhile f s pos with
  | case1 => exact h
  | case2 _ _ _ _ ih => exact ih h.after
  | case3 => exact h

lemma reaches_plainLine (flow afterSafe : Bool) (h : b.Reaches ⟨pos, s⟩) (hs : b.Reaches stop) :
    b.Reaches (plainLine flow s pos afterSafe stop).stop ∧ b.Reaches (plainLine flow s pos afterSafe stop).ahead := by
  fun_induction plainLine flow s pos afterSafe stop with
  | case1 => exact ⟨hs, h⟩
  | case2 _ _ _ _ _ ih => exact ih h.after h.after
  | case3 => exact ⟨hs, h.after⟩
  | case4 _ _ _ _ _ _ _ ih => exact ih h.after h.after
  | case5 _ _ _ _ _ _ _ _ ih => exact ih h.after hs
  | case6 => exact ⟨hs, h⟩

lemma reaches_plainLines (flow : Bool) (fuel : Nat) (afterSafe : Bool) (h : b.Reaches p) (hs : b.Reaches stop) :
    b.Reaches (plainLines flow margin fuel p afterSafe stop) := by
  induction fuel generalizing p afterSafe stop with
  | zero => exact hs
  | succ fuel ih =>
    obtain ⟨line, ahead⟩ := reaches_plainLine flow afterSafe h hs
    have blank := reaches_skipBlank ahead
    unfold plainLines
    dsimp only
    split
    · exact line
    · split
      · split
        · exact line
        · exact ih false blank line
      · exact line

/-- A plain scalar has at least its first character. -/
lemma reaches_plainScalar {flow : Bool} (h : plainScalar flow margin p = some e) :
    p.rest ≠ [] ∧ p.next.Reaches e := by
  unfold plainScalar at h
  split at h
  · cases h
  · rename_i c r hr
    refine ⟨by simp [hr], ?_⟩
    dsimp only at h
    split at h
    · cases h
      exact reaches_plainLines flow _ true (Reaches.refl _) (Reaches.refl _)
    · cases h

lemma reaches_doubleQuoted {lead : Lead} {escape : Escape} (hb : b.Reaches ⟨pos, s⟩)
    (h : doubleQuoted margin s pos lead escape = some e) : b.Reaches e := by
  fun_induction doubleQuoted margin s pos lead escape <;> grind [Reaches.after]

lemma reaches_singleQuoted {lead : Lead} (hb : b.Reaches ⟨pos, s⟩) (h : singleQuoted margin s pos lead = some e) :
    b.Reaches e := by
  fun_induction singleQuoted margin s pos lead <;> grind [Reaches.after]

lemma reaches_uriRun {f : Char → Bool} (hb : b.Reaches ⟨pos, s⟩) (h : uriRun f s pos = some e) : b.Reaches e := by
  fun_induction uriRun f s pos <;> grind [Reaches.after]

lemma reaches_blockLines {lead : Lead} (hb : b.Reaches ⟨pos, s⟩) (hs : b.Reaches stop)
    (h : blockLines margin s pos stop lead = some e) : b.Reaches e := by
  fun_induction blockLines margin s pos stop lead <;> grind [Reaches.after]

lemma reaches_anchorName (hb : b.Reaches p) (h : anchorName p = some e) : b.Reaches e := by
  unfold anchorName at h
  dsimp only at h
  split at h
  · cases h
    exact reaches_skipWhile isAnchorChar hb.ahead
  · cases h

lemma reaches_tagEnd (h : tagEnd p = some e) : p.next.Reaches e := by
  have start : p.next.Reaches p.next := Reaches.refl _
  unfold tagEnd at h
  dsimp only at h
  split at h
  · cases h
    exact start
  · split at h
    · obtain ⟨q, hq, he⟩ := Option.bind_eq_some_iff.mp h
      have named := reaches_uriRun start.next hq
      split at he
      · cases he
        exact named.next
      · cases he
    · have word := reaches_skipWhile isWordChar start
      split at h
      · split at h
        · cases h
        · exact reaches_uriRun word.next h
      · split at h
        · cases h
        · exact reaches_uriRun start h

lemma reaches_blockHeader {told : Option Nat} (h : blockHeader p = some (e, told)) : p.next.Reaches e := by
  unfold blockHeader at h
  extract_lets sign digit q at h
  have start : p.next.Reaches q := Reaches.refl _
  have signed {q' : Cursor} (hq : p.next.Reaches q') : p.next.Reaches (sign q') := by
    dsimp only [sign]
    split
    · exact hq.next
    · exact hq
  cases hd : digit q with
  | some n =>
    simp only [hd] at h
    split at h
    · cases h
      exact signed start.next
    · cases h
  | none =>
    cases hs : digit (sign q) with
    | none =>
      simp only [hd, hs] at h
      split at h
      · cases h
        exact signed start
      · cases h
    | some n =>
      simp only [hd, hs] at h
      by_cases same : (sign q).offset = q.offset
      · rw [if_pos same] at h
        split at h
        · cases h
          exact start
        · cases h
      · rw [if_neg same] at h
        split at h
        · cases h
          exact (signed start).next
        · cases h

/-- A block scalar has at least its indicator. -/
lemma reaches_blockScalar (h : blockScalar margin p = some e) : p.next.Reaches e := by
  unfold blockScalar at h
  obtain ⟨⟨header, told⟩, hh, h⟩ := Option.bind_eq_some_iff.mp h
  have start := reaches_blockHeader hh
  have line := reaches_skipWhile (fun c => !isBreak c) start
  dsimp only at h
  split at h
  · exact reaches_blockLines line start h
  · split at h
    · exact reaches_blockLines line line h
    · cases h

end lexemes

end Yaml

end CiWorkflow
