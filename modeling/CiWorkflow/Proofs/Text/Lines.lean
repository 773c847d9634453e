import CiWorkflow.Text.Lines
import Mathlib.Data.List.Basic
import Mathlib.Tactic.Lemma

/-!
# Lines that are read back

Lines without line feeds and without a carriage return at their end are read back from the text in
which each stands below the one before, whether the last one is ended or not. Only an empty last line
that is not ended leaves no trace.
-/

namespace CiWorkflow.Text

variable {l : List Char} {ls : List (List Char)}

/-- Nothing in a line ends it, nor is taken for a part of its end. -/
structure IsLine (l : List Char) : Prop where
  feed : '\n' ∉ l
  carriage : l.getLast? ≠ some '\r'

/-- The text in which lines stand one below the other. The last one is not ended. -/
def joined (ls : List (List Char)) : List Char := ['\n'].intercalate ls

@[simp] lemma joined_nil : joined [] = [] := rfl

@[simp] lemma joined_singleton (l : List Char) : joined [l] = l := by simp [joined]

lemma joined_cons (l : List Char) (h : ls ≠ []) : joined (l :: ls) = l ++ '\n' :: joined ls := by
  obtain ⟨l', ls, rfl⟩ := List.exists_cons_of_ne_nil h
  simp [joined, List.intercalate_cons_cons]

/-! ### Reading -/

lemma lines_cons {c : Char} {r : List Char} (hf : c ≠ '\n') (hc : c = '\r' → ∀ r', r ≠ '\n' :: r') :
    lines (c :: r) =
      match lines r with
      | [] => [[c]]
      | l :: ls => (c :: l) :: ls :=
  lines.eq_4 c r hf fun r' h hr => hc h r' hr

/-- The first line is read up to its end. -/
lemma lines_append (h : IsLine l) (rest : List Char) : lines (l ++ '\n' :: rest) = l :: lines rest := by
  induction l with
  | nil => rfl
  | cons c l ih =>
    obtain ⟨hf, hc⟩ := h
    rw [List.mem_cons, not_or] at hf
    have apart : c = '\r' → ∀ r', l ++ '\n' :: rest ≠ '\n' :: r' := by
      rintro rfl r' hr
      cases l with
      | nil => exact hc rfl
      | cons d l =>
        obtain rfl : d = '\n' := (List.cons.inj hr).1
        exact hf.2 List.mem_cons_self
    have tail : IsLine l := by
      refine ⟨hf.2, fun hl => hc ?_⟩
      rw [List.getLast?_cons, hl]
      rfl
    rw [List.cons_append, lines_cons (Ne.symm hf.1) apart, ih tail]

/-- A last line is read without its end, where there is anything in it. -/
lemma lines_of_feed_not_mem (h : '\n' ∉ l) : lines l = if l = [] then [] else [l] := by
  induction l with
  | nil => rfl
  | cons c l ih =>
    rw [List.mem_cons, not_or] at h
    have apart : c = '\r' → ∀ r', l ≠ '\n' :: r' := by
      rintro - r' rfl
      exact h.2 List.mem_cons_self
    rw [lines_cons (Ne.symm h.1) apart, ih h.2, if_neg (List.cons_ne_nil c l)]
    split_ifs with hl
    · rw [hl]
    · rfl

lemma lines_joined_ended (hne : ls ≠ []) (h : ∀ l ∈ ls, IsLine l) : lines (joined ls ++ ['\n']) = ls := by
  induction ls with
  | nil => exact absurd rfl hne
  | cons l ls ih =>
    have line := h l List.mem_cons_self
    by_cases hls : ls = []
    · rw [hls, joined_singleton, lines_append line]
      rfl
    · rw [joined_cons l hls, List.append_assoc, List.cons_append, lines_append line,
        ih hls fun l hl => h l (List.mem_cons_of_mem _ hl)]

lemma lines_joined (h : ∀ l ∈ ls, IsLine l) : lines (joined ls) = ls ∨ lines (joined ls) ++ [[]] = ls := by
  induction ls with
  | nil => exact Or.inl rfl
  | cons l ls ih =>
    have line := h l List.mem_cons_self
    by_cases hls : ls = []
    · rw [hls, joined_singleton, lines_of_feed_not_mem line.feed]
      split_ifs with hl
      · exact Or.inr (by rw [hl]; rfl)
      · exact Or.inl rfl
    · rw [joined_cons l hls, lines_append line]
      refine (ih fun l hl => h l (List.mem_cons_of_mem _ hl)).imp (fun same => ?_) fun same => ?_
      · rw [same]
      · rw [List.cons_append, same]

/-- What is read are lines. -/
lemma feed_not_mem_of_mem_lines {s : List Char} (h : l ∈ lines s) : '\n' ∉ l := by
  fun_induction lines s generalizing l with
  | case1 => cases h
  | case2 r ih =>
    rcases List.mem_cons.mp h with rfl | h
    · exact List.not_mem_nil
    · exact ih h
  | case3 r ih =>
    rcases List.mem_cons.mp h with rfl | h
    · exact List.not_mem_nil
    · exact ih h
  | case4 c r hf hc hr ih =>
    rw [List.mem_singleton.mp h, List.mem_singleton]
    exact fun hc => hf hc.symm
  | case5 c r hf hc l' ls hr ih =>
    rcases List.mem_cons.mp h with rfl | h
    · rw [List.mem_cons, not_or]
      exact ⟨fun hc => hf hc.symm, ih (by rw [hr]; exact List.mem_cons_self)⟩
    · exact ih (by rw [hr]; exact List.mem_cons_of_mem _ h)

end CiWorkflow.Text
