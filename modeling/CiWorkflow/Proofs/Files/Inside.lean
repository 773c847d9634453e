import CiWorkflow.Files.Project
import CiWorkflow.Proofs.Files.Components
import Mathlib.Data.List.Infix
import Mathlib.Logic.Relation

/-!
# Paths that stay inside

A path in a project is read by letting each `..` cancel the name before it. This comes to an end
without a `..` exactly where no beginning of the path has more of them than names; the names that are
left do not depend on the order, and they lead down from the top directory of the project.
-/

namespace CiWorkflow.Files

open Relation (ReflTransGen)

variable {s : String} {l m before written names kept kept' : List String}

/-! ### Cancelling -/

/-- A segment that says nothing is dropped, or a `..` together with the name right before it. -/
inductive Cancels : List String → List String → Prop
  | silent {s : String} (front back : List String) (h : s = "" ∨ s = ".") : Cancels (front ++ s :: back) (front ++ back)
  | up {s : String} (front back : List String) (h : IsName s) :
      Cancels (front ++ s :: parentName :: back) (front ++ back)

/-- The names that are left of the segments of a path when each `..` has cancelled the nearest name
before it. -/
def Leaves (written names : List String) : Prop := ReflTransGen Cancels written names ∧ ∀ s ∈ names, IsName s

/-- No beginning of a path has more `..` than names. -/
def NeverAbove (written : List String) : Prop :=
  ∀ before, before <+: written → before.count parentName ≤ before.countP fun s => IsName s

/-- Segments say nothing, lead up, or are names. -/
lemma segment_cases (s : String) : (s = "" ∨ s = ".") ∨ s = parentName ∨ IsName s := by
  unfold IsName
  tauto

lemma Cancels.mem (h : Cancels l m) (hs : s ∈ m) : s ∈ l := by
  cases h <;> simp only [List.mem_append, List.mem_cons] at hs ⊢ <;> tauto

lemma Leaves.mem (h : Leaves written names) (hs : s ∈ names) : s ∈ written := by
  obtain ⟨h, -⟩ := h
  induction h with
  | refl => exact hs
  | tail _ step ih => exact ih (step.mem hs)

/-! ### Settling -/

/-- Adds segments to the names that are kept, last one first. -/
def settleAll (kept l : List String) : Option (List String) :=
  (l.filter fun s => s != "" && s != ".").foldlM settleStep kept

lemma settle?_components (path : String) :
    settle? (components path) = (settleAll [] (segments path)).map List.reverse := rfl

@[simp] lemma settleAll_nil (kept : List String) : settleAll kept [] = some kept := rfl

lemma settleAll_silent (h : s = "" ∨ s = ".") (kept l : List String) : settleAll kept (s :: l) = settleAll kept l := by
  unfold settleAll
  rw [List.filter_cons_of_neg (by simp only [Bool.and_eq_true, bne_iff_ne]; tauto)]

lemma settleAll_up (kept l : List String) :
    settleAll kept (parentName :: l) = match kept with
      | [] => none
      | _ :: r => settleAll r l := by
  unfold settleAll
  rw [List.filter_cons_of_pos (by decide), List.foldlM_cons]
  cases kept <;> simp [settleStep]

lemma settleAll_name (h : IsName s) (kept l : List String) : settleAll kept (s :: l) = settleAll (s :: kept) l := by
  obtain ⟨ne, dot, back⟩ := h
  have step : settleStep kept s = some (s :: kept) := if_neg back
  unfold settleAll
  rw [List.filter_cons_of_pos (by simp [ne, dot]), List.foldlM_cons, step]
  rfl

lemma settleAll_append (kept l m : List String) :
    settleAll kept (l ++ m) = (settleAll kept l).bind fun kept' => settleAll kept' m := by
  unfold settleAll
  rw [List.filter_append, List.foldlM_append]
  rfl

/-- The names that are kept are what is left of them and the segments. -/
lemma leaves_of_settleAll (h : settleAll kept l = some kept') (hk : ∀ s ∈ kept, IsName s) :
    Leaves (kept.reverse ++ l) kept'.reverse := by
  induction l generalizing kept with
  | nil =>
    cases h
    rw [List.append_nil]
    exact ⟨ReflTransGen.refl, fun s hs => hk s (List.mem_reverse.mp hs)⟩
  | cons s l ih =>
    rcases segment_cases s with silent | rfl | name
    · rw [settleAll_silent silent] at h
      obtain ⟨rest, all⟩ := ih h hk
      exact ⟨ReflTransGen.head (.silent _ _ silent) rest, all⟩
    · rw [settleAll_up] at h
      cases kept with
      | nil => cases h
      | cons n r =>
        obtain ⟨rest, all⟩ := ih h fun s hs => hk s (List.mem_cons_of_mem n hs)
        rw [List.reverse_cons, List.append_assoc]
        exact ⟨ReflTransGen.head (.up _ _ (hk n List.mem_cons_self)) rest, all⟩
    · rw [settleAll_name name] at h
      have grown : ∀ t ∈ s :: kept, IsName t := List.forall_mem_cons.mpr ⟨name, hk⟩
      simpa using ih h grown

/-- Cancelling makes no difference to the names that are kept in the end. -/
lemma Cancels.settleAll_eq (h : Cancels l m) (kept : List String) : settleAll kept l = settleAll kept m := by
  cases h with
  | silent front back hs =>
    rw [settleAll_append, settleAll_append]
    exact Option.bind_congr fun kept' _ => settleAll_silent hs kept' back
  | up front back hs =>
    rw [settleAll_append, settleAll_append]
    refine Option.bind_congr fun kept' _ => ?_
    rw [settleAll_name hs, settleAll_up]

lemma settleAll_names (h : ∀ s ∈ names, IsName s) (kept : List String) :
    settleAll kept names = some (names.reverse ++ kept) := by
  induction names generalizing kept with
  | nil => rfl
  | cons s names ih =>
    obtain ⟨name, rest⟩ := List.forall_mem_cons.mp h
    rw [settleAll_name name, ih rest]
    simp

/-- What is left does not depend on the order in which it is cancelled. -/
lemma settleAll_eq_some_iff : settleAll [] written = some names.reverse ↔ Leaves written names := by
  constructor
  · intro h
    simpa using leaves_of_settleAll h (by simp)
  · rintro ⟨h, all⟩
    induction h using ReflTransGen.head_induction_on with
    | refl => simpa using settleAll_names all []
    | head step _ ih => rw [step.settleAll_eq, ih]

lemma Leaves.unique (h : Leaves written names) (h' : Leaves written l) : names = l := by
  rw [← settleAll_eq_some_iff] at h h'
  rw [h] at h'
  exact List.reverse_injective (Option.some.inj h')

lemma settle?_eq_some_iff (path : String) : settle? (components path) = some names ↔ Leaves (segments path) names := by
  rw [settle?_components, ← settleAll_eq_some_iff, Option.map_eq_some_iff]
  constructor
  · rintro ⟨kept, h, rfl⟩
    rwa [List.reverse_reverse]
  · intro h
    exact ⟨_, h, List.reverse_reverse names⟩

/-! ### Counting -/

lemma forall_prefix_cons_iff {P : List String → Prop} :
    (∀ before, before <+: s :: l → P before) ↔ P [] ∧ ∀ before, before <+: l → P (s :: before) := by
  constructor
  · intro h
    exact ⟨h [] List.nil_prefix, fun before hb => h _ ((List.prefix_cons_inj s).mpr hb)⟩
  · rintro ⟨nil, cons⟩ before hb
    rcases List.prefix_cons_iff.mp hb with rfl | ⟨t, rfl, ht⟩
    · exact nil
    · exact cons t ht

/-- Settling goes through where no beginning leads up more often than there are names to take back. -/
lemma isSome_settleAll_iff : (settleAll kept l).isSome ↔
    ∀ before, before <+: l → before.count parentName ≤ kept.length + before.countP fun s => IsName s := by
  induction l generalizing kept with
  | nil => simp
  | cons s l ih =>
    rw [forall_prefix_cons_iff, and_iff_right (by simp)]
    rcases segment_cases s with silent | rfl | name
    · have up : s ≠ parentName := by
        rintro rfl
        revert silent
        decide
      have name : ¬ IsName s := by unfold IsName; tauto
      rw [settleAll_silent silent, ih]
      simp [name, up]
    · have name : ¬ IsName parentName := by decide
      rw [settleAll_up]
      cases kept with
      | nil =>
        refine iff_of_false (by simp) fun h => ?_
        have := h [] List.nil_prefix
        simp [name] at this
      | cons n r =>
        rw [ih]
        refine forall₂_congr fun before _ => ?_
        rw [List.count_cons_self, List.countP_cons_of_neg (by simpa using name), List.length_cons]
        omega
    · rw [settleAll_name name, ih]
      refine forall₂_congr fun before _ => ?_
      rw [List.count_cons_of_ne name.2.2, List.countP_cons_of_pos (by simpa using name), List.length_cons]
      omega

lemma exists_leaves_iff : (∃ names, Leaves written names) ↔ NeverAbove written := by
  have count : (settleAll [] written).isSome ↔ _ := isSome_settleAll_iff
  simp only [List.length_nil, Nat.zero_add] at count
  rw [NeverAbove, ← count, Option.isSome_iff_exists]
  constructor
  · rintro ⟨names, h⟩
    exact ⟨_, settleAll_eq_some_iff.mpr h⟩
  · rintro ⟨kept, h⟩
    refine ⟨kept.reverse, settleAll_eq_some_iff.mp ?_⟩
    rwa [List.reverse_reverse]

end CiWorkflow.Files
