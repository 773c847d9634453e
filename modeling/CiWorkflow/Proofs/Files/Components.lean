import CiWorkflow.Files.Tree
import Mathlib.Data.List.Basic
import Mathlib.Tactic.Lemma

/-!
# The segments of a path

Slashes cut a path into segments. Putting a path behind another one puts its segments behind those of
the other one, and on a file tree it leads from where the other one leads.
-/

namespace CiWorkflow.Files

variable {a b s path base : String} {l names : List String}

/-! ### Segments -/

/-- What stands between the slashes of a path. -/
def segments (path : String) : List String := (path.toList.splitOn '/').map String.ofList

/-- A segment that leads on: it is neither empty nor `.` nor `..`. -/
def IsName (s : String) : Prop := s ≠ "" ∧ s ≠ "." ∧ s ≠ parentName

instance : DecidablePred IsName := fun _ => inferInstanceAs (Decidable (_ ∧ _))

lemma not_mem_of_mem_splitOn {sep : Char} {cs l : List Char} (h : l ∈ cs.splitOn sep) : sep ∉ l := by
  induction cs generalizing l with
  | nil =>
    obtain rfl : l = [] := by simpa using h
    exact List.not_mem_nil
  | cons c cs ih =>
    rw [List.splitOn_cons_eq_if_modifyHead] at h
    split at h
    · rcases List.mem_cons.mp h with rfl | h
      · exact List.not_mem_nil
      · exact ih h
    · rename_i hc
      have other : sep ≠ c := fun same => hc (beq_iff_eq.mpr same.symm)
      cases hs : cs.splitOn sep with
      | nil => exact absurd hs (List.splitOn_ne_nil sep cs)
      | cons first rest =>
        rw [hs] at h ih
        rcases List.mem_cons.mp h with rfl | h
        · simp [other, ih List.mem_cons_self]
        · exact ih (List.mem_cons_of_mem _ h)

lemma not_mem_of_mem_segments (h : s ∈ segments path) : '/' ∉ s.toList := by
  obtain ⟨l, hl, rfl⟩ := List.mem_map.mp h
  rw [String.toList_ofList]
  exact not_mem_of_mem_splitOn hl

lemma segments_append (a b : String) : segments (a ++ "/" ++ b) = segments a ++ segments b := by
  have slash : (a ++ "/" ++ b).toList = a.toList ++ '/' :: b.toList := by simp
  rw [segments, slash, List.splitOn_append_cons_self, List.map_append, segments, segments]

/-- Names that are written with slashes between them are read again. -/
lemma segments_intercalate (h : names ≠ []) (whole : ∀ s ∈ names, '/' ∉ s.toList) :
    segments (String.intercalate "/" names) = names := by
  have slash : "/".toList = ['/'] := rfl
  rw [segments, String.toList_intercalate, slash, List.splitOn_intercalate]
  · simp
  · intro l hl
    obtain ⟨s, hs, rfl⟩ := List.mem_map.mp hl
    exact whole s hs
  · simpa using h

/-! ### Components -/

/-- The segments that say something are the components. -/
lemma components_eq (path : String) : components path = (segments path).filter fun s => s != "" && s != "." := rfl

lemma components_append (a b : String) : components (a ++ "/" ++ b) = components a ++ components b := by
  rw [components_eq, segments_append, List.filter_append, components_eq, components_eq]

lemma components_empty : components "" = [] := rfl

lemma filter_of_isName (h : ∀ s ∈ names, IsName s) : names.filter (fun s => s != "" && s != ".") = names := by
  refine List.filter_eq_self.mpr fun s hs => ?_
  obtain ⟨ne, dot, -⟩ := h s hs
  simp [ne, dot]

lemma components_intercalate (h : ∀ s ∈ names, IsName s) (whole : ∀ s ∈ names, '/' ∉ s.toList) :
    components (String.intercalate "/" names) = names := by
  cases names with
  | nil => rfl
  | cons s l =>
    rw [components_eq, segments_intercalate (by simp) whole]
    exact filter_of_isName h

/-! ### Joining -/

lemma isAbsolute_intercalate (h : ∀ s ∈ names, IsName s) (whole : ∀ s ∈ names, '/' ∉ s.toList) :
    isAbsolute (String.intercalate "/" names) = false := by
  cases names with
  | nil => rfl
  | cons s l =>
    have ne := (h s List.mem_cons_self).1
    have slash := whole s List.mem_cons_self
    cases hs : s.toList with
    | nil => exact absurd (String.toList_eq_nil_iff.mp hs) ne
    | cons c cs =>
      rw [hs] at slash
      have first : (String.intercalate "/" (s :: l)).toList.head? = some c := by
        cases l <;> simp [String.toList_intercalate, hs]
      rw [isAbsolute, first]
      simpa using fun h : c = '/' => slash (by simp [h])

/-- A path is put behind nothing, behind a slash that is there, or behind a slash that is added. -/
lemma join_cases (a : String) (hb : isAbsolute b = false) :
    a = "" ∧ join a b = b ∨ (∃ front, a = front ++ "/" ∧ join a b = front ++ "/" ++ b) ∨ join a b = a ++ "/" ++ b := by
  unfold join
  rw [hb]
  rcases List.eq_nil_or_concat a.toList with ha | ⟨front, c, ha⟩
  · obtain rfl := String.toList_eq_nil_iff.mp ha
    exact Or.inl ⟨rfl, by simp⟩
  · by_cases hc : c = '/'
    · have ha' : a = String.ofList front ++ "/" := by
        apply String.toList_inj.mp
        simp [ha, hc]
      refine Or.inr (Or.inl ⟨String.ofList front, ha', ?_⟩)
      simp [ha']
    · refine Or.inr (Or.inr ?_)
      simp [ha, hc]

lemma components_join (a : String) (hb : isAbsolute b = false) :
    components (join a b) = components a ++ components b := by
  rcases join_cases a hb with ⟨rfl, h⟩ | ⟨front, rfl, h⟩ | h <;> rw [h]
  · rfl
  · have last := components_append front ""
    rw [String.append_empty, components_empty, List.append_nil] at last
    rw [components_append, last]
  · exact components_append a b

/-! ### Places -/

namespace FileTree

variable {t : FileTree} {cwd p q r : Place}

lemma walk_append (p : Place) (l m : List String) : t.walk p (l ++ m) = (t.walk p l).bind fun q => t.walk q m := by
  induction l generalizing p with
  | nil => rfl
  | cons s l ih =>
    rw [List.cons_append, walk, walk]
    split_ifs
    · rfl
    · rfl
    · exact ih p
    · exact ih p.dropLast
    · exact ih (p ++ [s])

/-- Names lead down. -/
lemma walk_names (h : ∀ s ∈ names, IsName s) (hq : t.walk p names = .ok q) : q = p ++ names := by
  induction names generalizing p with
  | nil =>
    cases hq
    simp
  | cons s l ih =>
    obtain ⟨ne, dot, back⟩ := h s List.mem_cons_self
    rw [walk] at hq
    simp only [ne, dot, or_self, back, if_false] at hq
    split at hq
    · split at hq <;> cases hq
    · simpa using ih (fun s hs => h s (List.mem_cons_of_mem _ hs)) hq

/-- Segments that say nothing do not lead on. -/
lemma walk_silent (hq : t.walk p [""] = .ok q) : q = p := by
  rw [walk] at hq
  split at hq
  · split at hq <;> cases hq
  · rw [if_pos (Or.inl rfl)] at hq
    cases hq
    rfl

lemma walk_of_locate (h : t.locate cwd path = .ok q) :
    path ≠ "" ∧ t.walk (if isAbsolute path then [] else cwd) (segments path) = .ok q := by
  simp only [locate] at h
  split at h
  · cases h
  · rename_i ne
    split at h
    · cases h
    · exact ⟨ne, h⟩

lemma isAbsolute_append (ha : a ≠ "") (b : String) : isAbsolute (a ++ b) = isAbsolute a := by
  unfold isAbsolute
  cases h : a.toList with
  | nil => exact absurd (String.toList_eq_nil_iff.mp h) ha
  | cons c cs => simp [h]

/-- Where `a` leads to `r`, names that are put behind it lead down from `r`. -/
lemma locate_join (hb : isAbsolute b = false) (h : segments b = [""] ∧ names = [] ∨ segments b = names)
    (hn : ∀ s ∈ names, IsName s) (hr : t.locate cwd a = .ok r) (hq : t.locate cwd (join a b) = .ok q) :
    q = r ++ names := by
  obtain ⟨ne, hr⟩ := walk_of_locate hr
  obtain ⟨-, hq⟩ := walk_of_locate hq
  have down {p : Place} (hp : t.walk p (segments b) = .ok q) : q = p ++ names := by
    rcases h with ⟨hs, rfl⟩ | hs <;> rw [hs] at hp
    · rw [walk_silent hp, List.append_nil]
    · exact walk_names hn hp
  rcases join_cases a hb with ⟨ha, -⟩ | ⟨front, ha, hj⟩ | hj
  · exact absurd ha ne
  · -- the slash is there: `a` has a silent segment more than `front`
    have whole := segments_append front ""
    rw [String.append_empty, ← ha] at whole
    rw [hj, ← ha, isAbsolute_append ne, ha, segments_append, walk_append] at hq
    rw [whole, walk_append] at hr
    rw [← ha] at hq
    cases hf : t.walk (if isAbsolute a then [] else cwd) (segments front) with
    | error f =>
      rw [hf] at hr
      cases hr
    | ok p =>
      rw [hf] at hr hq
      rw [walk_silent hr]
      exact down hq
  · rw [hj, String.append_assoc, isAbsolute_append ne, ← String.append_assoc, segments_append, walk_append, hr] at hq
    exact down hq

end FileTree

/-! ### Where paths lead -/

/-- A path leads from a directory down by names: it is written so, and on every file tree on which both
lead somewhere its place is so many names below the directory's. -/
structure LeadsDown (base : String) (names : List String) (path : String) : Prop where
  written : path = below base names
  components : components path = components base ++ names
  places : ∀ (t : FileTree) cwd r q, t.locate cwd base = .ok r → t.locate cwd path = .ok q → q = r ++ names

lemma leadsDown_below (base : String) (h : ∀ s ∈ names, IsName s) (whole : ∀ s ∈ names, '/' ∉ s.toList) :
    LeadsDown base names (below base names) := by
  have relative := isAbsolute_intercalate h whole
  refine ⟨rfl, ?_, fun t cwd r q hr hq => FileTree.locate_join relative ?_ h hr hq⟩
  · rw [below, components_join base relative, components_intercalate h whole]
  · cases names with
    | nil => exact Or.inl ⟨rfl, rfl⟩
    | cons s l => exact Or.inr (segments_intercalate (by simp) whole)

/-- A single name leads right inside the directory. -/
lemma leadsDown_join (base : String) (h : IsName s) (whole : '/' ∉ s.toList) : LeadsDown base [s] (join base s) := by
  have single : ∀ n ∈ [s], IsName n ∧ '/' ∉ n.toList := by
    intro n hn
    rw [List.mem_singleton.mp hn]
    exact ⟨h, whole⟩
  have down := leadsDown_below base (fun n hn => (single n hn).1) fun n hn => (single n hn).2
  rwa [below, String.intercalate_singleton] at down

end CiWorkflow.Files
