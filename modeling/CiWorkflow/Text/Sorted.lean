/-!
# Sorted sets and maps of strings

Ascending lists without repetition, in the order of code points, which is also the order of the UTF-8 bytes.
-/

namespace CiWorkflow.Text

/-- Adds a string to an ascending list. -/
def insertSorted (a : String) : List String → List String
  | [] => [a]
  | b :: r => if a < b then a :: b :: r else if a = b then b :: r else b :: insertSorted a r

/-- The ascending list of the strings of a list, each once. -/
def sortedSet (l : List String) : List String :=
  l.foldl (fun acc a => insertSorted a acc) []

theorem mem_insertSorted {x a : String} {l : List String} : x ∈ insertSorted a l ↔ x = a ∨ x ∈ l := by
  induction l with
  | nil => simp [insertSorted]
  | cons b r ih =>
    unfold insertSorted
    split
    · simp
    · split
      · rename_i h; subst h; simp
      · simp only [List.mem_cons, ih]; grind

theorem mem_sortedSet {x : String} {l : List String} : x ∈ sortedSet l ↔ x ∈ l := by
  suffices ∀ acc, x ∈ l.foldl (fun acc a => insertSorted a acc) acc ↔ x ∈ l ∨ x ∈ acc by
    simpa [sortedSet] using this []
  induction l with
  | nil => simp
  | cons a r ih => intro acc; rw [List.foldl_cons, ih, mem_insertSorted]; grind

/-- Binds a key in an ascending list of bindings, replacing what it was bound to. -/
def bindSorted {α : Type} (k : String) (v : α) : List (String × α) → List (String × α)
  | [] => [(k, v)]
  | (j, w) :: r => if k < j then (k, v) :: (j, w) :: r else if k = j then (k, v) :: r else (j, w) :: bindSorted k v r

theorem lookup_bindSorted_self {α : Type} (k : String) (v : α) (l : List (String × α)) :
    (bindSorted k v l).lookup k = some v := by
  induction l with
  | nil => simp [bindSorted]
  | cons b r ih =>
    obtain ⟨i, w⟩ := b
    unfold bindSorted
    split
    · simp
    · split
      · simp
      · rename_i hne
        have hb : (k == i) = false := by simpa using hne
        simp [List.lookup_cons, hb, ih]

theorem lookup_bindSorted_of_ne {α : Type} {j k : String} (h : j ≠ k) (v : α) (l : List (String × α)) :
    (bindSorted k v l).lookup j = l.lookup j := by
  have hb : (j == k) = false := by simpa using h
  induction l with
  | nil => simp [bindSorted, List.lookup_cons, hb]
  | cons b r ih =>
    obtain ⟨i, w⟩ := b
    unfold bindSorted
    split
    · simp [List.lookup_cons, hb]
    · split
      · rename_i same
        subst same
        simp [List.lookup_cons, hb]
      · simp [List.lookup_cons, ih]

theorem mem_keys_bindSorted {α : Type} {x k : String} {v : α} {l : List (String × α)} :
    x ∈ (bindSorted k v l).map Prod.fst ↔ x = k ∨ x ∈ l.map Prod.fst := by
  induction l with
  | nil => simp [bindSorted]
  | cons b r ih =>
    obtain ⟨i, w⟩ := b
    unfold bindSorted
    split
    · simp
    · split
      · rename_i h
        subst h
        simp
      · simp only [List.map_cons, List.mem_cons, ih]
        grind

end CiWorkflow.Text
