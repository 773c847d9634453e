/-!
# Caches by name

What was made of a text once is kept under a name, so that it is not made again.
-/

namespace CiWorkflow

/-- Bindings of names, each to one value. -/
structure NamedCache (α : Type) where
  entries : List (String × α) := []
  deriving Repr

namespace NamedCache

variable {α : Type} (c : NamedCache α)

def get? (id : String) : Option α := c.entries.lookup id

/-- Forgets a name. -/
def erase (id : String) : NamedCache α := ⟨c.entries.filter fun e => e.1 != id⟩

/-- Binds a name, replacing what it was bound to. -/
def insert (id : String) (a : α) : NamedCache α := ⟨(id, a) :: (c.erase id).entries⟩

/-- The value of a name, built and kept where there is none. A build that fails leaves the cache as it is. -/
def getOrBuild {ε : Type} (id : String) (build : Unit → Except ε α) : Except ε α × NamedCache α :=
  match c.get? id with
  | some a => (.ok a, c)
  | none =>
    match build () with
    | .ok a => (.ok a, c.insert id a)
    | .error e => (.error e, c)

/-- The empty cache. -/
def clear : NamedCache α := {}

def size : Nat := c.entries.length

def isEmpty : Bool := c.entries.isEmpty

theorem lookup_filter (p : String → Bool) (j : String) (l : List (String × α)) :
    (l.filter fun e => p e.1).lookup j = if p j then l.lookup j else none := by
  induction l with
  | nil => simp
  | cons e l ih =>
    obtain ⟨k, v⟩ := e
    by_cases hj : j = k
    · subst hj
      cases hp : p j <;> simp [hp, ih]
    · have hb : (j == k) = false := by simpa using hj
      cases hp : p k <;> simp [hp, ih, List.lookup_cons, hb]

theorem lookup_erase (id j : String) (l : List (String × α)) :
    (l.filter fun e => e.1 != id).lookup j = if j = id then none else l.lookup j := by
  rw [lookup_filter (· != id)]
  by_cases h : j = id <;> simp [h]

theorem erase_erase (id : String) : (c.erase id).erase id = c.erase id := by
  simp [erase, List.filter_filter]

@[simp] theorem get?_erase (id j : String) : (c.erase id).get? j = if j = id then none else c.get? j :=
  lookup_erase id j c.entries

@[simp] theorem get?_insert (id j : String) (a : α) : (c.insert id a).get? j = if j = id then some a else c.get? j := by
  by_cases h : j = id
  · simp [get?, insert, h]
  · have hb : (j == id) = false := by simpa using h
    simp only [get?, insert, List.lookup_cons, hb, h, if_false]
    simpa [h, erase] using lookup_erase id j c.entries

end NamedCache

end CiWorkflow
