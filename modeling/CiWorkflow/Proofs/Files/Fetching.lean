import CiWorkflow.Proofs.Files.Inside
import CiWorkflow.Proofs.Files.Recording

/-!
# Reading in a project

The path of a location in a project leads down from the top directory, and what is read for it is the
file at that path, or the first manifest right inside the directory at that path.
-/

namespace CiWorkflow.Files

open Reference (manifestNames)

variable {location path directory f : String} {names : List String} {calls : List Call}

/-! ### The calls of reading -/

/-- The calls that look for the first of some names that is a file in a directory. -/
inductive Looks (directory : String) (names : List String) : Option String → List Call → Prop
  | found (before : List String) (n : String) (after : List String) (h : names = before ++ n :: after) :
      Looks directory names (some (join directory n))
        ((before.map fun b => .isFile (join directory b) false) ++ [.isFile (join directory n) true])
  | missing : Looks directory names none (names.map fun b => .isFile (join directory b) false)

/-- The calls that settle which file is read for a path. -/
inductive Settles (path : String) : Option String → List Call → Prop
  | file : Settles path (some path) [.isDirectory path false]
  | directory {found : Option String} {looks : List Call} (h : Looks path manifestNames found looks) :
      Settles path found (.isDirectory path true :: looks)

/-- The calls that read the text at a path: those that settle which file that is, and then its reading. -/
def Reads (path : String) (calls : List Call) : Prop :=
  Settles path none calls ∨ ∃ f settles, Settles path (some f) settles ∧ calls = settles ++ [.readText f]

lemma Settles.not_read {found : Option String} (h : Settles path found calls) : .readText f ∉ calls := by
  cases h with
  | file => simp
  | directory h => cases h <;> simp

/-- What is settled on is the path, or the first manifest in the directory that is a file. -/
lemma Settles.found (h : Settles path (some f) calls) :
    f = path ∨ f = join path "action.yml" ∨
      f = join path "action.yaml" ∧ .isFile (join path "action.yml") false ∈ calls := by
  cases h with
  | file => exact Or.inl rfl
  | directory h =>
    refine Or.inr ?_
    cases h with
    | found before n after h =>
      cases before with
      | nil =>
        obtain ⟨rfl, -⟩ := List.cons_eq_cons.mp h
        exact Or.inl rfl
      | cons b before =>
        obtain ⟨rfl, rest⟩ := List.cons_eq_cons.mp h
        cases before with
        | nil =>
          obtain ⟨rfl, -⟩ := List.cons_eq_cons.mp rest
          exact Or.inr ⟨rfl, by simp⟩
        | cons c before => simp at rest

lemma Reads.only (h : Reads path calls) (hf : .readText f ∈ calls) :
    f = path ∨ LeadsDown path ["action.yml"] f ∨
      LeadsDown path ["action.yaml"] f ∧ .isFile (join path "action.yml") false ∈ calls := by
  rcases h with h | ⟨g, settles, h, rfl⟩
  · exact absurd hf h.not_read
  · obtain rfl : f = g := by simpa [h.not_read] using hf
    rcases h.found with own | rfl | ⟨rfl, missing⟩
    · exact Or.inl own
    · exact Or.inr (Or.inl (leadsDown_join path (by decide) (by decide)))
    · exact Or.inr (Or.inr ⟨leadsDown_join path (by decide) (by decide), List.mem_append_left _ missing⟩)

namespace Project

variable {σ : Type} (host : Host (StateM σ)) (p : Project)

lemma records_firstFile? (directory : String) (names : List String) :
    Records (firstFile? host.recording directory names) (firstFile? host directory names) (Looks directory names) := by
  induction names with
  | nil => exact .pure .missing
  | cons n r ih =>
    refine Records.ask _ _ fun isFile => ?_
    cases isFile with
    | true => exact .pure (.found [] n r rfl)
    | false =>
      refine ih.mono fun found rest looks => ?_
      cases looks with
      | found before m after h => exact .found (n :: before) m after (by rw [h]; rfl)
      | missing => exact .missing

lemma records_file (location path : String) :
    Records (file host.recording location path) (file host location path) fun found => Settles path found.toOption := by
  refine Records.ask _ _ fun isDirectory => ?_
  cases isDirectory with
  | false => exact .pure .file
  | true =>
    refine Records.bind (records_firstFile? host path manifestNames) fun found rest looks => ?_
    cases found with
    | none => exact .pure (by simpa using .directory looks)
    | some f => exact .pure (by simpa using .directory looks)

/-- Where a location has no path nothing is asked of the machine. -/
lemma records_fetch (location : String) :
    Records (p.fetch host.recording location) (p.fetch host location) fun answer calls =>
      (∀ e, p.path location = .error e → answer = .error e ∧ calls = []) ∧
        ∀ path, p.path location = .ok path → Reads path calls := by
  unfold fetch
  cases hp : p.path location with
  | error e =>
    refine .pure ⟨fun e' he => ?_, nofun⟩
    cases he
    exact ⟨rfl, rfl⟩
  | ok path =>
    refine Records.bind (records_file host location path) fun found settles hsettles => ?_
    cases found with
    | error e =>
      refine .pure ⟨nofun, fun path' he => ?_⟩
      cases he
      rw [List.append_nil]
      exact Or.inl hsettles
    | ok f =>
      refine Records.ask _ _ fun text => ?_
      refine .pure ⟨nofun, fun path' he => ?_⟩
      cases he
      exact Or.inr ⟨f, settles, hsettles, rfl⟩

/-! ### Paths of locations -/

/-- A location leads inside the project. -/
def IsInside (location : String) : Prop :=
  isAbsolute (Text.trimString location) = false ∧ NeverAbove (segments (Text.trimString location))

variable {p}

lemma inside?_eq_some_iff : inside? location = some names ↔
    isAbsolute (Text.trimString location) = false ∧ Leaves (segments (Text.trimString location)) names := by
  rw [inside?, ← settle?_eq_some_iff]
  split <;> simp_all

lemma path_eq_ok_iff :
    p.path location = .ok path ↔ ∃ names, inside? location = some names ∧ path = below p.root names := by
  unfold Project.path
  cases inside? location <;> simp [eq_comm]

lemma path_eq_error {e : Failure} (h : p.path location = .error e) : e = .outsideProject location := by
  unfold Project.path at h
  split at h
  · cases h
    rfl
  · cases h

lemma exists_path_iff : (∃ path, p.path location = .ok path) ↔ IsInside location := by
  rw [IsInside, ← exists_leaves_iff]
  constructor
  · rintro ⟨path, h⟩
    obtain ⟨names, hn, -⟩ := path_eq_ok_iff.mp h
    obtain ⟨relative, left⟩ := inside?_eq_some_iff.mp hn
    exact ⟨relative, names, left⟩
  · rintro ⟨relative, names, left⟩
    exact ⟨_, path_eq_ok_iff.mpr ⟨names, inside?_eq_some_iff.mpr ⟨relative, left⟩, rfl⟩⟩

/-- The path of a location leads down from the top directory by the names that are left. -/
lemma exists_leadsDown (h : p.path location = .ok path) :
    ∃ names, Leaves (segments (Text.trimString location)) names ∧ LeadsDown p.root names path := by
  obtain ⟨names, hn, rfl⟩ := path_eq_ok_iff.mp h
  obtain ⟨-, left⟩ := inside?_eq_some_iff.mp hn
  exact ⟨names, left, leadsDown_below p.root left.2 fun s hs => not_mem_of_mem_segments (left.mem hs)⟩

/-- For every project and location: the location has a path exactly where, without the blanks around it,
it does not start at the top and no beginning of it has more `..` than names; the path leads from the top
directory of the project down by the names that are left when each `..` has cancelled the nearest one
before it, which are the same in whatever order that is done; and however the machine answers, nothing is
read but the file at the path or, where that is a directory, `action.yml` or else `action.yaml` right
inside it. -/
theorem reading_stays_inside (p : Project) (location : String) :
    ((∃ path, p.path location = .ok path) ↔ IsInside location) ∧
      (¬ IsInside location → p.path location = .error (.outsideProject location)) ∧
      (∀ path, p.path location = .ok path → ∃ names, parentName ∉ names ∧ LeadsDown p.root names path ∧
        ∀ l, Leaves (segments (Text.trimString location)) l ↔ l = names) ∧
      ∀ (σ : Type) (host : Host (StateM σ)),
        Records (p.fetch host.recording location) (p.fetch host location) fun answer calls =>
          (∀ e, p.path location = .error e → answer = .error e ∧ calls = []) ∧
            ∀ path, p.path location = .ok path → Reads path calls ∧ ∀ f, .readText f ∈ calls →
              f = path ∨ LeadsDown path ["action.yml"] f ∨
                LeadsDown path ["action.yaml"] f ∧ .isFile (join path "action.yml") false ∈ calls := by
  refine ⟨exists_path_iff, fun outside => ?_, fun path hp => ?_, fun σ host => ?_⟩
  · cases hp : p.path location with
    | error e => rw [path_eq_error hp]
    | ok path => exact absurd (exists_path_iff.mp ⟨path, hp⟩) outside
  · obtain ⟨names, left, down⟩ := exists_leadsDown hp
    refine ⟨names, fun up => (left.2 _ up).2.2 rfl, down, fun l => ⟨fun hl => hl.unique left, ?_⟩⟩
    rintro rfl
    exact left
  · exact (records_fetch host p location).mono fun answer calls h =>
      ⟨h.1, fun path hp => ⟨h.2 path hp, fun f hf => (h.2 path hp).only hf⟩⟩

example : Project.path ⟨"/project"⟩ "./.github/actions/../workflows/a.yml" =
    .ok "/project/.github/workflows/a.yml" := by rfl

end Project

end CiWorkflow.Files
