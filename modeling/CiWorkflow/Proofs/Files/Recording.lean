import CiWorkflow.Files.Host
import Mathlib.Tactic.Lemma

/-!
# Recording what is asked of a machine

A machine can be watched: a host that does what another one does and notes each call, so that what a
program does to the machine can be told from the calls, however the machine answers and changes.
-/

namespace CiWorkflow.Files

/-- Something that a program asks of a machine, with the answer to a question of yes or no and the names
that are listed. -/
inductive Call where
  | variableNamed (name : String)
  | workingDirectory
  | isThere (path : String) (answer : Bool)
  | isDirectory (path : String) (answer : Bool)
  | isFile (path : String) (answer : Bool)
  | readText (path : String)
  | written (path : String)
  | namesIn (path : String) (names : Option (List String))
  | writeText (path text : String)
  | remove (path : String) (done : Bool)
  | makeDirectory (path : String)
  | now
  | download (address : String)
  deriving DecidableEq, Repr

/-- Whether the files of the machine may be others afterwards. -/
def Call.isChange : Call → Bool
  | .writeText .. | .remove .. | .makeDirectory _ => true
  | _ => false

namespace Host

variable {m : Type → Type} [Monad m]

/-- Does something and notes the call. -/
def noting {α : Type} (call : α → Call) (action : m α) : StateT (List Call) m α := do
  let a ← action
  modify fun calls => calls ++ [call a]
  return a

/-- The same machine, with all calls noted in their order. -/
def recording (host : Host m) : Host (StateT (List Call) m) where
  variableNamed name := noting (fun _ => .variableNamed name) (host.variableNamed name)
  workingDirectory := noting (fun _ => .workingDirectory) host.workingDirectory
  isThere path := noting (.isThere path) (host.isThere path)
  isDirectory path := noting (.isDirectory path) (host.isDirectory path)
  isFile path := noting (.isFile path) (host.isFile path)
  readText path := noting (fun _ => .readText path) (host.readText path)
  written? path := noting (fun _ => .written path) (host.written? path)
  namesIn path := noting (fun names => .namesIn path names.toOption) (host.namesIn path)
  writeText path text := noting (fun _ => .writeText path text) (host.writeText path text)
  remove path := noting (.remove path) (host.remove path)
  makeDirectory path := noting (fun _ => .makeDirectory path) (host.makeDirectory path)
  now := noting (fun _ => .now) host.now
  download address := noting (fun _ => .download address) (host.download address)

end Host

/-! ### Recorded programs -/

section Records

variable {σ α β : Type} {x : StateT (List Call) (StateM σ) α} {y : StateM σ α}

/-- A recorded program does what the program itself does, and what it answers fits the calls it makes. -/
def Records (x : StateT (List Call) (StateM σ) α) (y : StateM σ α) (fits : α → List Call → Prop) : Prop :=
  ∀ calls s, ∃ more, x calls s = (((y s).1, calls ++ more), (y s).2) ∧ fits (y s).1 more

variable {fits : α → List Call → Prop}

lemma Records.mono {fits' : α → List Call → Prop} (h : Records x y fits)
    (weaker : ∀ a more, fits a more → fits' a more) : Records x y fits' := by
  intro calls s
  obtain ⟨more, hx, hf⟩ := h calls s
  exact ⟨more, hx, weaker _ _ hf⟩

lemma Records.noting (call : α → Call) (action : StateM σ α) :
    Records (Host.noting call action) action fun a more => more = [call a] :=
  fun _ s => ⟨[call (action s).1], rfl, rfl⟩

lemma Records.pure {a : α} (h : fits a []) : Records (σ := σ) (pure a) (pure a) fits := by
  intro calls s
  refine ⟨[], ?_, h⟩
  rw [List.append_nil]
  rfl

/-- The calls of what comes next follow those made before. -/
lemma Records.bind {f : α → StateT (List Call) (StateM σ) β} {g : α → StateM σ β}
    {fits' : β → List Call → Prop} (h : Records x y fits)
    (next : ∀ a first, fits a first → Records (f a) (g a) fun b rest => fits' b (first ++ rest)) :
    Records (x >>= f) (y >>= g) fits' := by
  intro calls s
  obtain ⟨first, hx, hf⟩ := h calls s
  obtain ⟨rest, hn, hf'⟩ := next (y s).1 first hf (calls ++ first) (y s).2
  refine ⟨first ++ rest, ?_, hf'⟩
  have step : (x >>= f) calls s = f (x calls s).1.1 (x calls s).1.2 (x calls s).2 := rfl
  rw [step, hx, hn, List.append_assoc]
  rfl

/-- A call is noted before the calls of what comes next. -/
lemma Records.ask (call : α → Call) (action : StateM σ α) {f : α → StateT (List Call) (StateM σ) β}
    {g : α → StateM σ β} {fits' : β → List Call → Prop}
    (next : ∀ a, Records (f a) (g a) fun b rest => fits' b (call a :: rest)) :
    Records (Host.noting call action >>= f) (action >>= g) fits' := by
  refine (Records.noting call action).bind fun a first hfirst => ?_
  subst hfirst
  exact next a

lemma Records.map {f : α → β} {fits' : β → List Call → Prop} (h : Records x y fits)
    (next : ∀ a more, fits a more → fits' (f a) more) : Records (f <$> x) (f <$> y) fits' := by
  rw [map_eq_pure_bind, map_eq_pure_bind]
  exact h.bind fun a more hf => Records.pure (by rw [List.append_nil]; exact next a more hf)

end Records

end CiWorkflow.Files
