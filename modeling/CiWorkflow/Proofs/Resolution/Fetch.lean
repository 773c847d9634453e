import CiWorkflow.Resolution.Resolve
import Mathlib.Tactic.Lemma

/-!
# Resolving with any fetch

A fetch may note what happens, and what it has noted is handed on beside the cache. Whatever a fetch
does, resolving takes the same steps: they are told here once, by the plan of each entry, and hold
for every fetch.
-/

namespace CiWorkflow.Resolution

/-- A cache, and what has been noted so far. -/
abbrev Recorded (ρ : Type) := Cache × ρ

namespace Recorded

variable {ρ : Type}

/-- What a computation answers, what it does to a cache, and what it notes. -/
def run {α : Type} (p : StateT Cache (StateM ρ) α) (x : Recorded ρ) : α × Recorded ρ :=
  let y := (p.run x.1).run x.2
  (y.1.1, y.1.2, y.2)

lemma run_bind {α β : Type} (p : StateT Cache (StateM ρ) α) (f : α → StateT Cache (StateM ρ) β) (x : Recorded ρ) :
    x.run (p >>= f) = (x.run p).2.run (f (x.run p).1) := rfl

@[simp] lemma run_get (x : Recorded ρ) : x.run (get : StateT Cache (StateM ρ) Cache) = (x.1, x) := rfl

variable {keep : Retention} {fetch : Fetch (StateM ρ)} {x y : Recorded ρ} {h : Nat}

/-! ### One entry -/

lemma run_resolve_of_none (hp : x.1.plan? keep h = none) : x.run (resolve keep fetch h) = ((), x) := by
  rw [resolve, run_bind, run_get, hp]
  rfl

lemma run_resolve_of_kept {text : String} (hp : x.1.plan? keep h = some (.kept text)) :
    x.run (resolve keep fetch h) = ((), x.1.settle keep h (.kept text) (.ok text), x.2) := by
  rw [resolve, run_bind, run_get, hp]
  rfl

/-- What was fetched is settled in the cache as the fetch has left it. -/
lemma run_resolve_of_fetch {q : Request} (hp : x.1.plan? keep h = some (.fetch q)) {a : Except Failure String}
    (hf : x.run (fetch q) = (a, y)) :
    x.run (resolve keep fetch h) = ((), y.1.settle keep h (.fetch q) a, y.2) := by
  rw [resolve, run_bind, run_get, hp]
  dsimp only
  rw [run_bind, Fetch.text, hf]
  rfl

/-! ### Several entries at once -/

variable {rest : List (Nat × Rest)} (hs : List Nat)

lemma run_beginAll_of_left (hl : (rest.lookup h).isSome = true) :
    x.run (beginAll keep fetch (h :: hs) rest) = x.run (beginAll keep fetch hs rest) := by
  rw [beginAll, if_pos hl]

lemma run_beginAll_of_none (hl : rest.lookup h = none) (hp : x.1.plan? keep h = none) :
    x.run (beginAll keep fetch (h :: hs) rest) = x.run (beginAll keep fetch hs rest) := by
  rw [beginAll, if_neg (by simp [hl]), run_bind, run_get, hp]

lemma run_beginAll_of_kept (hl : rest.lookup h = none) {text : String} (hp : x.1.plan? keep h = some (.kept text)) :
    x.run (beginAll keep fetch (h :: hs) rest) = x.run (beginAll keep fetch hs (rest ++ [(h, .reading text)])) := by
  rw [beginAll, if_neg (by simp [hl]), run_bind, run_get, hp]

/-- What was fetched is left to be written, or is noted. -/
lemma run_beginAll_of_fetch (hl : rest.lookup h = none) {q : Request} (hp : x.1.plan? keep h = some (.fetch q))
    {a : Except Failure String} (hf : x.run (fetch q) = (a, y)) :
    x.run (beginAll keep fetch (h :: hs) rest) =
      let f := y.1.finding h (.fetch q) a
      if f.isWriting then y.run (beginAll keep fetch hs (rest ++ [(h, .writing f)]))
      else run (beginAll keep fetch hs rest) (y.1.conclude keep h f, y.2) := by
  rw [beginAll, if_neg (by simp [hl]), run_bind, run_get, hp]
  dsimp only
  rw [run_bind, hf, run_bind, run_get]
  dsimp only
  split <;> rfl

lemma run_resolveAll (keep : Retention) (fetch : Fetch (StateM ρ)) (x : Recorded ρ) :
    x.run (resolveAll keep fetch hs) =
      let (rest, y) := x.run (beginAll keep fetch hs [])
      ((), rest.foldl (fun c (h, r) => c.finish keep h r) y.1, y.2) := rfl

end Recorded

end CiWorkflow.Resolution
