import CiWorkflow.Proofs.Resolution.Retries
import CiWorkflow.Proofs.Resolution.Together

/-!
# Where texts come from

A program may be started again, with a new cache over the directory that the one before has left. In
a run with restarts each text that is in a file or was read for an entry has come from a fetch at some
time. How long a file has been in use is seen from the run, too.
-/

namespace CiWorkflow.Resolution

open Time (Instant)

/-- What happens in a run with restarts. -/
inductive Turn where
  | event (e : Event)
  | restart

namespace State

/-- Nothing but the directory and the clock is left. -/
def restarted (s : State) : State := idle { now := s.cache.now, store := s.cache.store }

variable (keep : Retention) (s : State)

def turn : Turn → State
  | .event e => s.step keep e
  | .restart => s.restarted

def turns (ts : List Turn) : State := ts.foldl (turn keep) s

/-- What can be seen of a turn. -/
def glimpse : Turn → List Sight
  | .event e => s.sight keep e
  | .restart => [.restarted]

/-- What can be seen of some turns. -/
def glimpses (ts : List Turn) : List Sight := collect (turn keep) (glimpse keep) s ts

/-- The text of an entry is being read from its file, or is being written to it. -/
def AtFile (h : Nat) : Prop :=
  (∃ text, s.stage h = some (.loading (.kept text))) ∨ ∃ f, s.stage h = some (.writing f)

/-- After some turns, and then throughout some more, an entry is at its file. -/
def Busy (p q : List Turn) (h : Nat) : Prop := ∀ r, r <+: q → (s.turns keep (p ++ r)).AtFile h

/-- The clock showed an instant when an entry came to its file, where it still is. -/
def Since (p : List Turn) (h : Nat) (v : Instant) : Prop :=
  ∃ p₀ q, p = p₀ ++ q ∧ s.Busy keep p₀ q h ∧ (s.turns keep p₀).cache.now = v

/-- In some turns a text was fetched, for a reference with some key, when the clock showed an
instant. -/
def Obtained (p : List Turn) (key text : String) (u : Instant) : Prop :=
  ∃ p₀ k q r, p₀ ++ [.event (.answer k (.ok text))] <+: p ∧
    (s.turns keep p₀).stage k = some (.loading (.fetch q)) ∧
    (s.turns keep p₀).cache.reference? k = some r ∧ r.contentKey = key ∧ (s.turns keep p₀).cache.now = u

/-- The clock never goes back. -/
def Forward (ts : List Turn) : Prop := ∀ ms, .event (.act (.advance ms)) ∈ ts → 0 ≤ ms

/-- While the text of an entry was being read from its file, as it still is, the file held a text. -/
def Reads (p : List Turn) (h : Nat) (text : String) : Prop :=
  ∃ p₀ q, p = p₀ ++ q ∧ (∀ r, r <+: q → ∃ t, (s.turns keep (p₀ ++ r)).stage h = some (.loading (.kept t))) ∧
    (s.turns keep p₀).cache.textOf? h = some text

/-- The clock never goes back, and what is read from a file is what was in it while it was being read. -/
structure Genuine (ts : List Turn) : Prop where
  forward : Forward ts
  read : ∀ p h t text, p ++ [.event (.answer h (.ok text))] <+: ts →
    (s.turns keep p).stage h = some (.loading (.kept t)) → s.Reads keep p h text

/-- No entry is at its file for longer than some nanoseconds. -/
def Brief (δ : Nat) (ts : List Turn) : Prop :=
  ∀ p q h, p ++ q <+: ts → s.Busy keep p q h →
    (s.turns keep (p ++ q)).cache.now.nanos - (s.turns keep p).cache.now.nanos ≤ δ

variable {keep s} {p q ts : List Turn} {τ : Turn} {h : Nat} {key text : String} {u v : Instant}

@[simp] lemma turns_nil : s.turns keep [] = s := rfl

lemma turns_append (p q : List Turn) : s.turns keep (p ++ q) = (s.turns keep p).turns keep q := by
  simp [turns]

lemma turns_concat (p : List Turn) (τ : Turn) : s.turns keep (p ++ [τ]) = (s.turns keep p).turn keep τ := by
  simp [turns]

lemma sound_turns (hs : s.Sound) (ts : List Turn) : (s.turns keep ts).Sound := by
  induction ts using List.reverseRecOn with
  | nil => exact hs
  | append_singleton p τ ih =>
    rw [turns_concat]
    cases τ with
    | event e => exact ih.step e
    | restart => exact State.Sound.initial _ _

/-! ### The clock -/

lemma now_le_turn (hf : ∀ ms, τ = .event (.act (.advance ms)) → 0 ≤ ms) :
    s.cache.now ≤ (s.turn keep τ).cache.now := by
  cases τ with
  | restart => exact Int.le_refl _
  | event e =>
    refine now_le_step keep s ?_
    cases e with
    | act a =>
      cases a with
      | advance ms => exact hf ms rfl
      | _ => trivial
    | _ => trivial

lemma Forward.mono (hf : Forward ts) (hp : p ⊆ ts) : Forward p := fun ms hm => hf ms (hp hm)

lemma now_le_turns (hf : Forward q) (s : State) : s.cache.now ≤ (s.turns keep q).cache.now := by
  induction q using List.reverseRecOn with
  | nil => exact Int.le_refl _
  | append_singleton q τ ih =>
    rw [turns_concat]
    have before := ih (hf.mono (List.subset_append_left q [τ]))
    have last : (s.turns keep q).cache.now ≤ ((s.turns keep q).turn keep τ).cache.now :=
      now_le_turn fun ms hτ => hf ms (by simp [hτ])
    exact Instant.le_trans before last

/-! ### Fetches -/

lemma Obtained.mono (ho : s.Obtained keep p key text u) (hp : p <+: q) : s.Obtained keep q key text u := by
  obtain ⟨p₀, k, r, d, hp₀, rest⟩ := ho
  exact ⟨p₀, k, r, d, hp₀.trans hp, rest⟩

/-- No fetch was answered before the run began. -/
lemma Obtained.le (hf : Forward p) (ho : s.Obtained keep p key text u) : s.cache.now ≤ u := by
  obtain ⟨p₀, k, r, d, hp₀, -, -, -, rfl⟩ := ho
  exact now_le_turns (hf.mono ((List.prefix_append _ _).trans hp₀).subset) s

lemma obtained_answer {r : Request} {d : Reference} (hst : (s.turns keep p).stage h = some (.loading (.fetch r)))
    (hd : (s.turns keep p).cache.reference? h = some d) :
    s.Obtained keep (p ++ [.event (.answer h (.ok text))]) d.contentKey text (s.turns keep p).cache.now :=
  ⟨p, h, r, d, List.prefix_rfl, hst, hd, rfl, rfl⟩

/-! ### Files in use -/

lemma since_now (ha : (s.turns keep p).AtFile h) : s.Since keep p h (s.turns keep p).cache.now := by
  refine ⟨p, [], (List.append_nil p).symm, fun r hr => ?_, rfl⟩
  rw [List.prefix_nil.mp hr, List.append_nil]
  exact ha

lemma Since.concat (hs : s.Since keep p h v) (ha : (s.turns keep (p ++ [τ])).AtFile h) :
    s.Since keep (p ++ [τ]) h v := by
  obtain ⟨p₀, q, rfl, hb, hv⟩ := hs
  refine ⟨p₀, q ++ [τ], by rw [List.append_assoc], fun r hr => ?_, hv⟩
  rcases List.prefix_concat_iff.mp hr with rfl | hr
  · rwa [← List.append_assoc]
  · exact hb r hr

/-- What is in the file now may be read. -/
lemma reads_now {t : String} (hst : (s.turns keep p).stage h = some (.loading (.kept t)))
    (ht : (s.turns keep p).cache.textOf? h = some text) : s.Reads keep p h text := by
  refine ⟨p, [], (List.append_nil p).symm, fun r hr => ⟨t, ?_⟩, ht⟩
  rw [List.prefix_nil.mp hr, List.append_nil]
  exact hst

/-- A text that is read was already being read, or is in the file now. -/
lemma Reads.concat (hr : s.Reads keep (p ++ [τ]) h text) :
    (∃ t, (s.turns keep p).stage h = some (.loading (.kept t))) ∧ s.Reads keep p h text ∨
      (s.turns keep (p ++ [τ])).cache.textOf? h = some text := by
  obtain ⟨p₀, q, hq, reading, held⟩ := hr
  rcases List.eq_nil_or_concat q with rfl | ⟨q', σ, rfl⟩
  · rw [hq, List.append_nil]
    exact Or.inr held
  · rw [List.concat_eq_append, ← List.append_assoc] at hq
    obtain ⟨rfl, -⟩ := List.append_inj' hq rfl
    have before : ∀ r, r <+: q' → r <+: q'.concat σ := fun r hr =>
      hr.trans (by rw [List.concat_eq_append]; exact List.prefix_append q' [σ])
    exact Or.inl ⟨reading q' (before q' List.prefix_rfl), p₀, q', rfl, fun r hr => reading r (before r hr), held⟩

lemma Since.le (hf : Forward p) (hs : s.Since keep p h v) : v ≤ (s.turns keep p).cache.now := by
  obtain ⟨p₀, q, rfl, -, rfl⟩ := hs
  rw [turns_append]
  exact now_le_turns (hf.mono (List.subset_append_right p₀ q)) _

lemma Since.brief {δ : Nat} (hs : s.Since keep p h v) (hb : s.Brief keep δ ts) (hp : p <+: ts) :
    (s.turns keep p).cache.now.nanos - v.nanos ≤ δ := by
  obtain ⟨p₀, q, rfl, busy, rfl⟩ := hs
  exact hb p₀ q h hp busy

end State

end CiWorkflow.Resolution
