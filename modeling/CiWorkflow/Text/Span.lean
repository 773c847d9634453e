/-!
# Spans

Half-open ranges of bytes.
-/

namespace CiWorkflow.Text

/-- The bytes from `start` up to `stop`. -/
structure Span where
  start : Nat
  stop : Nat
  deriving DecidableEq, Repr, Inhabited

namespace Span

def length (s : Span) : Nat := s.stop - s.start

def isEmpty (s : Span) : Bool := s.start == s.stop

/-- Whether a byte lies in the range. -/
def contains (s : Span) (offset : Nat) : Bool := s.start ≤ offset && offset < s.stop

/-- `a` lies inside `b`. -/
def Within (a b : Span) : Prop := b.start ≤ a.start ∧ a.stop ≤ b.stop

/-- `a` ends before `b` starts. -/
def Before (a b : Span) : Prop := a.stop ≤ b.start

instance (a b : Span) : Decidable (a.Within b) := inferInstanceAs (Decidable (_ ∧ _))
instance (a b : Span) : Decidable (a.Before b) := inferInstanceAs (Decidable (_ ≤ _))

theorem Within.refl (a : Span) : a.Within a := ⟨Nat.le_refl _, Nat.le_refl _⟩

theorem Within.trans {a b c : Span} (h : a.Within b) (k : b.Within c) : a.Within c :=
  ⟨Nat.le_trans k.1 h.1, Nat.le_trans h.2 k.2⟩

theorem Within.antisymm {a b : Span} (h : a.Within b) (k : b.Within a) : a = b := by
  cases a
  cases b
  simp only [Within] at h k
  rw [mk.injEq]
  omega

theorem contains_of_within {a b : Span} (h : a.Within b) {offset : Nat} (k : a.contains offset = true) :
    b.contains offset = true := by
  simp only [contains, Bool.and_eq_true, decide_eq_true_eq, Within] at *
  omega

end Span

end CiWorkflow.Text
