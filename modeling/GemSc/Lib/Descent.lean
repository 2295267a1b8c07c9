import Mathlib

/-! Steps that each bring what is not at its goal one closer to it. -/

namespace Descent
variable {α : Type*} {step : α → α} {distance : α → ℕ}

def Descends (step : α → α) (distance : α → ℕ) : Prop :=
  ∀ a, distance a ≠ 0 → distance (step a) + 1 = distance a

theorem Descends.iterate (h : Descends step distance) (a : α) {k : ℕ} (hk : k ≤ distance a) :
    distance (step^[k] a) + k = distance a := by
  induction k with
  | zero => rfl
  | succ k ih =>
    have hle : k ≤ distance a := Nat.le_of_succ_le hk
    have hne : distance (step^[k] a) ≠ 0 := by
      have heq := ih hle
      omega
    rw [Function.iterate_succ_apply', ← ih hle, ← h _ hne, Nat.add_right_comm, Nat.add_assoc]

theorem Descends.reaches (h : Descends step distance) (a : α) :
    distance (step^[distance a] a) = 0 :=
  Nat.add_right_cancel ((h.iterate a le_rfl).trans (Nat.zero_add _).symm)

theorem Descends.not_before (h : Descends step distance) (a : α) {k : ℕ} (hk : k < distance a) :
    distance (step^[k] a) ≠ 0 := by
  have heq := h.iterate a hk.le
  omega

theorem Descends.ne (h : Descends step distance) (a : α) {i j : ℕ} (hij : i < j)
    (hj : j ≤ distance a) : step^[i] a ≠ step^[j] a := by
  intro heq
  have hi := h.iterate a (hij.le.trans hj)
  have hj' := h.iterate a hj
  rw [heq] at hi
  omega

end Descent
