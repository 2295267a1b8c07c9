import Mathlib

/-! Cells of a grid that is filled row by row, at even distances from each other. -/

namespace GridCells

section
variable {n cols i j : ℕ}

theorem row_lt (hcols : 0 < cols) (hi : i < n) : i / cols < (n + cols - 1) / cols := by
  have hn : n + cols - 1 = (n - 1) + cols := by omega
  rw [hn, Nat.add_div_right _ hcols]
  exact Nat.lt_succ_of_le (Nat.div_le_div_right (Nat.le_pred_of_lt hi))

theorem eq_of_row_col (hrow : i / cols = j / cols) (hcol : i % cols = j % cols) : i = j := by
  rw [← Nat.div_add_mod i cols, hrow, hcol, Nat.div_add_mod]

end

variable {K : Type*} [Field K] [LinearOrder K] [IsStrictOrderedRing K] {w left : K} {m k k' : ℕ}

theorem divisor_pos (m : ℕ) : (0 : K) < (max 1 (m - 1) : ℕ) :=
  Nat.cast_pos.mpr (Nat.lt_of_lt_of_le Nat.one_pos (Nat.le_max_left 1 (m - 1)))

def line (left w : K) (m k : ℕ) : K := left + k * (w / (max 1 (m - 1) : ℕ))

theorem line_mem_Icc (left : K) (hw : 0 ≤ w) (hk : k < m) : line left w m k ∈ Set.Icc left (left + w) := by
  have hstep : 0 ≤ w / (max 1 (m - 1) : ℕ) := div_nonneg hw (divisor_pos m).le
  have hlast : (k : K) ≤ (max 1 (m - 1) : ℕ) :=
    Nat.cast_le.mpr ((Nat.le_pred_of_lt hk).trans (Nat.le_max_right 1 (m - 1)))
  have htop : k * (w / (max 1 (m - 1) : ℕ)) ≤ w := by
    calc k * (w / (max 1 (m - 1) : ℕ))
        ≤ (max 1 (m - 1) : ℕ) * (w / (max 1 (m - 1) : ℕ)) := mul_le_mul_of_nonneg_right hlast hstep
      _ = w := mul_div_cancel₀ w (divisor_pos m).ne'
  constructor
  · exact le_add_of_nonneg_right (mul_nonneg (Nat.cast_nonneg k) hstep)
  · exact add_le_add_right htop left

theorem line_inj (hw : 0 < w) : line left w m k = line left w m k' ↔ k = k' := by
  have hstep : w / (max 1 (m - 1) : ℕ) ≠ 0 := (div_pos hw (divisor_pos m)).ne'
  unfold line
  rw [add_right_inj, mul_left_inj' hstep, Nat.cast_inj]

end GridCells
