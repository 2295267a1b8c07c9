import Mathlib

/-! A table whose entries are put under a key, replaced and removed, and what its contents say
about the events so far. -/

namespace PendingTable
open Function

variable {κ ν : Type*}

inductive TableEvent (κ ν : Type*)
  | put (k : κ) (v : ν)
  | remove (k : κ)
  | other

def TableEvent.Touches (k : κ) : TableEvent κ ν → Prop
  | put k' _ => k' = k
  | remove k' => k' = k
  | other => False

def apply [DecidableEq κ] (table : κ → Option ν) : TableEvent κ ν → κ → Option ν
  | .put k v => update table k (some v)
  | .remove k => update table k none
  | .other => table

/-- At time `n` what was put under the key at time `i` is still there. -/
structure Since (history : ℕ → TableEvent κ ν) (k : κ) (v : ν) (i n : ℕ) : Prop where
  lt : i < n
  put : history i = .put k v
  untouched : ∀ j, i < j → j < n → ¬ (history j).Touches k

variable {history : ℕ → TableEvent κ ν} {k : κ} {v : ν} {i n m : ℕ}

theorem Since.succ (h : Since history k v i n) (hn : ¬ (history n).Touches k) :
    Since history k v i (n + 1) := by
  refine ⟨h.lt.trans (Nat.lt_succ_self n), h.put, fun j hij hj => ?_⟩
  rcases Nat.lt_succ_iff_lt_or_eq.mp hj with hlt | rfl
  · exact h.untouched j hij hlt
  · exact hn

theorem since_put (h : history n = .put k v) : Since history k v n (n + 1) :=
  ⟨Nat.lt_succ_self n, h, fun _ hj hlt => absurd hj (not_lt.mpr (Nat.le_of_lt_succ hlt))⟩

theorem Since.le_of_touches (h : Since history k v i m) (hin : i < n)
    (hn : (history n).Touches k) : m ≤ n :=
  not_lt.mp fun hlt => h.untouched n hin hlt hn

theorem apply_put_self [DecidableEq κ] (t : κ → Option ν) (k : κ) (v : ν) :
    apply t (.put k v) k = some v := update_self ..

theorem apply_remove_self [DecidableEq κ] (t : κ → Option ν) (k : κ) :
    apply t (.remove k) k = none := update_self ..

theorem apply_of_not_touches [DecidableEq κ] {t : κ → Option ν} {e : TableEvent κ ν}
    (h : ¬ e.Touches k) : apply t e k = t k := by
  cases e with
  | put k' v => exact update_of_ne (Ne.symm h) _ _
  | remove k' => exact update_of_ne (Ne.symm h) _ _
  | other => rfl

theorem exists_since [DecidableEq κ] (table : ℕ → κ → Option ν) (hstart : table 0 = fun _ => none)
    (hstep : ∀ n, table (n + 1) = apply (table n) (history n)) (h : table n k = some v) :
    ∃ i, Since history k v i n := by
  induction n with
  | zero =>
    rw [hstart] at h
    cases h
  | succ n ih =>
    rw [hstep] at h
    by_cases htouch : (history n).Touches k
    · cases hevent : history n with
      | put k' v' =>
        rw [hevent] at h htouch
        obtain rfl : k' = k := htouch
        obtain rfl : v' = v := Option.some.inj ((apply_put_self ..).symm.trans h)
        exact ⟨n, since_put hevent⟩
      | remove k' =>
        rw [hevent] at h htouch
        obtain rfl : k' = k := htouch
        cases (apply_remove_self ..).symm.trans h
      | other =>
        rw [hevent] at htouch
        exact htouch.elim
    · rw [apply_of_not_touches htouch] at h
      obtain ⟨i, hi⟩ := ih h
      exact ⟨i, hi.succ htouch⟩

theorem Since.table_eq [DecidableEq κ] (table : ℕ → κ → Option ν)
    (hstep : ∀ n, table (n + 1) = apply (table n) (history n)) (h : Since history k v i n) :
    table n k = some v := by
  obtain ⟨hlt, hput, huntouched⟩ := h
  induction n with
  | zero => exact absurd hlt (Nat.not_lt_zero i)
  | succ n ih =>
    rw [hstep]
    rcases Nat.lt_succ_iff_lt_or_eq.mp hlt with hin | rfl
    · rw [apply_of_not_touches (huntouched n hin (Nat.lt_succ_self n))]
      exact ih hin fun j hij hj => huntouched j hij (hj.trans (Nat.lt_succ_self n))
    · rw [hput, apply_put_self]

theorem Since.induction {motive : ℕ → Prop} (h : Since history k v i n) (hput : motive (i + 1))
    (hkeep : ∀ m, Since history k v i m → motive m → motive (m + 1)) : motive n := by
  obtain ⟨hlt, hevent, huntouched⟩ := h
  induction n with
  | zero => exact absurd hlt (Nat.not_lt_zero i)
  | succ n ih =>
    rcases Nat.lt_succ_iff_lt_or_eq.mp hlt with hin | rfl
    · have hbefore : ∀ j, i < j → j < n → ¬ (history j).Touches k :=
        fun j hij hj => huntouched j hij (hj.trans (Nat.lt_succ_self n))
      exact hkeep n ⟨hin, hevent, hbefore⟩ (ih hin hbefore)
    · exact hput

end PendingTable
