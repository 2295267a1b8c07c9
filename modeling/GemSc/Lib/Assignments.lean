import Mathlib

/-! A map kept as the assignments made to it, the newest first: looking a key up finds
the last assignment to it. -/

namespace Assignments
variable {K V : Type*} [BEq K] [LawfulBEq K] {k l : K} {v : V} {m : List (K × V)}

theorem lookup_ne (h : l ≠ k) : ((k, v) :: m).lookup l = m.lookup l := by
  simp [List.lookup_cons, beq_false_of_ne h]

theorem lookup_cons_some {w : V} :
    ((k, v) :: m).lookup l = some w ↔ (l = k ∧ v = w) ∨ (l ≠ k ∧ m.lookup l = some w) := by
  by_cases h : l = k
  · subst h
    simp
  · simp [lookup_ne h, h]

theorem lookup_cons_isSome :
    (((k, v) :: m).lookup l).isSome ↔ l = k ∨ (m.lookup l).isSome := by
  by_cases h : l = k
  · subst h
    simp
  · simp [lookup_ne h, h]

theorem mem_of_lookup (h : m.lookup k = some v) : (k, v) ∈ m := by
  obtain ⟨pre, post, rfl, -⟩ := List.lookup_eq_some_iff.mp h
  simp

theorem lookup_of_nodup (h : (m.map (·.1)).Nodup) (hmem : (k, v) ∈ m) : m.lookup k = some v := by
  induction m with
  | nil => exact absurd hmem List.not_mem_nil
  | cons e m ih =>
    obtain ⟨hnew, hrest⟩ := List.nodup_cons.mp h
    rw [lookup_cons_some]
    rcases List.mem_cons.mp hmem with rfl | hmem
    · exact Or.inl ⟨rfl, rfl⟩
    · refine Or.inr ⟨fun heq => hnew ?_, ih hrest hmem⟩
      have hkey : k ∈ m.map (·.1) := List.mem_map_of_mem hmem
      rw [heq] at hkey
      exact hkey

end Assignments
