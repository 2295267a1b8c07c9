import Mathlib

/-! Lists in which every element tells which element of another list it was made from. -/

namespace Owners
variable {α β : Type*} {l : List α} {f : α → List β}

theorem nodup_flatMap (owner : β → α) (hl : l.Nodup) (hf : ∀ a ∈ l, (f a).Nodup)
    (howner : ∀ a ∈ l, ∀ b ∈ f a, owner b = a) : (l.flatMap f).Nodup := by
  rw [List.nodup_flatMap]
  refine ⟨hf, hl.imp_of_mem fun {a a'} ha ha' hne => ?_⟩
  change List.Disjoint (f a) (f a')
  rw [List.disjoint_left]
  intro b hb hb'
  exact hne ((howner a ha b hb).symm.trans (howner a' ha' b hb'))

theorem nodup_pairs {m n : ℕ} :
    ((List.range m).flatMap fun y => (List.range n).map fun x => (y, x)).Nodup := by
  apply nodup_flatMap Prod.fst List.nodup_range
  · intro y _
    exact List.nodup_range.map fun x x' heq => congrArg Prod.snd heq
  · intro y _ b hb
    obtain ⟨x, -, rfl⟩ := List.mem_map.mp hb
    rfl

theorem mem_pairs {m n : ℕ} {p : ℕ × ℕ} :
    p ∈ ((List.range m).flatMap fun y => (List.range n).map fun x => (y, x)) ↔
      p.1 < m ∧ p.2 < n := by
  simp only [List.mem_flatMap, List.mem_range, List.mem_map]
  constructor
  · rintro ⟨y, hy, x, hx, rfl⟩
    exact ⟨hy, hx⟩
  · rintro ⟨hy, hx⟩
    exact ⟨p.1, hy, p.2, hx, rfl⟩

theorem foldl_pairs {m n : ℕ} (g : ℕ → ℕ → List β) :
    (List.range m).foldl (fun acc y => (List.range n).foldl (fun acc x => acc ++ g y x) acc) [] =
      ((List.range m).flatMap fun y => (List.range n).map fun x => (y, x)).flatMap
        fun p => g p.1 p.2 := by
  simp only [List.foldl_append_eq_append, List.nil_append, ← List.flatMap_def]
  rw [List.flatMap_assoc]
  simp only [List.flatMap_map]

end Owners
