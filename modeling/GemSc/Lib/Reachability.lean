import Mathlib

/-! Relations followed forwards from a start: chains that never end, and cycles. -/

namespace Reachability
open Relation

variable {α : Type*} {r : α → α → Prop}

def EndlessFrom (r : α → α → Prop) (start : α) : Prop :=
  ∃ chain : ℕ → α, chain 0 = start ∧ ∀ n, r (chain n) (chain (n + 1))

def CycleFrom (r : α → α → Prop) (start : α) : Prop :=
  ∃ a, ReflTransGen r start a ∧ TransGen r a a

theorem acc_iff_not_endlessFrom {start : α} :
    Acc (fun b a => r a b) start ↔ ¬ EndlessFrom r start := by
  rw [← not_iff_not, not_not]
  exact not_acc_iff_exists_descending_chain

theorem not_self_of_acc {a : α} (h : Acc r a) : ¬ r a a := by
  induction h with
  | intro a _ ih =>
    intro hself
    exact ih a hself hself

theorem not_cycle_of_acc {a b : α} (h : Acc (fun y x => r x y) a) (hab : ReflTransGen r a b) :
    ¬ TransGen r b b := by
  have hb : Acc (fun y x => r x y) b := by
    induction hab with
    | refl => exact h
    | tail _ hstep ih => exact ih.inv hstep
  intro hcycle
  exact not_self_of_acc hb.transGen (transGen_swap.mpr hcycle)

theorem endlessFrom_iff_cycleFrom {start : α} (hfin : {a | ∃ b, r a b}.Finite) :
    EndlessFrom r start ↔ CycleFrom r start := by
  constructor
  · rintro ⟨chain, rfl, hchain⟩
    have := hfin.to_subtype
    let f : ℕ → {a | ∃ b, r a b} := fun n => ⟨chain n, chain (n + 1), hchain n⟩
    obtain ⟨i, j, hne, heq⟩ := Finite.exists_ne_map_eq_of_infinite f
    have hback : chain i = chain j := congrArg Subtype.val heq
    have hreach : ReflTransGen r (chain 0) (chain i) :=
      Nat.rel_of_forall_rel_succ_of_le (ReflTransGen r) (fun n => .single (hchain n)) (Nat.zero_le i)
    refine ⟨chain i, hreach, ?_⟩
    rcases lt_or_gt_of_ne hne with hij | hji
    · have hcycle : TransGen r (chain i) (chain j) :=
        Nat.rel_of_forall_rel_succ_of_lt (TransGen r) (fun n => .single (hchain n)) hij
      rwa [← hback] at hcycle
    · have hcycle : TransGen r (chain j) (chain i) :=
        Nat.rel_of_forall_rel_succ_of_lt (TransGen r) (fun n => .single (hchain n)) hji
      rwa [← hback] at hcycle
  · rintro ⟨a, hstart, hcycle⟩
    by_contra h
    exact not_cycle_of_acc (acc_iff_not_endlessFrom.mpr h) hstart hcycle

theorem acc_of_acyclic {s : Set α} (hfin : s.Finite) (hacyclic : ∀ a ∈ s, ¬ TransGen r a a) (a : α) :
    Acc (fun b a => a ∈ s ∧ r a b) a := by
  rw [acc_iff_not_endlessFrom (r := fun a b => a ∈ s ∧ r a b), endlessFrom_iff_cycleFrom]
  · rintro ⟨b, -, hcycle⟩
    obtain ⟨c, ⟨hb, -⟩, -⟩ := TransGen.head'_iff.mp hcycle
    exact hacyclic b hb (hcycle.lift id fun _ _ h => h.2)
  · refine hfin.subset ?_
    rintro b ⟨c, hb, -⟩
    exact hb

end Reachability
