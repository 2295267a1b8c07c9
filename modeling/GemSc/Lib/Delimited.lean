import Mathlib

/-! A list cut after each element that closes a group, and lists that are made of such groups. -/

namespace Delimited
variable {α : Type*} (closes : α → Prop) [DecidablePred closes]

def cut (pending : List α) : List α → List (List α)
  | [] => []
  | a :: l => if closes a then (pending ++ [a]) :: cut [] l else cut (pending ++ [a]) l

omit [DecidablePred closes] in
def Group (g : List α) : Prop :=
  ∃ start last, g = start ++ [last] ∧ closes last ∧ ∀ a ∈ start, ¬ closes a

variable {closes} {pending start g l l' : List α} {gs : List (List α)}

theorem cut_of_forall_not (h : ∀ a ∈ start, ¬ closes a) (l : List α) :
    cut closes pending (start ++ l) = cut closes (pending ++ start) l := by
  induction start generalizing pending with
  | nil => rw [List.nil_append, List.append_nil]
  | cons a start ih =>
    have ha : ¬ closes a := h a (List.mem_cons_self ..)
    have hrest : ∀ b ∈ start, ¬ closes b := fun b hb => h b (List.mem_cons_of_mem _ hb)
    have happend : pending ++ a :: start = pending ++ [a] ++ start := by
      rw [List.append_assoc, List.singleton_append]
    rw [List.cons_append, cut, if_neg ha, ih hrest, happend]

theorem cut_group (h : Group closes g) (l : List α) :
    cut closes [] (g ++ l) = g :: cut closes [] l := by
  obtain ⟨start, last, rfl, hlast, hstart⟩ := h
  rw [List.append_assoc, cut_of_forall_not hstart, List.singleton_append, cut, if_pos hlast,
    List.nil_append]

theorem cut_flatten (h : ∀ g ∈ gs, Group closes g) : cut closes [] gs.flatten = gs := by
  induction gs with
  | nil => rfl
  | cons g gs ih =>
    have hg : Group closes g := h g (List.mem_cons_self ..)
    have hgs : ∀ g' ∈ gs, Group closes g' := fun g' hg' => h g' (List.mem_cons_of_mem _ hg')
    rw [List.flatten_cons, cut_group hg, ih hgs]

/-- More of a list closes more groups, and changes none of those closed before. -/
theorem cut_isPrefix (h : l <+: l') : cut closes pending l <+: cut closes pending l' := by
  obtain ⟨rest, rfl⟩ := h
  induction l generalizing pending with
  | nil => exact List.nil_prefix
  | cons a l ih =>
    rw [List.cons_append, cut, cut]
    by_cases ha : closes a
    · rw [if_pos ha, if_pos ha]
      exact (List.prefix_cons_inj _).mpr ih
    · rw [if_neg ha, if_neg ha]
      exact ih

end Delimited
