import Mathlib

/-! Loops that write entries of a map, one entry a step. -/

namespace Writes
variable {ι β : Type*} [DecidableEq ι] {f : ι → β} {entries : List (ι × β)} {i : ι} {b : β}

def writeAll (f : ι → β) (entries : List (ι × β)) : ι → β :=
  entries.foldl (fun f e => Function.update f e.1 e.2) f

theorem writeAll_cons (e : ι × β) :
    writeAll f (e :: entries) = writeAll (Function.update f e.1 e.2) entries := rfl

theorem writeAll_of_notMem (h : i ∉ entries.map Prod.fst) : writeAll f entries i = f i := by
  induction entries generalizing f with
  | nil => rfl
  | cons e entries ih =>
    rw [List.map_cons, List.mem_cons, not_or] at h
    rw [writeAll_cons, ih h.2, Function.update_of_ne h.1]

theorem writeAll_of_mem (hnodup : (entries.map Prod.fst).Nodup) (h : (i, b) ∈ entries) :
    writeAll f entries i = b := by
  induction entries generalizing f with
  | nil => contradiction
  | cons e entries ih =>
    rw [List.map_cons, List.nodup_cons] at hnodup
    rw [writeAll_cons]
    rcases List.mem_cons.mp h with heq | h
    · rw [← heq] at hnodup ⊢
      rw [writeAll_of_notMem hnodup.1, Function.update_self]
    · exact ih hnodup.2 h

end Writes
