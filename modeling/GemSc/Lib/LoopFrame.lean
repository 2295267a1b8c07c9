import GemSc.Lib.ExceptFold

/-! What each step of a loop leaves alone, the loop leaves alone: the rules for a reflexive and
transitive relation between the state before and the state after. And a rule for loops over
distinct elements. -/

namespace LoopFrame
universe u
variable {ε α : Type*} {σ : Type u} {l : List α} {s : σ}

theorem foldl_nodup {f : σ → α → σ} {P : List α → σ → Prop} (hl : l.Nodup) (hstart : P [] s)
    (hstep : ∀ as a s, a ∉ as → P as s → P (as ++ [a]) (f s a)) : P l (l.foldl f s) := by
  induction l using List.reverseRecOn with
  | nil => exact hstart
  | append_singleton as a ih =>
    rw [List.nodup_append_comm, List.singleton_append, List.nodup_cons] at hl
    rw [List.foldl_append]
    exact hstep as a _ hl.1 (ih hl.2)

variable {R : σ → σ → Prop} [Std.Refl R] [IsTrans σ R]

theorem foldl_rel {f : σ → α → σ} (h : ∀ s, ∀ a ∈ l, R s (f s a)) (s : σ) : R s (l.foldl f s) := by
  induction l generalizing s with
  | nil => exact refl s
  | cons a l ih =>
    have hfirst : R s (f s a) := h s a (List.mem_cons_self ..)
    have hrest := ih (fun s a' ha' => h s a' (List.mem_cons_of_mem _ ha')) (f s a)
    exact trans_of R hfirst hrest

theorem iterate_rel {f : σ → σ} (h : ∀ s, R s (f s)) (n : ℕ) (s : σ) : R s (f^[n] s) := by
  induction n generalizing s with
  | zero => exact refl s
  | succ n ih => exact trans_of R (h s) (ih (f s))

theorem exists_foldlM_rel {f : σ → α → Except ε σ}
    (h : ∀ s, ∀ a ∈ l, ∃ s', f s a = .ok s' ∧ R s s') (s : σ) :
    ∃ s', l.foldlM f s = .ok s' ∧ R s s' := by
  induction l generalizing s with
  | nil => exact ⟨s, rfl, refl s⟩
  | cons a l ih =>
    obtain ⟨mid, hmid, hfirst⟩ := h s a (List.mem_cons_self ..)
    obtain ⟨s', hs', hrest⟩ := ih (fun s a' ha' => h s a' (List.mem_cons_of_mem _ ha')) mid
    exact ⟨s', ExceptFold.foldlM_cons_ok.mpr ⟨mid, hmid, hs'⟩, trans_of R hfirst hrest⟩

end LoopFrame
