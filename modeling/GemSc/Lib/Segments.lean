import Mathlib

/-! A list cut into segments of one length, of which the last one may be shorter, and the frames
that mark the first and the last of them. -/

namespace Segments
variable {α β : Type*} {k : ℕ} {l s : List α}

def segments (k : ℕ) (l : List α) : List (List α) :=
  if _h : l = [] ∨ k = 0 then [] else l.take k :: segments k (l.drop k)
  termination_by l.length
  decreasing_by
    obtain ⟨hl, hk⟩ := not_or.mp _h
    have hpos := List.length_pos_iff.mpr hl
    rw [List.length_drop]
    omega

@[simp] theorem segments_nil : segments k ([] : List α) = [] := by
  unfold segments
  simp

theorem segments_of_ne_nil (hk : 0 < k) (hl : l ≠ []) :
    segments k l = l.take k :: segments k (l.drop k) := by
  conv_lhs => unfold segments
  rw [dif_neg (not_or.mpr ⟨hl, hk.ne'⟩)]

theorem segments_of_length_le (hk : 0 < k) (hl : l ≠ []) (hle : l.length ≤ k) :
    segments k l = [l] := by
  rw [segments_of_ne_nil hk hl, List.drop_of_length_le hle, List.take_of_length_le hle, segments_nil]

theorem segments_induction {motive : List α → Prop} (hk : 0 < k) (hnil : motive [])
    (hstep : ∀ l, l ≠ [] → motive (l.drop k) → motive l) (l : List α) : motive l := by
  induction hn : l.length using Nat.strong_induction_on generalizing l with
  | _ n ih =>
    by_cases hl : l = []
    · rw [hl]
      exact hnil
    · have hpos := List.length_pos_iff.mpr hl
      refine hstep l hl (ih (l.drop k).length ?_ _ rfl)
      rw [List.length_drop]
      omega

theorem segments_eq_nil (hk : 0 < k) : segments k l = [] ↔ l = [] := by
  constructor
  · intro h
    by_contra hl
    rw [segments_of_ne_nil hk hl] at h
    cases h
  · rintro rfl
    exact segments_nil

theorem flatten_segments (hk : 0 < k) (l : List α) : (segments k l).flatten = l := by
  induction l using segments_induction hk with
  | hnil => simp
  | hstep l hl ih => rw [segments_of_ne_nil hk hl, List.flatten_cons, ih, List.take_append_drop]

theorem length_le_of_mem (hk : 0 < k) (hs : s ∈ segments k l) : s.length ≤ k := by
  induction l using segments_induction hk with
  | hnil => simp at hs
  | hstep l hl ih =>
    rw [segments_of_ne_nil hk hl] at hs
    rcases List.mem_cons.mp hs with rfl | hs
    · exact List.length_take_le ..
    · exact ih hs

theorem length_segments (hk : 0 < k) (l : List α) :
    (segments k l).length = (l.length + (k - 1)) / k := by
  induction l using segments_induction hk with
  | hnil =>
    rw [segments_nil, List.length_nil, List.length_nil, Nat.zero_add]
    exact (Nat.div_eq_of_lt (by omega)).symm
  | hstep l hl ih =>
    have hpos := List.length_pos_iff.mpr hl
    rw [segments_of_ne_nil hk hl, List.length_cons, ih, List.length_drop]
    by_cases hle : l.length ≤ k
    · have hone : l.length + (k - 1) = (l.length - 1) + k := by omega
      rw [Nat.sub_eq_zero_of_le hle, Nat.zero_add, Nat.div_eq_of_lt (by omega), hone,
        Nat.add_div_right _ hk, Nat.div_eq_of_lt (by omega)]
    · have hmore : l.length + (k - 1) = (l.length - k + (k - 1)) + k := by omega
      rw [hmore, Nat.add_div_right _ hk]

theorem length_eq_of_mem_dropLast (hk : 0 < k) (hs : s ∈ (segments k l).dropLast) :
    s.length = k := by
  induction l using segments_induction hk with
  | hnil => simp at hs
  | hstep l hl ih =>
    rw [segments_of_ne_nil hk hl] at hs
    by_cases hrest : l.drop k = []
    · simp [hrest] at hs
    · have hne := mt (segments_eq_nil hk).mp hrest
      rw [List.dropLast_cons_of_ne_nil hne] at hs
      rcases List.mem_cons.mp hs with rfl | hs
      · have hlong : k < l.length := by
          by_contra hle
          exact hrest (List.drop_of_length_le (not_lt.mp hle))
        rw [List.length_take]
        exact min_eq_left hlong.le
      · exact ih hs

section
variable (first middle last single : List α → β)

def closing : List (List α) → List β
  | [] => []
  | [s] => [last s]
  | s :: t :: rest => middle s :: closing (t :: rest)

/-- The frames of a list of segments. Without a segment there is the frame of an empty first one,
and nothing that closes it. -/
def frames : List (List α) → List β
  | [] => [first []]
  | [s] => [single s]
  | s :: t :: rest => first s :: closing middle last (t :: rest)

variable {first middle last single} {segs : List (List α)}

theorem closing_cons (hne : segs ≠ []) :
    closing middle last (s :: segs) = middle s :: closing middle last segs := by
  cases segs with
  | nil => exact absurd rfl hne
  | cons t rest => rfl

theorem length_closing : (closing middle last segs).length = segs.length := by
  induction segs using closing.induct with
  | case1 => rfl
  | case2 s => rfl
  | case3 s t rest ih => rw [closing, List.length_cons, List.length_cons, ih]

theorem closing_cons_ne_nil {t : List α} {rest : List (List α)} :
    closing middle last (t :: rest) ≠ [] := by
  apply List.ne_nil_of_length_pos
  rw [length_closing]
  exact Nat.succ_pos _

theorem frames_cons (hne : segs ≠ []) :
    frames first middle last single (s :: segs) = first s :: closing middle last segs := by
  cases segs with
  | nil => exact absurd rfl hne
  | cons t rest => rfl

theorem length_frames : (frames first middle last single segs).length = max 1 segs.length := by
  match segs with
  | [] => rfl
  | [s] => rfl
  | s :: t :: rest => simp [frames, length_closing]

theorem closing_induction {P : β → Prop} (h : ∀ s ∈ segs, P (middle s) ∧ P (last s)) :
    ∀ f ∈ closing middle last segs, P f := by
  induction segs using closing.induct with
  | case1 => simp [closing]
  | case2 s =>
    intro f hf
    rw [List.mem_singleton.mp hf]
    exact (h s (List.mem_singleton_self s)).2
  | case3 s t rest ih =>
    rw [closing, List.forall_mem_cons]
    exact ⟨(h s (List.mem_cons_self ..)).1, ih fun x hx => h x (List.mem_cons_of_mem _ hx)⟩

theorem frames_induction {P : β → Prop} (hnil : P (first []))
    (h : ∀ s ∈ segs, P (first s) ∧ P (middle s) ∧ P (last s) ∧ P (single s)) :
    ∀ f ∈ frames first middle last single segs, P f := by
  match segs with
  | [] => simpa [frames] using hnil
  | [s] => simpa [frames] using (h s (List.mem_singleton_self s)).2.2.2
  | s :: t :: rest =>
    rw [frames, List.forall_mem_cons]
    refine ⟨(h s (List.mem_cons_self ..)).1, closing_induction fun x hx => ?_⟩
    have hx := h x (List.mem_cons_of_mem _ hx)
    exact ⟨hx.2.1, hx.2.2.1⟩

theorem dropLast_closing_induction {P : β → Prop} (h : ∀ s ∈ segs.dropLast, P (middle s)) :
    ∀ f ∈ (closing middle last segs).dropLast, P f := by
  induction segs using closing.induct with
  | case1 => simp [closing]
  | case2 s => simp [closing]
  | case3 s t rest ih =>
    have hne : closing middle last (t :: rest) ≠ [] := closing_cons_ne_nil
    rw [List.dropLast_cons_of_ne_nil (List.cons_ne_nil _ _), List.forall_mem_cons] at h
    rw [closing, List.dropLast_cons_of_ne_nil hne, List.forall_mem_cons]
    exact ⟨h.1, ih h.2⟩

theorem dropLast_frames_induction {P : β → Prop}
    (h : ∀ s ∈ segs.dropLast, P (first s) ∧ P (middle s)) :
    ∀ f ∈ (frames first middle last single segs).dropLast, P f := by
  match segs with
  | [] => simp [frames]
  | [s] => simp [frames]
  | s :: t :: rest =>
    have hne : closing middle last (t :: rest) ≠ [] := closing_cons_ne_nil
    rw [List.dropLast_cons_of_ne_nil (List.cons_ne_nil _ _), List.forall_mem_cons] at h
    rw [frames, List.dropLast_cons_of_ne_nil hne, List.forall_mem_cons]
    exact ⟨h.1.1, dropLast_closing_induction fun x hx => (h.2 x hx).2⟩

variable {γ : Type*} {g : β → γ} {b c : γ}

theorem map_closing (hmiddle : ∀ s, g (middle s) = b) (hlast : ∀ s, g (last s) = c) (s : List α)
    (rest : List (List α)) :
    (closing middle last (s :: rest)).map g = List.replicate rest.length b ++ [c] := by
  induction rest generalizing s with
  | nil => simp [closing, hlast]
  | cons t rest ih =>
    rw [closing, List.map_cons, hmiddle, ih, List.length_cons, List.replicate_succ, List.cons_append]

theorem flatMap_closing {f : β → List γ} {e : α → γ} (hmiddle : ∀ s ∈ segs, f (middle s) = s.map e)
    (hlast : ∀ s ∈ segs, f (last s) = s.map e) :
    (closing middle last segs).flatMap f = segs.flatten.map e := by
  induction segs using closing.induct with
  | case1 => rfl
  | case2 s => simp [closing, hlast s (List.mem_singleton_self s)]
  | case3 s t rest ih =>
    have hrest := ih (fun x hx => hmiddle x (List.mem_cons_of_mem _ hx))
      fun x hx => hlast x (List.mem_cons_of_mem _ hx)
    rw [closing, List.flatMap_cons, hmiddle s (List.mem_cons_self ..), hrest, ← List.map_append,
      ← List.flatten_cons]

theorem flatMap_frames {f : β → List γ} {e : α → γ} (hnil : f (first []) = [])
    (h : ∀ s ∈ segs, f (first s) = s.map e ∧ f (middle s) = s.map e ∧ f (last s) = s.map e ∧
      f (single s) = s.map e) :
    (frames first middle last single segs).flatMap f = segs.flatten.map e := by
  match segs with
  | [] => simp [frames, hnil]
  | [s] => simp [frames, (h s (List.mem_singleton_self s)).2.2.2]
  | s :: t :: rest =>
    have hrest : (closing middle last (t :: rest)).flatMap f = (t :: rest).flatten.map e :=
      flatMap_closing (fun x hx => (h x (List.mem_cons_of_mem _ hx)).2.1)
        fun x hx => (h x (List.mem_cons_of_mem _ hx)).2.2.1
    rw [frames, List.flatMap_cons, (h s (List.mem_cons_self ..)).1, hrest, ← List.map_append,
      ← List.flatten_cons]

end
end Segments
