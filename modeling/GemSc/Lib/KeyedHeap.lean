import Mathlib

/-! The binary heap of `std::push_heap` and `std::pop_heap` on an array, ordered
by a key: the front has a least key. Popping follows the hole down to a leaf and
then sifts the moved value up, so ties fall as in the usual implementation. -/

namespace KeyedHeap
open scoped List

variable {α κ : Type*} [LinearOrder κ] (key : α → κ)

def parent (i : ℕ) : ℕ := (i - 1) / 2

theorem parent_lt {i : ℕ} (h : 0 < i) : parent i < i := by
  unfold parent
  omega

theorem parent_eq_iff {i j : ℕ} (h : 0 < j) : parent j = i ↔ j = 2 * i + 1 ∨ j = 2 * i + 2 := by
  unfold parent
  omega

/-- `__push_heap`: the value at `i` moves up while its key is below its parent's. -/
def siftUp : ℕ → Array α → ℕ → Array α
  | 0, a, _ => a
  | fuel + 1, a, i =>
    if h : 0 < i ∧ i < a.size ∧ parent i < a.size then
      if key (a[i]) < key (a[parent i]) then
        siftUp fuel (a.swap i (parent i) h.2.1 h.2.2) (parent i)
      else a
    else a

/-- The descent of `__adjust_heap`: the value at `i` goes down to a leaf, each time
changing places with the child of smaller key (the right one on a tie). -/
def sink : ℕ → Array α → ℕ → Array α × ℕ
  | 0, a, i => (a, i)
  | fuel + 1, a, i =>
    if hr : 2 * i + 2 < a.size then
      if key a[2 * i + 1] < key a[2 * i + 2] then
        sink fuel (a.swap i (2 * i + 1) (by omega) (by omega)) (2 * i + 1)
      else
        sink fuel (a.swap i (2 * i + 2) (by omega) (by omega)) (2 * i + 2)
    else if hl : 2 * i + 1 < a.size then
      (a.swap i (2 * i + 1) (by omega) (by omega), 2 * i + 1)
    else (a, i)

def lowerChild (a : Array α) (i : ℕ) : Option (Fin a.size) :=
  if hr : 2 * i + 2 < a.size then
    if key a[2 * i + 1] < key a[2 * i + 2] then some ⟨2 * i + 1, by omega⟩
    else some ⟨2 * i + 2, hr⟩
  else if hl : 2 * i + 1 < a.size then some ⟨2 * i + 1, hl⟩
  else none

def pushHeap (a : Array α) (x : α) : Array α :=
  siftUp key (a.size + 1) (a.push x) a.size

/-- `__pop_heap` takes the front out and puts the last entry in its place. -/
def moveLast (a : Array α) (h : 0 < a.size) : Array α :=
  (a.swap 0 (a.size - 1) h (by omega)).pop

def popHeap (a : Array α) : Array α :=
  if h : 0 < a.size then
    siftUp key (a.size + 1) (sink key a.size (moveLast a h) 0).1
      (sink key a.size (moveLast a h) 0).2
  else a

def Ordered (a : Array α) : Prop :=
  ∀ j (_ : j < a.size) (_ : parent j < a.size), 0 < j → key a[parent j] ≤ key a[j]

-- what `siftUp` needs: only the edge above `i` may be out of order, and the parent
-- of `i` is below the children of `i`
structure UpReady (a : Array α) (i : ℕ) : Prop where
  valid : i < a.size
  except : ∀ j (_ : j < a.size) (_ : parent j < a.size), 0 < j → j ≠ i →
    key a[parent j] ≤ key a[j]
  grand : ∀ j (_ : j < a.size) (_ : parent i < a.size), 0 < j → 0 < i → parent j = i →
    key a[parent i] ≤ key a[j]

-- what `sink` needs: also the edges below `i` may be out of order
structure DownReady (a : Array α) (i : ℕ) : Prop where
  valid : i < a.size
  except : ∀ j (_ : j < a.size) (_ : parent j < a.size), 0 < j → j ≠ i → parent j ≠ i →
    key a[parent j] ≤ key a[j]
  grand : ∀ j (_ : j < a.size) (_ : parent i < a.size), 0 < j → 0 < i → parent j = i →
    key a[parent i] ≤ key a[j]

variable {key}

theorem UpReady.move {a : Array α} {i : ℕ} (h : UpReady key a i) (h0 : 0 < i)
    (hi : i < a.size) (hp : parent i < a.size) (hlt : key a[i] < key a[parent i]) :
    UpReady key (a.swap i (parent i) hi hp) (parent i) := by
  have hpi := parent_lt h0
  refine ⟨by simpa using hp, ?_, ?_⟩
  · intro j hj hpj' hj0 hne
    have hja : j < a.size := by simpa using hj
    have hpj := parent_lt hj0
    rw [Array.getElem_swap, Array.getElem_swap]
    by_cases hji : j = i
    · subst hji
      simpa [hpj.ne] using hlt.le
    · by_cases hpji : parent j = i
      · have := h.grand j hja hp hj0 h0 hpji
        simpa [hpji, hji, hne] using this
      · by_cases hpp : parent j = parent i
        · have hsib := h.except j hja (hpj.trans hja) hj0 hji
          have : key a[i] ≤ key a[j] := hlt.le.trans (by simpa only [hpp] using hsib)
          simpa [hpp, hji, hne, hpi.ne] using this
        · simpa [hpji, hpp, hji, hne] using h.except j hja (hpj.trans hja) hj0 hji
  · intro j hj _ hj0 hp0 hpj
    have hja : j < a.size := by simpa using hj
    have hpp := parent_lt hp0
    have hup := h.except (parent i) hp (hpp.trans hp) hp0 hpi.ne
    rw [Array.getElem_swap, Array.getElem_swap]
    have hjp : j ≠ parent i := fun he => by have := parent_lt hj0; omega
    by_cases hji : j = i
    · subst hji
      simpa [(hpp.trans hpi).ne, hpp.ne] using hup
    · have := h.except j hja (hpj ▸ hp) hj0 hji
      simp only [hpj] at this
      simpa [(hpp.trans hpi).ne, hpp.ne, hji, hjp] using hup.trans this

theorem UpReady.finish {a : Array α} {i : ℕ} (h : UpReady key a i)
    (hstop : ∀ (_ : i < a.size) (_ : parent i < a.size), 0 < i → key a[parent i] ≤ key a[i]) :
    Ordered key a := by
  intro j hj hp h0
  by_cases hji : j = i
  · subst hji
    exact hstop hj hp h0
  · exact h.except j hj hp h0 hji

theorem siftUp_ordered (fuel : ℕ) (a : Array α) (i : ℕ) (hf : i < fuel)
    (h : UpReady key a i) : Ordered key (siftUp key fuel a i) := by
  induction fuel generalizing a i with
  | zero => omega
  | succ fuel ih =>
    rw [siftUp]
    split_ifs with hc hlt
    · have := parent_lt hc.1
      exact ih _ _ (by omega) (h.move hc.1 hc.2.1 hc.2.2 hlt)
    · exact h.finish fun _ _ _ => not_lt.mp hlt
    · exact h.finish fun hi hp h0 => absurd ⟨h0, hi, hp⟩ hc

variable (key) in
theorem siftUp_perm (fuel : ℕ) (a : Array α) (i : ℕ) : (siftUp key fuel a i).Perm a := by
  induction fuel generalizing a i with
  | zero => exact Array.Perm.refl _
  | succ fuel ih =>
    rw [siftUp]
    split_ifs
    · exact (ih _ _).trans (Array.swap_perm _ _)
    · exact Array.Perm.refl _
    · exact Array.Perm.refl _

theorem DownReady.move {a : Array α} {i c : ℕ} (h : DownReady key a i) (hc : c < a.size)
    (h0 : 0 < c) (hpc : parent c = i)
    (hmin : ∀ j (_ : j < a.size), 0 < j → parent j = i → key a[c] ≤ key a[j]) :
    DownReady key (a.swap i c h.valid hc) c := by
  have hic : i < c := hpc ▸ parent_lt h0
  refine ⟨by simpa using hc, ?_, ?_⟩
  · intro j hj _ hj0 hjc hpjc
    have hja : j < a.size := by simpa using hj
    have hpj := parent_lt hj0
    rw [Array.getElem_swap, Array.getElem_swap]
    by_cases hji : j = i
    · subst hji
      simpa [hpj.ne, hpjc] using h.grand c hc (hpj.trans hja) h0 hj0 hpc
    · by_cases hpji : parent j = i
      · simpa [hpji, hji, hjc, hic.ne] using hmin j hja hj0 hpji
      · simpa [hpji, hpjc, hji, hjc] using h.except j hja (hpj.trans hja) hj0 hji hpji
  · intro j hj _ hj0 _ hpj
    have hja : j < a.size := by simpa using hj
    have hcj : c < j := hpj ▸ parent_lt hj0
    have := h.except j hja (hpj ▸ hc) hj0 (by omega) (by omega)
    rw [Array.getElem_swap, Array.getElem_swap]
    simp only [hpj] at this
    simpa [hpc, hcj.ne', (hic.trans hcj).ne'] using this

theorem sink_ready (fuel : ℕ) (a : Array α) (i : ℕ) (hf : a.size ≤ fuel + i)
    (h : DownReady key a i) : UpReady key (sink key fuel a i).1 (sink key fuel a i).2 := by
  induction fuel generalizing a i with
  | zero =>
    have := h.valid
    omega
  | succ fuel ih =>
    have hi := h.valid
    have hchild : ∀ {j}, 0 < j → parent j = i → j = 2 * i + 1 ∨ j = 2 * i + 2 :=
      fun hj hp => (parent_eq_iff hj).mp hp
    have hleft : parent (2 * i + 1) = i := (parent_eq_iff (by omega)).mpr (.inl rfl)
    have hright : parent (2 * i + 2) = i := (parent_eq_iff (by omega)).mpr (.inr rfl)
    rw [sink]
    split_ifs with hr hlt hl
    · refine ih _ _ (by rw [Array.size_swap]; omega) (h.move (by omega) (by omega) hleft ?_)
      intro j hj hj0 hp
      rcases hchild hj0 hp with rfl | rfl
      · exact le_rfl
      · exact hlt.le
    · refine ih _ _ (by rw [Array.size_swap]; omega) (h.move (by omega) (by omega) hright ?_)
      intro j hj hj0 hp
      rcases hchild hj0 hp with rfl | rfl
      · exact not_lt.mp hlt
      · exact le_rfl
    · have hm := h.move hl (by omega) hleft (by
        intro j hj hj0 hp
        rcases hchild hj0 hp with rfl | rfl
        · exact le_rfl
        · omega)
      -- the only child of `i` is the last entry, so nothing hangs below it
      refine ⟨hm.valid, fun j hj hp hj0 hne => hm.except j hj hp hj0 hne ?_, hm.grand⟩
      rw [Array.size_swap] at hj
      simp only [parent]
      omega
    · refine ⟨hi, fun j hj hp hj0 hne => h.except j hj hp hj0 hne ?_, h.grand⟩
      change j < a.size at hj
      simp only [parent]
      omega

variable (key) in
theorem sink_perm (fuel : ℕ) (a : Array α) (i : ℕ) : (sink key fuel a i).1.Perm a := by
  induction fuel generalizing a i with
  | zero => exact Array.Perm.refl _
  | succ fuel ih =>
    rw [sink]
    split_ifs
    · exact (ih _ _).trans (Array.swap_perm _ _)
    · exact (ih _ _).trans (Array.swap_perm _ _)
    · exact Array.swap_perm _ _
    · exact Array.Perm.refl _

theorem pushHeap_ordered {a : Array α} (h : Ordered key a) (x : α) :
    Ordered key (pushHeap key a x) := by
  refine siftUp_ordered _ _ _ (by omega) ⟨by simp, ?_, ?_⟩
  · intro j hj hp h0 hne
    have hja : j < a.size := by
      rw [Array.size_push] at hj
      omega
    have hpj := (parent_lt h0).trans hja
    simpa [Array.getElem_push, hja, hpj] using h j hja hpj h0
  · intro j hj _ h0 _ hp
    have := parent_lt h0
    rw [Array.size_push] at hj
    omega

theorem Ordered.front_le {a : Array α} (h : Ordered key a) (h0 : 0 < a.size) :
    ∀ i (_ : i < a.size), key a[0] ≤ key a[i] := by
  intro i
  induction i using Nat.strongRecOn with
  | ind i ih =>
    intro hi
    by_cases hi0 : 0 < i
    · have hp := parent_lt hi0
      exact (ih (parent i) hp (hp.trans hi)).trans (h i hi (hp.trans hi) hi0)
    · obtain rfl : i = 0 := by omega
      exact le_rfl

theorem moveLast_size (a : Array α) (h : 0 < a.size) : (moveLast a h).size = a.size - 1 := by
  simp [moveLast]

theorem moveLast_perm (a : Array α) (h : 0 < a.size) :
    (a[0] :: (moveLast a h).toList).Perm a.toList := by
  have hne : (a.swap 0 (a.size - 1) h (by omega)).toList ≠ [] :=
    List.ne_nil_of_length_pos (by simpa using h)
  have hget : (a.swap 0 (a.size - 1) h (by omega)).toList.getLast hne = a[0] := by
    simp [List.getLast_eq_getElem]
  have hlast := List.dropLast_append_getLast hne
  rw [hget, ← Array.toList_pop] at hlast
  calc a[0] :: (moveLast a h).toList
    _ ~ (moveLast a h).toList ++ [a[0]] := (List.perm_append_singleton _ _).symm
    _ ~ (a.swap 0 (a.size - 1) h (by omega)).toList := List.Perm.of_eq hlast
    _ ~ a.toList := Array.perm_iff_toList_perm.mp (Array.swap_perm _ _)

theorem moveLast_ready {a : Array α} (h : Ordered key a) (h0 : 0 < a.size)
    (hone : 0 < (moveLast a h0).size) : DownReady key (moveLast a h0) 0 := by
  have hsize := moveLast_size a h0
  refine ⟨hone, ?_, fun _ _ _ _ hc => absurd hc (lt_irrefl 0)⟩
  intro j hj hpj' hj0 hne hp
  have hpj := parent_lt hj0
  have hja : j ≠ a.size - 1 := by omega
  have hpa : parent j ≠ a.size - 1 := by omega
  simpa [moveLast, Array.getElem_swap, hne, hp, hja, hpa] using h j (by omega) (by omega) hj0

variable (key) in
theorem popHeap_perm_moveLast (a : Array α) (h : 0 < a.size) :
    (popHeap key a).Perm (moveLast a h) := by
  rw [popHeap, dif_pos h]
  exact (siftUp_perm key _ _ _).trans (sink_perm key _ _ _)

theorem popHeap_ordered {a : Array α} (h : Ordered key a) : Ordered key (popHeap key a) := by
  by_cases h0 : 0 < a.size
  · have hsize := moveLast_size a h0
    by_cases hone : 0 < (moveLast a h0).size
    · have hup := sink_ready a.size _ 0 (by omega) (moveLast_ready h h0 hone)
      have hperm := (sink_perm key a.size (moveLast a h0) 0).size_eq
      have hvalid := hup.valid
      rw [popHeap, dif_pos h0]
      exact siftUp_ordered _ _ _ (by omega) hup
    · intro j hj
      have := (popHeap_perm_moveLast key a h0).size_eq
      omega
  · rwa [popHeap, dif_neg h0]

variable (key) in
/-- `std::priority_queue`: the container together with its heap order. -/
structure PriorityQueue where
  arr : Array α
  ordered : Ordered key arr

namespace PriorityQueue

def empty : PriorityQueue key := ⟨#[], fun _ hj => absurd hj (by simp)⟩

def push (q : PriorityQueue key) (x : α) : PriorityQueue key :=
  ⟨pushHeap key q.arr x, pushHeap_ordered q.ordered x⟩

def pop (q : PriorityQueue key) : PriorityQueue key :=
  ⟨popHeap key q.arr, popHeap_ordered q.ordered⟩

def top? (q : PriorityQueue key) : Option α := q.arr[0]?

def toList (q : PriorityQueue key) : List α := q.arr.toList

@[simp] theorem toList_empty : (empty : PriorityQueue key).toList = [] := rfl

theorem toList_push (q : PriorityQueue key) (x : α) : (q.push x).toList ~ x :: q.toList := by
  have h := Array.perm_iff_toList_perm.mp (siftUp_perm key (q.arr.size + 1) (q.arr.push x) q.arr.size)
  rw [Array.toList_push] at h
  exact h.trans (List.perm_append_singleton _ _)

theorem toList_pop {q : PriorityQueue key} {x : α} (h : q.top? = some x) :
    x :: q.pop.toList ~ q.toList := by
  obtain ⟨h0, rfl⟩ := Array.getElem?_eq_some_iff.mp h
  have hpop := Array.perm_iff_toList_perm.mp (popHeap_perm_moveLast key q.arr h0)
  exact (hpop.cons _).trans (moveLast_perm q.arr h0)

theorem top?_le {q : PriorityQueue key} {x : α} (h : q.top? = some x) :
    ∀ y ∈ q.toList, key x ≤ key y := by
  obtain ⟨h0, rfl⟩ := Array.getElem?_eq_some_iff.mp h
  intro y hy
  obtain ⟨i, hi, rfl⟩ := List.getElem_of_mem hy
  exact q.ordered.front_le h0 i (by simpa [toList] using hi)

theorem toList_eq_nil_of_top? {q : PriorityQueue key} (h : q.top? = none) : q.toList = [] := by
  simpa [top?, toList] using h

end PriorityQueue

end KeyedHeap
