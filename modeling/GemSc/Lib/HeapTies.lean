import GemSc.Lib.KeyedHeap

/-! Entries of equal key in a heap, told apart by their age. The heap does not see the age; a
pop keeps the order by key and then age if on the way down every entry that moves up is the
first in this order among those that it is compared with. -/

namespace KeyedHeap
open scoped List

variable {α κ : Type*} [LinearOrder κ] (key : α → κ) (age : α → ℕ)

def aged (x : α) : κ ×ₗ ℕ := toLex (key x, age x)

/-- If the entry at `i` goes down from there, the child that takes its place comes before it
and before the other child, and `rest` holds from that child on. -/
def FairAt (rest : Array α → ℕ → Prop) (a : Array α) (i : ℕ) : Prop :=
  ∀ c ∈ lowerChild key a i, ∀ hi : i < a.size, key a[c] ≤ key a[i] →
    aged key age a[c] ≤ aged key age a[i] ∧
    (∀ d : Fin a.size, 0 < d.val → parent d = i → aged key age a[c] ≤ aged key age a[d]) ∧
    rest (a.swap i c hi c.2) c

def Fair : ℕ → Array α → ℕ → Prop
  | 0 => fun _ _ => True
  | fuel + 1 => FairAt key age (Fair fuel)

instance FairAt.decidable (rest : Array α → ℕ → Prop) [∀ a i, Decidable (rest a i)]
    (a : Array α) (i : ℕ) : Decidable (FairAt key age rest a i) :=
  inferInstanceAs (Decidable (∀ c ∈ lowerChild key a i, ∀ hi : i < a.size, key a[c] ≤ key a[i] →
    aged key age a[c] ≤ aged key age a[i] ∧
    (∀ d : Fin a.size, 0 < d.val → parent d = i → aged key age a[c] ≤ aged key age a[d]) ∧
    rest (a.swap i c hi c.2) c))

instance Fair.decidable : ∀ (fuel : ℕ) (a : Array α) (i : ℕ), Decidable (Fair key age fuel a i)
  | 0, _, _ => inferInstanceAs (Decidable True)
  | fuel + 1, a, i =>
    have := Fair.decidable fuel
    inferInstanceAs (Decidable (FairAt key age (Fair key age fuel) a i))

def FairPop (a : Array α) : Prop :=
  ∀ h : 0 < a.size, Fair key age a.size (moveLast a h) 0

instance FairPop.decidable (a : Array α) : Decidable (FairPop key age a) :=
  inferInstanceAs (Decidable (∀ h : 0 < a.size, Fair key age a.size (moveLast a h) 0))

variable {key age}

theorem aged_le_iff {x y : α} :
    aged key age x ≤ aged key age y ↔ key x < key y ∨ key x = key y ∧ age x ≤ age y :=
  Prod.Lex.toLex_le_toLex

theorem aged_lt_iff {x y : α} :
    aged key age x < aged key age y ↔ key x < key y ∨ key x = key y ∧ age x < age y :=
  Prod.Lex.toLex_lt_toLex

theorem key_le_of_aged {x y : α} (h : aged key age x ≤ aged key age y) : key x ≤ key y := by
  rcases aged_le_iff.mp h with h | ⟨h, -⟩
  · exact h.le
  · exact h.le

theorem aged_le_of_key_lt {x y : α} (h : key x < key y) : aged key age x ≤ aged key age y :=
  aged_le_iff.mpr (.inl h)

theorem aged_lt_iff_of_younger {x y : α} (h : age y ≤ age x) :
    aged key age x < aged key age y ↔ key x < key y := by
  rw [aged_lt_iff]
  constructor
  · rintro (hlt | ⟨-, hage⟩)
    · exact hlt
    · exact absurd hage (not_lt.mpr h)
  · exact .inl

section LowerChild
variable {a : Array α} {i : ℕ} {c : Fin a.size}

theorem parent_left (i : ℕ) : parent (2 * i + 1) = i := (parent_eq_iff (by omega)).mpr (.inl rfl)

theorem parent_right (i : ℕ) : parent (2 * i + 2) = i := (parent_eq_iff (by omega)).mpr (.inr rfl)

theorem lowerChild_cases (h : c ∈ lowerChild key a i) :
    (c.val = 2 * i + 1 ∧ ∀ _ : 2 * i + 2 < a.size, key a[c] < key a[2 * i + 2]) ∨
    (c.val = 2 * i + 2 ∧ ∀ _ : 2 * i + 1 < a.size, key a[c] ≤ key a[2 * i + 1]) := by
  rw [lowerChild] at h
  split_ifs at h with hr hlt hl
  · obtain rfl := Option.mem_some_iff.mp h
    exact .inl ⟨rfl, fun _ => hlt⟩
  · obtain rfl := Option.mem_some_iff.mp h
    exact .inr ⟨rfl, fun _ => not_lt.mp hlt⟩
  · obtain rfl := Option.mem_some_iff.mp h
    exact .inl ⟨rfl, fun hr' => absurd hr' hr⟩
  · cases h

theorem parent_lowerChild (h : c ∈ lowerChild key a i) : 0 < c.val ∧ parent c = i := by
  rcases lowerChild_cases h with ⟨hc, -⟩ | ⟨hc, -⟩ <;> rw [hc]
  · exact ⟨by omega, parent_left i⟩
  · exact ⟨by omega, parent_right i⟩

theorem lowerChild_le (h : c ∈ lowerChild key a i) (j : ℕ) (hj : j < a.size) (hj0 : 0 < j)
    (hp : parent j = i) : key a[c] ≤ key a[j] := by
  rcases lowerChild_cases h with ⟨hc, hmin⟩ | ⟨hc, hmin⟩
  · rcases (parent_eq_iff hj0).mp hp with rfl | rfl
    · exact le_of_eq (by simp [hc])
    · exact (hmin hj).le
  · rcases (parent_eq_iff hj0).mp hp with rfl | rfl
    · exact hmin hj
    · exact le_of_eq (by simp [hc])

theorem no_child_of_lowerChild (h : lowerChild key a i = none) (j : ℕ) (hj : j < a.size)
    (hj0 : 0 < j) : parent j ≠ i := by
  intro hp
  rw [lowerChild] at h
  split_ifs at h with hr hlt hl
  rcases (parent_eq_iff hj0).mp hp with rfl | rfl
  · exact hl hj
  · exact hr hj

theorem sink_of_none (h : lowerChild key a i = none) (fuel : ℕ) : sink key fuel a i = (a, i) := by
  cases fuel with
  | zero => rfl
  | succ fuel =>
    have hl : ¬ 2 * i + 1 < a.size :=
      fun hl => no_child_of_lowerChild h _ hl (by omega) (parent_left i)
    have hr : ¬ 2 * i + 2 < a.size := fun hr => hl (by omega)
    rw [sink, dif_neg hr, dif_neg hl]

theorem sink_of_lowerChild (h : c ∈ lowerChild key a i) (hi : i < a.size) (fuel : ℕ) :
    sink key (fuel + 1) a i = sink key fuel (a.swap i c hi c.2) c := by
  have h' := h
  rw [lowerChild] at h'
  rw [sink]
  split_ifs at h' ⊢ with hr hlt hl
  · obtain rfl := Option.mem_some_iff.mp h'
    rfl
  · obtain rfl := Option.mem_some_iff.mp h'
    rfl
  · -- the only child is the last entry, where the descent ends
    obtain rfl := Option.mem_some_iff.mp h'
    refine (sink_of_none ?_ fuel).symm
    rw [lowerChild, dif_neg, dif_neg]
    · rw [Array.size_swap]
      omega
    · rw [Array.size_swap]
      omega
  · cases h'

end LowerChild

section SiftUp
variable {a : Array α} {i f g : ℕ}

theorem siftUp_congr (hf : i < f) (hg : i < g) : siftUp key f a i = siftUp key g a i := by
  induction f generalizing a i g with
  | zero => omega
  | succ f ih =>
    cases g with
    | zero => omega
    | succ g =>
      rw [siftUp, siftUp]
      split_ifs with hc
      · have := parent_lt hc.1
        exact ih (by omega) (by omega)
      · rfl
      · rfl

theorem siftUp_stop (hstop : ∀ (_ : i < a.size) (_ : parent i < a.size), 0 < i →
    key a[parent i] ≤ key a[i]) : siftUp key f a i = a := by
  cases f with
  | zero => rfl
  | succ f =>
    rw [siftUp]
    split_ifs with hc hlt
    · exact absurd hlt (not_lt.mpr (hstop hc.2.1 hc.2.2 hc.1))
    · rfl
    · rfl

theorem siftUp_swap {c : ℕ} (hi : i < a.size) (hc : c < a.size) (h0 : 0 < c) (hp : parent c = i)
    (hlt : key a[i] < key a[c]) (hf : c < f) (hg : i < g) :
    siftUp key f (a.swap i c hi hc) c = siftUp key g a i := by
  obtain ⟨f, rfl⟩ : ∃ n, f = n + 1 := ⟨f - 1, by omega⟩
  have hic : i < c := hp ▸ parent_lt h0
  have hcond : 0 < c ∧ c < (a.swap i c hi hc).size ∧ parent c < (a.swap i c hi hc).size :=
    ⟨h0, by simpa using hc, by simpa [hp] using hi⟩
  have hback : key (a.swap i c hi hc)[c] < key (a.swap i c hi hc)[parent c] := by
    simpa [hp] using hlt
  rw [siftUp, dif_pos hcond, if_pos hback]
  have hswap : (a.swap i c hi hc).swap c (parent c) hcond.2.1 hcond.2.2 = a := by
    simp only [hp]
    rw [Array.swap_comm]
    exact Array.swap_swap hi hc
  rw [hswap, hp]
  exact siftUp_congr (by omega) hg

/-- The comparisons of the sift-up come out the same with the ages, if it moves the youngest. -/
theorem siftUp_aged (hi : i < a.size) (h : ∀ j (_ : j < a.size), age a[j] ≤ age a[i]) :
    siftUp key f a i = siftUp (aged key age) f a i := by
  induction f generalizing a i with
  | zero => rfl
  | succ f ih =>
    rw [siftUp, siftUp]
    split_ifs with hc hlt hlt' hlt'
    · have hp : parent i < (a.swap i (parent i) hc.2.1 hc.2.2).size := by simpa using hc.2.2
      apply ih hp
      intro j hj
      rw [Array.getElem_swap_right, Array.getElem_swap]
      split_ifs
      · exact h _ _
      · exact le_rfl
      · exact h _ _
    · exact absurd ((aged_lt_iff_of_younger (h _ _)).mpr hlt) hlt'
    · exact absurd ((aged_lt_iff_of_younger (h _ _)).mp hlt') hlt
    · rfl
    · rfl

end SiftUp

theorem pushHeap_aged {a : Array α} {x : α} (h : ∀ y ∈ a, age y ≤ age x) :
    pushHeap key a x = pushHeap (aged key age) a x := by
  apply siftUp_aged (by simp)
  intro j hj
  rw [Array.getElem_push_eq, Array.getElem_push]
  split_ifs
  · exact h _ (Array.getElem_mem _)
  · exact le_rfl

theorem DownReady.of_aged {a : Array α} {i : ℕ} (h : DownReady (aged key age) a i) :
    DownReady key a i :=
  ⟨h.valid, fun j hj hp h0 hi hpi => key_le_of_aged (h.except j hj hp h0 hi hpi),
    fun j hj hp h0 hi hpi => key_le_of_aged (h.grand j hj hp h0 hi hpi)⟩

theorem siftUp_sink {a : Array α} {i fuel f : ℕ} (hi : i < a.size)
    (h : DownReady key a i) (hf : a.size ≤ f)
    (hlow : ∀ j (_ : j < a.size), 0 < j → parent j = i → key a[i] < key a[j]) :
    siftUp key f (sink key fuel a i).1 (sink key fuel a i).2 = siftUp key f a i := by
  induction fuel generalizing a i with
  | zero => rfl
  | succ fuel ih =>
    cases hc : lowerChild key a i with
    | none => rw [sink_of_none hc]
    | some c =>
      obtain ⟨hc0, hpc⟩ := parent_lowerChild hc
      have hic : i < c := hpc ▸ parent_lt hc0
      have hlt : key a[i] < key a[c.val] := hlow c c.2 hc0 hpc
      have hmove := h.move c.2 hc0 hpc (fun j hj hj0 hp => lowerChild_le hc j hj hj0 hp)
      rw [sink_of_lowerChild hc hi, ih hmove.valid hmove (by rwa [Array.size_swap])]
      · exact siftUp_swap hi c.2 hc0 hpc hlt (c.2.trans_le hf) (hi.trans_le hf)
      · intro j hj hj0 hp
        have hja : j < a.size := by simpa using hj
        have hcj : c.val < j := hp ▸ parent_lt hj0
        have hcle := h.except j hja (hp ▸ c.2) hj0 (by omega) (by omega)
        rw [Array.getElem_swap_right, Array.getElem_swap, if_neg (by omega), if_neg (by omega)]
        simp only [hp] at hcle
        exact hlt.trans_le hcle

theorem siftUp_sink_stop {a : Array α} {i fuel f : ℕ} (hi : i < a.size)
    (h : DownReady key a i) (hf : a.size ≤ f)
    (hup : ∀ _ : parent i < a.size, 0 < i → key a[parent i] ≤ key a[i])
    (hlow : ∀ j (_ : j < a.size), 0 < j → parent j = i → key a[i] < key a[j]) :
    siftUp key f (sink key fuel a i).1 (sink key fuel a i).2 = a := by
  rw [siftUp_sink hi h hf hlow]
  exact siftUp_stop fun _ hp h0 => hup hp h0

/-- The way of the last entry through a heap in order of key and age keeps this order if it is
fair. -/
theorem siftUp_sink_ordered {a : Array α} {i fuel f : ℕ} (hi : i < a.size)
    (h : DownReady (aged key age) a i) (hfuel : a.size ≤ fuel + i) (hf : a.size ≤ f)
    (hup : ∀ _ : parent i < a.size, 0 < i → aged key age a[parent i] ≤ aged key age a[i])
    (hfair : Fair key age fuel a i) :
    Ordered (aged key age) (siftUp key f (sink key fuel a i).1 (sink key fuel a i).2) := by
  induction fuel generalizing a i with
  | zero => exact absurd hi (by omega)
  | succ fuel ih =>
    -- where the entry stops, nothing below it comes before it
    have hstop : (∀ j (_ : j < a.size), 0 < j → parent j = i → key a[i] < key a[j]) →
        Ordered (aged key age) (siftUp key f (sink key (fuel + 1) a i).1
          (sink key (fuel + 1) a i).2) := by
      intro hlow
      rw [siftUp_sink_stop hi h.of_aged hf (fun hp h0 => key_le_of_aged (hup hp h0)) hlow]
      intro j hj hp hj0
      by_cases hpi : parent j = i
      · have hbelow : aged key age a[i] ≤ aged key age a[j] := aged_le_of_key_lt (hlow j hj hj0 hpi)
        simpa only [hpi] using hbelow
      · by_cases hji : j = i
        · subst hji
          exact hup hp hj0
        · exact h.except j hj hp hj0 hji hpi
    cases hc : lowerChild key a i with
    | none =>
      exact hstop fun j hj hj0 hp => absurd hp (no_child_of_lowerChild hc j hj hj0)
    | some c =>
      obtain ⟨hc0, hpc⟩ := parent_lowerChild hc
      have hic : i < c := hpc ▸ parent_lt hc0
      by_cases hle : key a[c.val] ≤ key a[i]
      · obtain ⟨hself, hsib, hrest⟩ := hfair c hc hi hle
        have hmove := h.move c.2 hc0 hpc (fun j hj hj0 hp => hsib ⟨j, hj⟩ hj0 hp)
        rw [sink_of_lowerChild hc hi]
        apply ih hmove.valid hmove (by rw [Array.size_swap]; omega) (by rwa [Array.size_swap]) _ hrest
        intro hp _
        simpa [hpc] using hself
      · apply hstop
        intro j hj hj0 hp
        exact (not_le.mp hle).trans_le (lowerChild_le hc j hj hj0 hp)

section Exact

inductive Below (i : ℕ) : ℕ → Prop
  | self : Below i i
  | child {j : ℕ} : 0 < j → Below i (parent j) → Below i j

theorem Below.le {i j : ℕ} (h : Below i j) : i ≤ j := by
  induction h with
  | self => exact le_rfl
  | child hj _ ih => exact ih.trans (parent_lt hj).le

theorem Below.of_parent {c j : ℕ} (hc : 0 < c) (h : Below c j) : Below (parent c) j := by
  induction h with
  | self => exact .child hc .self
  | child hj _ ih => exact .child hj ih

theorem not_below_sibling {c d : ℕ} (hc : 0 < c) (hp : parent d = parent c) (hne : d ≠ c) :
    ¬ Below c d := by
  intro h
  cases h with
  | self => exact hne rfl
  | child _ hbelow =>
    have hle := hbelow.le
    have hlt := parent_lt hc
    omega

theorem Ordered.le_below {a : Array α} (h : Ordered key a) {i j : ℕ} (hij : Below i j)
    (hi : i < a.size) (hj : j < a.size) : key a[i] ≤ key a[j] := by
  induction hij with
  | self => exact le_rfl
  | child hj0 _ ih =>
    have hp := (parent_lt hj0).trans hj
    exact (ih hp).trans (h _ hj hp hj0)

theorem Ordered.le_of_below {a : Array α} (h : Ordered key a) {i j : ℕ} (hij : Below i j) {x y : α}
    (hx : a[i]? = some x) (hy : a[j]? = some y) : key x ≤ key y := by
  obtain ⟨hi, rfl⟩ := Array.getElem?_eq_some_iff.mp hx
  obtain ⟨hj, rfl⟩ := Array.getElem?_eq_some_iff.mp hy
  exact h.le_below hij hi hj

/-- Where the entry at `i` ends up, and that only what is below `i` changes place. -/
structure Settled (a r : Array α) (i : ℕ) : Prop where
  frame : ∀ j, ¬ Below i j → r[j]? = a[j]?
  place : ∃ p, Below i p ∧ r[p]? = a[i]?

theorem Settled.refl (a : Array α) (i : ℕ) : Settled a a i := ⟨fun _ _ => rfl, i, .self, rfl⟩

theorem Settled.swap {a r : Array α} {i c : ℕ} (hi : i < a.size) (hc : c < a.size) (h0 : 0 < c)
    (hp : parent c = i) (h : Settled (a.swap i c hi hc) r c) : Settled a r i := by
  have hbelow : ∀ {j}, Below c j → Below i j := fun hj => hp ▸ hj.of_parent h0
  refine ⟨?_, ?_⟩
  · intro j hj
    have hji : j ≠ i := fun he => hj (he ▸ .self)
    have hjc : j ≠ c := fun he => hj (he ▸ hbelow .self)
    rw [h.frame j fun hcj => hj (hbelow hcj), Array.getElem?_swap, if_neg hji.symm, if_neg hjc.symm]
  · obtain ⟨p, hcp, hval⟩ := h.place
    refine ⟨p, hbelow hcp, hval.trans ?_⟩
    rw [Array.getElem?_swap]
    simp [hi]

theorem Settled.top {a r : Array α} {i c : ℕ} (hi : i < a.size) (hc : c < a.size) (h0 : 0 < c)
    (hp : parent c = i) (h : Settled (a.swap i c hi hc) r c) :
    r[i]? = some a[c] ∧
      (∀ d (_ : d < a.size), 0 < d → parent d = i → d ≠ c → r[d]? = some a[d]) ∧
      ∃ p, Below i p ∧ r[p]? = some a[i] := by
  have hic : i < c := hp ▸ parent_lt h0
  refine ⟨?_, ?_, ?_⟩
  · rw [h.frame i fun hbelow => absurd hbelow.le hic.not_ge, Array.getElem?_swap, if_neg hic.ne',
      if_pos rfl]
  · intro d hd hd0 hpd hdc
    have hid : i < d := hpd ▸ parent_lt hd0
    rw [h.frame d (not_below_sibling h0 (hpd.trans hp.symm) hdc), Array.getElem?_swap,
      if_neg hdc.symm, if_neg hid.ne, Array.getElem?_eq_getElem hd]
  · obtain ⟨p, hbelow, hval⟩ := h.place
    refine ⟨p, hp ▸ hbelow.of_parent h0, ?_⟩
    rw [hval, Array.getElem?_swap, if_pos rfl]

theorem settled_sink {a : Array α} {i fuel f : ℕ} (hi : i < a.size) (h : DownReady key a i)
    (hf : a.size ≤ f) (hfuel : a.size ≤ fuel + i)
    (hup : ∀ _ : parent i < a.size, 0 < i → key a[parent i] ≤ key a[i]) :
    Settled a (siftUp key f (sink key fuel a i).1 (sink key fuel a i).2) i := by
  induction fuel generalizing a i with
  | zero => exact absurd hi (by omega)
  | succ fuel ih =>
    -- at a stop the entry comes up to `i` again; a step down settles below the child
    cases hc : lowerChild key a i with
    | none =>
      have hlow : ∀ j (_ : j < a.size), 0 < j → parent j = i → key a[i] < key a[j] :=
        fun j hj hj0 hp => absurd hp (no_child_of_lowerChild hc j hj hj0)
      rw [siftUp_sink_stop hi h hf hup hlow]
      exact .refl a i
    | some c =>
      obtain ⟨hc0, hpc⟩ := parent_lowerChild hc
      have hic : i < c := hpc ▸ parent_lt hc0
      by_cases hle : key a[c.val] ≤ key a[i]
      · have hmove := h.move c.2 hc0 hpc (fun j hj hj0 hp => lowerChild_le hc j hj hj0 hp)
        rw [sink_of_lowerChild hc hi]
        apply (ih hmove.valid hmove (by rwa [Array.size_swap]) (by rw [Array.size_swap]; omega) _).swap
          hi c.2 hc0 hpc
        intro _ _
        simpa [hpc] using hle
      · have hlow : ∀ j (_ : j < a.size), 0 < j → parent j = i → key a[i] < key a[j] :=
          fun j hj hj0 hp => (not_le.mp hle).trans_le (lowerChild_le hc j hj hj0 hp)
        rw [siftUp_sink_stop hi h hf hup hlow]
        exact .refl a i

/-- An unfair step down shows in the array that comes out: an entry is above an older one. -/
theorem fair_of_ordered {a : Array α} {i fuel f : ℕ} (hi : i < a.size)
    (h : DownReady (aged key age) a i) (hf : a.size ≤ f) (hfuel : a.size ≤ fuel + i)
    (hup : ∀ _ : parent i < a.size, 0 < i → key a[parent i] ≤ key a[i])
    (hord : Ordered (aged key age)
      (siftUp key f (sink key fuel a i).1 (sink key fuel a i).2)) : Fair key age fuel a i := by
  induction fuel generalizing a i with
  | zero => exact trivial
  | succ fuel ih =>
    intro c hc hi hle
    obtain ⟨hc0, hpc⟩ := parent_lowerChild hc
    have hic : i < c := hpc ▸ parent_lt hc0
    have hmove := h.of_aged.move c.2 hc0 hpc (fun j hj hj0 hp => lowerChild_le hc j hj hj0 hp)
    rw [sink_of_lowerChild hc hi] at hord
    have hcv := hmove.valid
    have hupc : ∀ _ : parent c < (a.swap i c hi c.2).size, 0 < c.val →
        key (a.swap i c hi c.2)[parent c] ≤ key (a.swap i c hi c.2)[c.val] := by
      intro _ _
      simpa [hpc] using hle
    have hset : Settled (a.swap i c hi c.2) (siftUp key f (sink key fuel (a.swap i c hi c.2) c).1
        (sink key fuel (a.swap i c hi c.2) c).2) c :=
      settled_sink hcv hmove (by rwa [Array.size_swap]) (by rw [Array.size_swap]; omega) hupc
    generalize hr : siftUp key f (sink key fuel (a.swap i c hi c.2) c).1
      (sink key fuel (a.swap i c hi c.2) c).2 = r at hord hset
    -- the order of the outcome says where the child stood against what is now below it
    obtain ⟨htop, hother, p, hbelow, hplace⟩ := hset.top hi c.2 hc0 hpc
    have hsib : ∀ d : Fin a.size, 0 < d.val → parent d = i →
        aged key age a[c.val] ≤ aged key age a[d.val] := by
      intro d hd0 hpd
      by_cases hdc : d.val = c.val
      · simp [hdc]
      · exact hord.le_of_below (hpd ▸ .child hd0 .self) htop (hother d d.2 hd0 hpd hdc)
    have hself : aged key age a[c.val] ≤ aged key age a[i] := hord.le_of_below hbelow htop hplace
    refine ⟨hself, hsib, ?_⟩
    have hmove' := h.move c.2 hc0 hpc (fun j hj hj0 hp => hsib ⟨j, hj⟩ hj0 hp)
    apply ih hmove'.valid hmove' (by rwa [Array.size_swap]) (by rw [Array.size_swap]; omega) hupc
    rw [hr]
    exact hord

end Exact

/-- Taking the front out keeps the order by key and age exactly when it is fair. -/
theorem popHeap_aged_ordered_iff {a : Array α} (h : Ordered (aged key age) a) :
    Ordered (aged key age) (popHeap key a) ↔ FairPop key age a := by
  by_cases h0 : 0 < a.size
  · have hsize := moveLast_size a h0
    by_cases hone : 0 < (moveLast a h0).size
    · have hready : DownReady (aged key age) (moveLast a h0) 0 := moveLast_ready h h0 hone
      rw [popHeap, dif_pos h0]
      constructor
      · intro hord _
        exact fair_of_ordered hone hready (by omega) (by omega)
          (fun _ hc => absurd hc (lt_irrefl 0)) hord
      · intro hfair
        exact siftUp_sink_ordered hone hready (by omega) (by omega)
          (fun _ hc => absurd hc (lt_irrefl 0)) (hfair h0)
    · have hpop := (popHeap_perm_moveLast key a h0).size_eq
      constructor
      · intro _ _
        have hone' : a.size = 0 + 1 := by omega
        rw [hone']
        intro c
        exact absurd c.2 (by omega)
      · intro _ j hj
        omega
  · constructor
    · intro _ h0'
      exact absurd h0' h0
    · intro _
      rwa [popHeap, dif_neg h0]

theorem pushHeap_aged_ordered {a : Array α} {x : α} (h : Ordered (aged key age) a)
    (hx : ∀ y ∈ a, age y ≤ age x) : Ordered (aged key age) (pushHeap key a x) := by
  rw [pushHeap_aged hx]
  exact pushHeap_ordered h x

theorem Ordered.empty : Ordered key (#[] : Array α) := fun _ hj => absurd hj (by simp)

theorem PriorityQueue.aged_le_of_top? {q : PriorityQueue key} {x y : α}
    (h : Ordered (aged key age) q.arr) (htop : q.top? = some x) (hy : y ∈ q.toList) :
    aged key age x ≤ aged key age y :=
  top?_le (q := ⟨q.arr, h⟩) htop y hy

section Map
variable {β : Type*} {key' : β → κ} {f : α → β}

theorem map_swap (a : Array α) (i j : ℕ) (hi : i < a.size) (hj : j < a.size) :
    (a.swap i j hi hj).map f = (a.map f).swap i j (by simpa using hi) (by simpa using hj) := by
  apply Array.ext
  · simp
  · intro k _ _
    simp only [Array.getElem_map, Array.getElem_swap]
    split_ifs <;> rfl

theorem siftUp_map (hk : ∀ x, key' (f x) = key x) (n : ℕ) (a : Array α) (i : ℕ) :
    siftUp key' n (a.map f) i = (siftUp key n a i).map f := by
  induction n generalizing a i with
  | zero => rfl
  | succ n ih =>
    rw [siftUp, siftUp]
    simp only [Array.size_map, Array.getElem_map, hk]
    split_ifs
    · rw [← ih, map_swap]
    · rfl
    · rfl

theorem sink_map (hk : ∀ x, key' (f x) = key x) (n : ℕ) (a : Array α) (i : ℕ) :
    sink key' n (a.map f) i = ((sink key n a i).1.map f, (sink key n a i).2) := by
  induction n generalizing a i with
  | zero => rfl
  | succ n ih =>
    rw [sink, sink]
    simp only [Array.size_map, Array.getElem_map, hk]
    split_ifs
    · rw [← ih, map_swap]
    · rw [← ih, map_swap]
    · rw [map_swap]
    · rfl

theorem pushHeap_map (hk : ∀ x, key' (f x) = key x) (a : Array α) (x : α) :
    pushHeap key' (a.map f) (f x) = (pushHeap key a x).map f := by
  rw [pushHeap, pushHeap, ← Array.map_push, siftUp_map hk, Array.size_map]

theorem popHeap_map (hk : ∀ x, key' (f x) = key x) (a : Array α) :
    popHeap key' (a.map f) = (popHeap key a).map f := by
  rw [popHeap, popHeap]
  simp only [Array.size_map]
  split_ifs with h
  · have hlast : moveLast (a.map f) (by simpa using h) = (moveLast a h).map f := by
      simp [moveLast, map_swap]
    rw [hlast, sink_map hk, siftUp_map hk]
  · rfl

def PriorityQueue.map (f : α → β) (hk : ∀ x, key' (f x) = key x) (q : PriorityQueue key) :
    PriorityQueue key' :=
  ⟨q.arr.map f, by simpa [Ordered, hk] using q.ordered⟩

theorem PriorityQueue.ext {q r : PriorityQueue key} (h : q.arr = r.arr) : q = r := by
  cases q
  cases r
  congr

variable (hk : ∀ x, key' (f x) = key x) (q : PriorityQueue key)

theorem PriorityQueue.map_push (x : α) : (q.map f hk).push (f x) = (q.push x).map f hk :=
  PriorityQueue.ext (pushHeap_map hk q.arr x)

theorem PriorityQueue.map_pop : (q.map f hk).pop = q.pop.map f hk :=
  PriorityQueue.ext (popHeap_map hk q.arr)

theorem PriorityQueue.top?_map : (q.map f hk).top? = q.top?.map f :=
  Array.getElem?_map

end Map

end KeyedHeap
