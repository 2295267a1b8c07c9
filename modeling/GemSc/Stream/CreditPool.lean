import Mathlib

/-! `CreditPool` of `DESIGN_creditstream.md`: the credits that the streams of a producer share. A stream
has a part of them reserved, takes what it needs beyond from the public ones, and waits where there are
none. Its counters are `int`s that wrap; the 64-bit stream numbers are taken not to run out. -/

namespace GemSc
open Function

/-- `CreditPool::WaitEntry` -/
structure WaitEntry where
  streamId : ℕ
  count : Int32
  deriving DecidableEq

/-- The two maps are without an entry where they are `none`. -/
structure CreditPool where
  totalCredits : Int32
  availableCredits : Int32
  reservations : ℕ → Option Int32
  usedCredits : ℕ → Option Int32
  waitQueue : List WaitEntry

namespace CreditPool

def new (credits : Int32) : CreditPool := ⟨credits, credits, fun _ => none, fun _ => none, []⟩

def getReservation (p : CreditPool) (streamId : ℕ) : Int32 := (p.reservations streamId).getD 0

/-- `used_credits[stream_id]` -/
def used (p : CreditPool) (streamId : ℕ) : Int32 := (p.usedCredits streamId).getD 0

def setUsed (p : CreditPool) (streamId : ℕ) (n : Int32) : CreditPool :=
  { p with usedCredits := update p.usedCredits streamId (some n) }

/-- Whether the credits were reserved, and the pool after it. -/
def reserveCredits (p : CreditPool) (streamId : ℕ) (count : Int32) : Bool × CreditPool :=
  if count ≤ p.availableCredits then
    (true, { p with
      reservations := update p.reservations streamId (some count)
      usedCredits := update p.usedCredits streamId (some 0)
      availableCredits := p.availableCredits - count })
  else (false, p)

def wait (streamId : ℕ) : List WaitEntry → List WaitEntry
  | [] => [⟨streamId, 1⟩]
  | e :: rest =>
    if e.streamId = streamId then { e with count := e.count + 1 } :: rest
    else e :: wait streamId rest

/-- `tryGetCredit` of a stream without a reserved credit to use. -/
def tryPublic (p : CreditPool) (streamId : ℕ) : Bool × CreditPool :=
  if p.availableCredits > 0 then
    (true, { p.setUsed streamId (p.used streamId + 1) with
      availableCredits := p.availableCredits - 1 })
  else (false, { p with waitQueue := wait streamId p.waitQueue })

def tryGetCredit (p : CreditPool) (streamId : ℕ) : Bool × CreditPool :=
  match p.reservations streamId, p.usedCredits streamId with
  | some reserved, some used =>
    if used < reserved then (true, p.setUsed streamId (used + 1)) else p.tryPublic streamId
  | _, _ => p.tryPublic streamId

/-- The body of the loop of `wakeWaiters`, with the entries that keep waiting. -/
def wake (s : CreditPool × List WaitEntry) (e : WaitEntry) : CreditPool × List WaitEntry :=
  let (p, waiting) := s
  if p.availableCredits ≥ e.count then
    ({ p.setUsed e.streamId (p.used e.streamId + e.count) with
      availableCredits := p.availableCredits - e.count }, waiting)
  else (p, waiting ++ [e])

def wakeWaiters (p : CreditPool) : CreditPool :=
  let (p, waiting) := p.waitQueue.foldl wake (p, [])
  { p with waitQueue := waiting }

def returnCredit (p : CreditPool) (streamId : ℕ) : CreditPool :=
  match p.usedCredits streamId with
  | none => p
  | some used =>
    if used > 0 then
      let p := p.setUsed streamId (used - 1)
      -- a reserved credit stays with the stream, and nobody is woken
      if (p.reservations streamId).any (used - 1 < ·) then p
      else { p with availableCredits := p.availableCredits + 1 }.wakeWaiters
    else p.wakeWaiters

/-- The credits that a stream holds: those reserved for it, or those in use where these are more. -/
def share (p : CreditPool) (streamId : ℕ) : ℤ :=
  max (p.getReservation streamId).toInt (p.used streamId).toInt

/-- The public credits and those that the streams hold are `limit` at most, and no counter wraps. -/
structure Covered (limit : ℤ) (ids : Finset ℕ) (p : CreditPool) : Prop where
  small : limit < 2 ^ 31
  available : 0 ≤ p.availableCredits.toInt
  total : p.availableCredits.toInt + ∑ i ∈ ids, p.share i ≤ limit
  reserved : ∀ i, 0 ≤ (p.getReservation i).toInt
  used : ∀ i, 0 ≤ (p.used i).toInt
  outside : ∀ i, i ∉ ids → p.reservations i = none ∧ p.usedCredits i = none

/-- Entries of streams that wait for at least one credit, and for no more than `tries` of the stream. -/
def Waits (ids : Finset ℕ) (tries : ℕ → ℤ) (waiting : List WaitEntry) : Prop :=
  ∀ e ∈ waiting, e.streamId ∈ ids ∧ 1 ≤ e.count.toInt ∧ e.count.toInt ≤ tries e.streamId

def tried (tries : ℕ → ℤ) (i : ℕ) : ℕ → ℤ := fun j => tries j + if j = i then 1 else 0

variable {limit : ℤ} {ids : Finset ℕ} {p q : CreditPool} {i j : ℕ} {a b n : Int32} {tries : ℕ → ℤ}

theorem toInt_add_of_lt (ha : 0 ≤ a.toInt) (hb : 0 ≤ b.toInt) (h : a.toInt + b.toInt < 2 ^ 31) :
    (a + b).toInt = a.toInt + b.toInt := by
  rw [Int32.toInt_add, Int.bmod_eq_of_le (by omega) (by omega)]

theorem toInt_sub_of_le (hb : 0 ≤ b.toInt) (h : b.toInt ≤ a.toInt) :
    (a - b).toInt = a.toInt - b.toInt := by
  have ha := a.toInt_lt
  rw [Int32.toInt_sub, Int.bmod_eq_of_le (by omega) (by omega)]

theorem toInt_one : (1 : Int32).toInt = 1 := by decide

theorem toInt_add_one (ha : 0 ≤ a.toInt) (h : a.toInt + 1 < 2 ^ 31) : (a + 1).toInt = a.toInt + 1 := by
  rw [toInt_add_of_lt (b := 1) ha (by decide) (by rw [toInt_one]; exact h), toInt_one]

theorem toInt_sub_one (h : 0 < a.toInt) : (a - 1).toInt = a.toInt - 1 := by
  rw [toInt_sub_of_le (b := 1) (by decide) (by rw [toInt_one]; omega), toInt_one]

theorem toInt_pos (h : 0 < a) : 0 < a.toInt := Int32.lt_iff_toInt_lt.mp h

theorem le_tried (tries : ℕ → ℤ) (i j : ℕ) : tries j ≤ tried tries i j := by
  unfold tried
  split_ifs <;> omega

theorem Waits.mono {tries' : ℕ → ℤ} {waiting : List WaitEntry} (h : Waits ids tries waiting)
    (hle : ∀ j, tries j ≤ tries' j) : Waits ids tries' waiting :=
  fun e he => ⟨(h e he).1, (h e he).2.1, (h e he).2.2.trans (hle e.streamId)⟩

theorem Covered.share_nonneg (h : Covered limit ids p) (i : ℕ) : 0 ≤ p.share i :=
  (h.used i).trans (le_max_right _ _)

theorem Covered.fits (h : Covered limit ids p) (hi : i ∈ ids) :
    p.availableCredits.toInt + p.share i ≤ limit := by
  have hone : p.share i ≤ ∑ j ∈ ids, p.share j :=
    Finset.single_le_sum (fun j _ => h.share_nonneg j) hi
  have htotal := h.total
  omega

theorem used_setUsed_self : (p.setUsed i n).used i = n := by
  change (update p.usedCredits i (some n) i).getD 0 = n
  rw [update_self]
  rfl

theorem used_setUsed_of_ne (h : j ≠ i) : (p.setUsed i n).used j = p.used j := by
  change (update p.usedCredits i (some n) j).getD 0 = (p.usedCredits j).getD 0
  rw [update_of_ne h]

theorem getReservation_setUsed : (p.setUsed i n).getReservation j = p.getReservation j := rfl

theorem used_of_usedCredits {used : Int32} (h : p.usedCredits i = some used) : p.used i = used := by
  unfold CreditPool.used
  rw [h]
  rfl

theorem share_setUsed_self :
    (p.setUsed i n).share i = max (p.getReservation i).toInt n.toInt := by
  unfold share
  rw [used_setUsed_self, getReservation_setUsed]

theorem share_setUsed_of_ne (h : j ≠ i) : (p.setUsed i n).share j = p.share j := by
  unfold share
  rw [used_setUsed_of_ne h, getReservation_setUsed]

theorem sum_share_setUsed (hi : i ∈ ids) :
    ∑ j ∈ ids, (p.setUsed i n).share j + p.share i =
      ∑ j ∈ ids, p.share j + max (p.getReservation i).toInt n.toInt := by
  rw [← Finset.add_sum_erase ids (p.setUsed i n).share hi, ← Finset.add_sum_erase ids p.share hi,
    share_setUsed_self]
  have hrest : ∑ j ∈ ids.erase i, (p.setUsed i n).share j = ∑ j ∈ ids.erase i, p.share j :=
    Finset.sum_congr rfl fun j hj => share_setUsed_of_ne (Finset.ne_of_mem_erase hj)
  rw [hrest]
  ring

theorem Covered.setUsed (h : Covered limit ids p) (hi : i ∈ ids) (hn : 0 ≤ n.toInt)
    {available : Int32} (havailable : 0 ≤ available.toInt)
    (hpaid : available.toInt + max (p.getReservation i).toInt n.toInt ≤
      p.availableCredits.toInt + p.share i) :
    Covered limit ids { p.setUsed i n with availableCredits := available } where
  small := h.small
  available := havailable
  total := by
    have hsum := sum_share_setUsed (p := p) (n := n) hi
    have htotal := h.total
    change available.toInt + ∑ j ∈ ids, (p.setUsed i n).share j ≤ limit
    linarith
  reserved := h.reserved
  used := fun j => by
    change 0 ≤ ((p.setUsed i n).used j).toInt
    by_cases hj : j = i
    · rw [hj, used_setUsed_self]
      exact hn
    · rw [used_setUsed_of_ne hj]
      exact h.used j
  outside := fun j hj => by
    obtain ⟨hreservation, hused⟩ := h.outside j hj
    refine ⟨hreservation, ?_⟩
    have hne : j ≠ i := fun heq => hj (heq ▸ hi)
    change update p.usedCredits i (some n) j = none
    rw [update_of_ne hne]
    exact hused

theorem Waits.wait (h : Waits ids tries p.waitQueue) (hi : i ∈ ids) (hnonneg : 0 ≤ tries i)
    (hfew : tries i + 1 < 2 ^ 31) :
    Waits ids (tried tries i) (CreditPool.wait i p.waitQueue) := by
  have hnext : tried tries i i = tries i + 1 := by
    unfold tried
    rw [if_pos rfl]
  revert h
  induction p.waitQueue with
  | nil =>
    intro _ e he
    rw [List.mem_singleton.mp he]
    refine ⟨hi, ?_⟩
    change 1 ≤ (1 : Int32).toInt ∧ (1 : Int32).toInt ≤ tried tries i i
    rw [toInt_one, hnext]
    omega
  | cons e rest ih =>
    intro h
    have hrest : Waits ids tries rest := fun e' he' => h e' (List.mem_cons_of_mem _ he')
    obtain ⟨hid, hone, hle⟩ := h e (List.mem_cons_self ..)
    unfold CreditPool.wait
    by_cases hsame : e.streamId = i
    · rw [if_pos hsame]
      rw [hsame] at hle
      have hcount : (e.count + 1).toInt = e.count.toInt + 1 := toInt_add_one (by omega) (by omega)
      intro e' he'
      rcases List.mem_cons.mp he' with rfl | he'
      · refine ⟨hid, ?_⟩
        change 1 ≤ (e.count + 1).toInt ∧ (e.count + 1).toInt ≤ tried tries i e.streamId
        rw [hcount, hsame, hnext]
        omega
      · exact hrest.mono (le_tried tries i) e' he'
    · rw [if_neg hsame]
      intro e' he'
      rcases List.mem_cons.mp he' with rfl | he'
      · exact ⟨hid, hone, hle.trans (le_tried tries i _)⟩
      · exact ih hrest e' he'

theorem Covered.new {credits : Int32} (h : 0 ≤ credits.toInt) :
    Covered credits.toInt ∅ (new credits) where
  small := credits.toInt_lt
  available := h
  total := by
    change credits.toInt + ∑ j ∈ (∅ : Finset ℕ), _ ≤ credits.toInt
    rw [Finset.sum_empty, add_zero]
  reserved := fun _ => le_rfl
  used := fun _ => le_rfl
  outside := fun _ _ => ⟨rfl, rfl⟩

def reserve (p : CreditPool) (streamId : ℕ) (count : Int32) : CreditPool :=
  { p with
    reservations := update p.reservations streamId (some count)
    usedCredits := update p.usedCredits streamId (some 0)
    availableCredits := p.availableCredits - count }

theorem reserveCredits_eq_reserve (h : (p.reserveCredits i n).1 = true) :
    n ≤ p.availableCredits ∧ (p.reserveCredits i n).2 = p.reserve i n := by
  unfold reserveCredits at h ⊢
  by_cases hle : n ≤ p.availableCredits
  · rw [if_pos hle]
    exact ⟨hle, rfl⟩
  · rw [if_neg hle] at h
    exact absurd h Bool.false_ne_true

theorem getReservation_reserve (j : ℕ) :
    (p.reserve i n).getReservation j = if j = i then n else p.getReservation j := by
  change (update p.reservations i (some n) j).getD 0 = _
  by_cases hj : j = i
  · rw [hj, update_self, if_pos rfl]
    rfl
  · rw [update_of_ne hj, if_neg hj]
    rfl

theorem used_reserve (hi : p.usedCredits i = none) (j : ℕ) : (p.reserve i n).used j = p.used j := by
  change (update p.usedCredits i (some 0) j).getD 0 = (p.usedCredits j).getD 0
  by_cases hj : j = i
  · rw [hj, update_self, hi]
    rfl
  · rw [update_of_ne hj]

theorem share_reserve (hi : p.usedCredits i = none) (hn : 0 ≤ n.toInt) (j : ℕ) :
    (p.reserve i n).share j = if j = i then n.toInt else p.share j := by
  unfold share
  rw [getReservation_reserve, used_reserve hi]
  by_cases hj : j = i
  · rw [if_pos hj, if_pos hj, hj]
    change max n.toInt ((p.usedCredits i).getD 0).toInt = n.toInt
    rw [hi]
    exact max_eq_left hn
  · rw [if_neg hj, if_neg hj]

theorem Covered.reserveCredits (h : Covered limit ids p) (hi : i ∉ ids) (hn : 0 ≤ n.toInt)
    (hreserved : (p.reserveCredits i n).1 = true) :
    Covered limit (insert i ids) (p.reserveCredits i n).2 ∧
      (∀ j, (p.reserveCredits i n).2.used j = p.used j) ∧
      (p.reserveCredits i n).2.waitQueue = p.waitQueue := by
  obtain ⟨hle, heq⟩ := reserveCredits_eq_reserve hreserved
  have hunused := (h.outside i hi).2
  rw [Int32.le_iff_toInt_le] at hle
  have hleft : (p.availableCredits - n).toInt = p.availableCredits.toInt - n.toInt :=
    toInt_sub_of_le hn hle
  rw [heq]
  refine ⟨⟨h.small, ?_, ?_, fun j => ?_, fun j => ?_, fun j hj => ?_⟩, used_reserve hunused, rfl⟩
  · change 0 ≤ (p.availableCredits - n).toInt
    omega
  · have htotal := h.total
    have hold : ∀ j ∈ ids, (p.reserve i n).share j = p.share j := by
      intro j hj
      have hne : j ≠ i := fun heq => hi (heq ▸ hj)
      rw [share_reserve hunused hn, if_neg hne]
    rw [Finset.sum_insert hi, share_reserve hunused hn, if_pos rfl, Finset.sum_congr rfl hold]
    change (p.availableCredits - n).toInt + (n.toInt + _) ≤ limit
    rw [hleft]
    linarith
  · rw [getReservation_reserve]
    split_ifs
    · exact hn
    · exact h.reserved j
  · rw [used_reserve hunused]
    exact h.used j
  · rw [Finset.mem_insert, not_or] at hj
    obtain ⟨hreservation, hused⟩ := h.outside j hj.2
    constructor
    · change update p.reservations i (some n) j = none
      rw [update_of_ne hj.1]
      exact hreservation
    · change update p.usedCredits i (some 0) j = none
      rw [update_of_ne hj.1]
      exact hused

inductive Attempt (p : CreditPool) (i : ℕ) : Bool × CreditPool → Prop
  | reserved (room : p.used i < p.getReservation i) :
    Attempt p i (true, p.setUsed i (p.used i + 1))
  | taken (room : 0 < p.availableCredits) :
    Attempt p i (true, { p.setUsed i (p.used i + 1) with
      availableCredits := p.availableCredits - 1 })
  | refused : Attempt p i (false, { p with waitQueue := wait i p.waitQueue })

theorem attempt_tryPublic (p : CreditPool) (i : ℕ) : Attempt p i (p.tryPublic i) := by
  unfold tryPublic
  by_cases hroom : p.availableCredits > 0
  · rw [if_pos hroom]
    exact .taken hroom
  · rw [if_neg hroom]
    exact .refused

theorem attempt_tryGetCredit (p : CreditPool) (i : ℕ) : Attempt p i (p.tryGetCredit i) := by
  unfold tryGetCredit
  cases hreservations : p.reservations i with
  | none => exact attempt_tryPublic p i
  | some reserved =>
    cases husedCredits : p.usedCredits i with
    | none => exact attempt_tryPublic p i
    | some used =>
      have hreserved : p.getReservation i = reserved := by
        unfold getReservation
        rw [hreservations]
        rfl
      have huse := used_of_usedCredits husedCredits
      by_cases hlt : used < reserved
      · simp only [if_pos hlt]
        rw [← huse]
        apply Attempt.reserved
        rw [hreserved, huse]
        exact hlt
      · simp only [if_neg hlt]
        exact attempt_tryPublic p i

theorem toInt_used_setUsed_succ (hnext : (p.used i + 1).toInt = (p.used i).toInt + 1) (j : ℕ) :
    ((p.setUsed i (p.used i + 1)).used j).toInt = (p.used j).toInt + if j = i then 1 else 0 := by
  by_cases hj : j = i
  · rw [hj, used_setUsed_self, if_pos rfl, hnext]
  · rw [used_setUsed_of_ne hj, if_neg hj, add_zero]

theorem Covered.tryGetCredit (h : Covered limit ids p) (hwaits : Waits ids tries p.waitQueue)
    (hi : i ∈ ids) (hnonneg : 0 ≤ tries i) (hfew : tries i + 1 < 2 ^ 31) :
    Covered limit ids (p.tryGetCredit i).2 ∧ Waits ids (tried tries i) (p.tryGetCredit i).2.waitQueue ∧
      ∀ j, ((p.tryGetCredit i).2.used j).toInt =
        (p.used j).toInt + if j = i ∧ (p.tryGetCredit i).1 then 1 else 0 := by
  have hused := h.used i
  have hmore : Waits ids (tried tries i) p.waitQueue := hwaits.mono (le_tried tries i)
  have hattempt := attempt_tryGetCredit p i
  generalize p.tryGetCredit i = result at hattempt
  cases hattempt with
  | reserved room =>
    have hroom := Int32.lt_iff_toInt_lt.mp room
    have hreservation := (p.getReservation i).toInt_lt
    have hnext : (p.used i + 1).toInt = (p.used i).toInt + 1 := toInt_add_one hused (by omega)
    refine ⟨h.setUsed hi (by omega) h.available ?_, hmore, fun j => ?_⟩
    · unfold share
      omega
    · simp only [and_true]
      exact toInt_used_setUsed_succ hnext j
  | taken room =>
    have hroom := toInt_pos room
    have hfits := h.fits hi
    have hsmall := h.small
    have hshare : (p.used i).toInt ≤ p.share i := le_max_right _ _
    have hnext : (p.used i + 1).toInt = (p.used i).toInt + 1 := toInt_add_one hused (by omega)
    have hless : (p.availableCredits - 1).toInt = p.availableCredits.toInt - 1 := toInt_sub_one hroom
    refine ⟨h.setUsed hi (by omega) (by omega) ?_, hmore, fun j => ?_⟩
    · unfold share
      omega
    · simp only [and_true]
      exact toInt_used_setUsed_succ hnext j
  | refused =>
    refine ⟨⟨h.small, h.available, h.total, h.reserved, h.used, h.outside⟩,
      hwaits.wait hi hnonneg hfew, fun j => ?_⟩
    simp only [Bool.false_eq_true, and_false, if_false, add_zero]
    rfl

structure Woken (limit : ℤ) (ids : Finset ℕ) (tries : ℕ → ℤ) (p : CreditPool)
    (s : CreditPool × List WaitEntry) : Prop where
  covered : Covered limit ids s.1
  waits : Waits ids tries s.2
  used : ∀ j, (p.used j).toInt ≤ (s.1.used j).toInt

theorem Woken.wake {s : CreditPool × List WaitEntry} (h : Woken limit ids tries p s) {e : WaitEntry}
    (he : e.streamId ∈ ids ∧ 1 ≤ e.count.toInt ∧ e.count.toInt ≤ tries e.streamId) :
    Woken limit ids tries p (wake s e) := by
  obtain ⟨q, waiting⟩ := s
  have hcovered : Covered limit ids q := h.covered
  have huse := hcovered.used e.streamId
  have hcount := he.2.1
  unfold CreditPool.wake
  by_cases hroom : q.availableCredits ≥ e.count
  · have hle : e.count.toInt ≤ q.availableCredits.toInt := Int32.le_iff_toInt_le.mp hroom
    have hfits := hcovered.fits he.1
    have hsmall := hcovered.small
    have hshare : (q.used e.streamId).toInt ≤ q.share e.streamId := le_max_right _ _
    have hmore : (q.used e.streamId + e.count).toInt = (q.used e.streamId).toInt + e.count.toInt :=
      toInt_add_of_lt huse (by omega) (by omega)
    have hless : (q.availableCredits - e.count).toInt = q.availableCredits.toInt - e.count.toInt :=
      toInt_sub_of_le (by omega) hle
    simp only [if_pos hroom]
    refine ⟨hcovered.setUsed he.1 (by omega) (by omega) ?_, h.waits, fun j => ?_⟩
    · unfold share
      omega
    · refine (h.used j).trans ?_
      change (q.used j).toInt ≤ ((q.setUsed e.streamId (q.used e.streamId + e.count)).used j).toInt
      by_cases hj : j = e.streamId
      · rw [hj, used_setUsed_self]
        omega
      · rw [used_setUsed_of_ne hj]
  · simp only [if_neg hroom]
    refine ⟨hcovered, fun e' he' => ?_, h.used⟩
    rcases List.mem_append.mp he' with he' | he'
    · exact h.waits e' he'
    · rw [List.mem_singleton.mp he']
      exact he

theorem Covered.wakeWaiters (h : Covered limit ids p) (hwaits : Waits ids tries p.waitQueue) :
    Covered limit ids p.wakeWaiters ∧ Waits ids tries p.wakeWaiters.waitQueue ∧
      ∀ j, (p.used j).toInt ≤ (p.wakeWaiters.used j).toInt := by
  have hwoken : ∀ (entries : List WaitEntry) (s : CreditPool × List WaitEntry),
      Waits ids tries entries → Woken limit ids tries p s →
        Woken limit ids tries p (entries.foldl wake s) := by
    intro entries
    induction entries with
    | nil => exact fun s _ hs => hs
    | cons e entries ih =>
      intro s hentries hs
      exact ih _ (fun e' he' => hentries e' (List.mem_cons_of_mem _ he'))
        (hs.wake (hentries e (List.mem_cons_self ..)))
  have hend := hwoken p.waitQueue (p, []) hwaits
    ⟨h, fun _ he => absurd he List.not_mem_nil, fun _ => le_rfl⟩
  obtain ⟨hcovered, hwaiting, hused⟩ := hend
  exact ⟨⟨hcovered.small, hcovered.available, hcovered.total, hcovered.reserved, hcovered.used,
    hcovered.outside⟩, hwaiting, hused⟩

theorem Covered.mem_of_usedCredits (h : Covered limit ids p) {used : Int32}
    (hused : p.usedCredits i = some used) : i ∈ ids := by
  by_contra hi
  rw [(h.outside i hi).2] at hused
  cases hused

theorem getReservation_le (hn : 0 ≤ n.toInt) (h : ¬ (p.reservations i).any (n < ·) = true) :
    (p.getReservation i).toInt ≤ n.toInt := by
  unfold getReservation
  cases hreservation : p.reservations i with
  | none => exact hn
  | some reserved =>
    rw [hreservation, Option.any_some, decide_eq_true_iff, Int32.lt_iff_toInt_lt] at h
    exact not_lt.mp h

theorem used_setUsed_pred {used : Int32} (h : p.used i = used)
    (hless : (used - 1).toInt = used.toInt - 1) (j : ℕ) :
    (p.used j).toInt - (if j = i then 1 else 0) ≤ ((p.setUsed i (used - 1)).used j).toInt := by
  by_cases hj : j = i
  · rw [hj, used_setUsed_self, if_pos rfl, h, hless]
  · rw [used_setUsed_of_ne hj, if_neg hj, sub_zero]

theorem sub_ite_le (n : ℤ) (c : Prop) [Decidable c] : n - (if c then 1 else 0) ≤ n := by
  split_ifs <;> omega

theorem Covered.returnCredit (h : Covered limit ids p) (hwaits : Waits ids tries p.waitQueue) (i : ℕ) :
    Covered limit ids (p.returnCredit i) ∧ Waits ids tries (p.returnCredit i).waitQueue ∧
      ∀ j, (p.used j).toInt - (if j = i then 1 else 0) ≤ ((p.returnCredit i).used j).toInt := by
  unfold CreditPool.returnCredit
  cases husedCredits : p.usedCredits i with
  | none => exact ⟨h, hwaits, fun j => sub_ite_le _ (j = i)⟩
  | some used =>
    have huse := used_of_usedCredits husedCredits
    have hi := h.mem_of_usedCredits husedCredits
    by_cases hpos : used > 0
    · have hpositive := toInt_pos hpos
      have hone : (used - 1).toInt = used.toInt - 1 := toInt_sub_one hpositive
      have hless := used_setUsed_pred huse hone
      have hfits := h.fits hi
      have hsmall := h.small
      have hshare : p.share i = max (p.getReservation i).toInt used.toInt := by
        unfold share
        rw [huse]
      simp only [if_pos hpos]
      by_cases hreserved : ((p.setUsed i (used - 1)).reservations i).any (used - 1 < ·) = true
      · rw [if_pos hreserved]
        refine ⟨h.setUsed hi (by omega) h.available ?_, hwaits, hless⟩
        omega
      · rw [if_neg hreserved]
        have hle : (p.getReservation i).toInt ≤ (used - 1).toInt :=
          getReservation_le (by omega) hreserved
        have havailable := h.available
        have hmore : (p.availableCredits + 1).toInt = p.availableCredits.toInt + 1 :=
          toInt_add_one havailable (by omega)
        have hback : Covered limit ids { p.setUsed i (used - 1) with
            availableCredits := p.availableCredits + 1 } := by
          refine h.setUsed hi (by omega) (by omega) ?_
          omega
        obtain ⟨hcovered, hwaiting, hused⟩ := hback.wakeWaiters hwaits
        exact ⟨hcovered, hwaiting, fun j => (hless j).trans (hused j)⟩
    · simp only [if_neg hpos]
      obtain ⟨hcovered, hwaiting, hused⟩ := h.wakeWaiters hwaits
      exact ⟨hcovered, hwaiting, fun j => (sub_ite_le _ (j = i)).trans (hused j)⟩

end CreditPool
end GemSc
