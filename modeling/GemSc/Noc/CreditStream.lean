import GemSc.Lib.ExceptFold

/-! The credit counter of a stream. Below the largest `int` it is the room of a window of packets
that were sent and not yet credited back. -/

namespace GemSc

/-- `CreditStream` of `ext/credit_stream.hh`. The counters are the 32-bit `int` of the source, and
their additions wrap. -/
structure CreditStream where
  initialCredit : Int32
  currentCredit : Int32
  deriving DecidableEq, Repr

namespace CreditStream

def init (initialCredits : Int32) : CreditStream := ⟨initialCredits, initialCredits⟩

def send (s : CreditStream) : Bool × CreditStream :=
  if s.currentCredit > 0 then
    (true, { s with currentCredit := s.currentCredit - 1 })
  else
    (false, s)

def returnCredit (s : CreditStream) (count : Int32) : CreditStream :=
  -- the sum is formed before the smaller one is taken
  { s with currentCredit := min s.initialCredit (s.currentCredit + count) }

def getCredit (s : CreditStream) : Int32 := s.currentCredit

end CreditStream

structure CreditWindow (limit : ℕ) where
  outstanding : ℕ
  bounded : outstanding ≤ limit

namespace CreditWindow
variable {limit : ℕ}

def empty (limit : ℕ) : CreditWindow limit := ⟨0, Nat.zero_le limit⟩

def send (w : CreditWindow limit) : Bool × CreditWindow limit :=
  if h : w.outstanding < limit then (true, ⟨w.outstanding + 1, h⟩) else (false, w)

def returnCredit (w : CreditWindow limit) (count : ℕ) : CreditWindow limit :=
  ⟨w.outstanding - count, (Nat.sub_le _ _).trans w.bounded⟩

theorem send_outstanding (w : CreditWindow limit) :
    w.send.2.outstanding = w.outstanding + w.send.1.toNat := by
  unfold send
  split <;> simp

end CreditWindow

namespace CreditStream
variable {s : CreditStream} {limit : ℕ} {w : CreditWindow limit} {count : Int32}

structure Refines (s : CreditStream) (w : CreditWindow limit) : Prop where
  limit_eq : s.initialCredit.toInt = limit
  room : s.currentCredit.toInt = (limit : ℤ) - w.outstanding

theorem init_refines {c : Int32} (hc : 0 ≤ c.toInt) :
    (init c).Refines (CreditWindow.empty c.toInt.toNat) where
  limit_eq := (Int.toNat_of_nonneg hc).symm
  room := by
    change c.toInt = (c.toInt.toNat : ℤ) - (0 : ℕ)
    rw [Int.toNat_of_nonneg hc, Nat.cast_zero, sub_zero]

theorem lt_iff_room : 0 < s.getCredit ↔ 0 < s.currentCredit.toInt := by
  rw [Int32.lt_iff_toInt_lt]
  rfl

theorem send_refines (h : s.Refines w) :
    s.send.1 = w.send.1 ∧ s.send.2.Refines w.send.2 := by
  have hroom := h.room
  have hpos : s.currentCredit > 0 ↔ w.outstanding < limit := by
    rw [gt_iff_lt, ← getCredit, lt_iff_room, hroom]
    omega
  unfold send CreditWindow.send
  by_cases hsend : w.outstanding < limit
  · rw [if_pos (hpos.mpr hsend), dif_pos hsend]
    have hlimit := s.initialCredit.toInt_lt
    rw [h.limit_eq] at hlimit
    refine ⟨rfl, h.limit_eq, ?_⟩
    have hone : (1 : Int32).toInt = 1 := by decide
    change (s.currentCredit - 1).toInt = (limit : ℤ) - (w.outstanding + 1 : ℕ)
    rw [Int32.toInt_sub, hone, hroom, Int.bmod_eq_of_le] <;> omega
  · rw [if_neg (mt hpos.mp hsend), dif_neg hsend]
    exact ⟨rfl, h⟩

theorem toInt_min (a b : Int32) : (min a b).toInt = min a.toInt b.toInt := by
  change (if a ≤ b then a else b).toInt = _
  rw [Int.min_def, apply_ite Int32.toInt]
  exact if_congr Int32.le_iff_toInt_le rfl rfl

/-- The two sums of a return: the one that fits and the one that wraps. -/
theorem toInt_add_eq (hs : 0 ≤ s.currentCredit.toInt) (hcount : 0 ≤ count.toInt) :
    (s.currentCredit.toInt + count.toInt < 2 ^ 31 →
      (s.currentCredit + count).toInt = s.currentCredit.toInt + count.toInt) ∧
    (2 ^ 31 ≤ s.currentCredit.toInt + count.toInt → (s.currentCredit + count).toInt < 0) := by
  have hs' := s.currentCredit.toInt_lt
  have hcount' := count.toInt_lt
  rw [Int32.toInt_add]
  constructor
  · intro h
    rw [Int.bmod_eq_of_le] <;> omega
  · intro h
    have hwrap : s.currentCredit.toInt + count.toInt =
        (s.currentCredit.toInt + count.toInt - 2 ^ 32) + (2 ^ 32 : ℕ) := by norm_num
    rw [hwrap, Int.add_bmod_right, Int.bmod_eq_of_le] <;> omega

theorem returnCredit_refines (h : s.Refines w) (hcount : 0 ≤ count.toInt)
    (hfits : s.currentCredit.toInt + count.toInt < 2 ^ 31) :
    (s.returnCredit count).Refines (w.returnCredit count.toInt.toNat) := by
  have hroom := h.room
  have hbound := w.bounded
  have hsum := (toInt_add_eq (by omega) hcount).1 hfits
  refine ⟨h.limit_eq, ?_⟩
  change (min s.initialCredit (s.currentCredit + count)).toInt =
    (limit : ℤ) - (w.outstanding - count.toInt.toNat : ℕ)
  rw [toInt_min, h.limit_eq, hsum, hroom]
  omega

end CreditStream

inductive CreditCall where
  | send
  | returnCredit (count : Int32)
  deriving DecidableEq, Repr

structure CreditRun where
  stream : CreditStream
  sends : ℕ
  returned : ℤ

namespace CreditRun

def start (c : Int32) : CreditRun := ⟨.init c, 0, 0⟩

def step (r : CreditRun) : CreditCall → CreditRun
  | .send => { r with stream := r.stream.send.2, sends := r.sends + r.stream.send.1.toNat }
  | .returnCredit count =>
    { r with stream := r.stream.returnCredit count, returned := r.returned + count.toInt }

def run (c : Int32) (calls : List CreditCall) : CreditRun := calls.foldl step (start c)

theorem run_concat (c : Int32) (calls : List CreditCall) (a : CreditCall) :
    run c (calls ++ [a]) = (run c calls).step a := List.foldl_concat ..

/-- The credit is within its bounds, and so are the packets that were let through. -/
structure Within (c : Int32) (r : CreditRun) : Prop where
  nonneg : 0 ≤ r.stream.getCredit.toInt
  le_initial : r.stream.getCredit.toInt ≤ c.toInt
  sends_le : (r.sends : ℤ) ≤ c.toInt + r.returned

/-- What a call does: a packet is let through when there is credit, and the credit is full when
more than what is outstanding is returned. -/
def Answers (c : Int32) (r : CreditRun) : CreditCall → Prop
  | .send => r.stream.send.1 = true ↔ 0 < r.stream.getCredit
  | .returnCredit count => c.toInt - r.stream.getCredit.toInt ≤ count.toInt →
      (r.stream.returnCredit count).getCredit = c

/-- The sum that a return forms is above the largest `int`. -/
def Overflows (r : CreditRun) : CreditCall → Prop
  | .send => False
  | .returnCredit count => 2 ^ 31 ≤ r.stream.getCredit.toInt + count.toInt

def Bounded (c : Int32) (calls : List CreditCall) : Prop :=
  (∀ pre, pre <+: calls → (run c pre).Within c) ∧
    ∀ pre a, pre ++ [a] <+: calls → (run c pre).Answers c a

def Fits (c : Int32) (calls : List CreditCall) : Prop :=
  ∀ pre a, pre ++ [a] <+: calls → ¬ (run c pre).Overflows a

def Admissible : CreditCall → Prop
  | .send => True
  | .returnCredit count => 0 ≤ count.toInt

variable {c : Int32} {r : CreditRun} {a : CreditCall} {calls : List CreditCall}

def Windowed (c : Int32) (r : CreditRun) : Prop :=
  ∃ w : CreditWindow c.toInt.toNat, r.stream.Refines w ∧ (r.sends : ℤ) ≤ w.outstanding + r.returned

theorem windowed_start (hc : 0 ≤ c.toInt) : (start c).Windowed c :=
  ⟨.empty _, CreditStream.init_refines hc, by simp [start, CreditWindow.empty]⟩

theorem Windowed.step (h : r.Windowed c) (ha : Admissible a) (hfits : ¬ r.Overflows a) :
    (r.step a).Windowed c := by
  obtain ⟨w, hw, hsends⟩ := h
  cases a with
  | send =>
    obtain ⟨hsent, hrefines⟩ := CreditStream.send_refines hw
    refine ⟨w.send.2, hrefines, ?_⟩
    change ((r.sends + r.stream.send.1.toNat : ℕ) : ℤ) ≤ w.send.2.outstanding + r.returned
    rw [w.send_outstanding, hsent]
    push_cast
    linarith
  | returnCredit count =>
    have hcount : 0 ≤ count.toInt := ha
    refine ⟨w.returnCredit count.toInt.toNat,
      CreditStream.returnCredit_refines hw hcount (not_le.mp hfits), ?_⟩
    change (r.sends : ℤ) ≤ (w.outstanding - count.toInt.toNat : ℕ) + (r.returned + count.toInt)
    omega

theorem Windowed.within (hc : 0 ≤ c.toInt) (h : r.Windowed c) : r.Within c := by
  obtain ⟨w, hw, hsends⟩ := h
  have hroom : r.stream.getCredit.toInt = (c.toInt.toNat : ℤ) - w.outstanding := hw.room
  have hbound := w.bounded
  have hlimit := Int.toNat_of_nonneg hc
  exact ⟨by omega, by omega, by omega⟩

theorem Windowed.answers (hc : 0 ≤ c.toInt) (h : r.Windowed c) (ha : Admissible a)
    (hfits : ¬ r.Overflows a) : r.Answers c a := by
  obtain ⟨w, hw, -⟩ := h
  cases a with
  | send =>
    change r.stream.send.1 = true ↔ 0 < r.stream.currentCredit
    unfold CreditStream.send
    split <;> simp_all
  | returnCredit count =>
    intro hfull
    have hcount : 0 ≤ count.toInt := ha
    have hafter := CreditStream.returnCredit_refines hw hcount (not_le.mp hfits)
    have hroom : r.stream.getCredit.toInt = (c.toInt.toNat : ℤ) - w.outstanding := hw.room
    have hlimit := Int.toNat_of_nonneg hc
    have hempty : (w.returnCredit count.toInt.toNat).outstanding = 0 := by
      apply Nat.sub_eq_zero_of_le
      omega
    apply Int32.toInt_inj.mp
    rw [CreditStream.getCredit, hafter.room, hempty, hlimit, Nat.cast_zero, sub_zero]

theorem windowed_run (hc : 0 ≤ c.toInt) (hcalls : ∀ a ∈ calls, Admissible a)
    (hfits : Fits c calls) : (run c calls).Windowed c := by
  induction calls using List.reverseRecOn with
  | nil => exact windowed_start hc
  | append_singleton calls a ih =>
    rw [run_concat]
    have hbefore : Fits c calls :=
      fun pre b hpre => hfits pre b (hpre.trans (List.prefix_append ..))
    have hwindow := ih (fun b hb => hcalls b (List.mem_append_left _ hb)) hbefore
    exact hwindow.step (hcalls a (by simp)) (hfits calls a (List.prefix_refl _))

theorem bounded_of_fits (hc : 0 ≤ c.toInt) (hcalls : ∀ a ∈ calls, Admissible a)
    (hfits : Fits c calls) : Bounded c calls := by
  have hwindowed : ∀ pre, pre <+: calls → (run c pre).Windowed c := fun pre hpre =>
    windowed_run hc (fun a ha => hcalls a (hpre.subset ha)) fun p a hp => hfits p a (hp.trans hpre)
  refine ⟨fun pre hpre => (hwindowed pre hpre).within hc, fun pre a hpre => ?_⟩
  have hmem : a ∈ calls := hpre.subset (by simp)
  have hwindow := hwindowed pre ((List.prefix_append ..).trans hpre)
  exact hwindow.answers hc (hcalls a hmem) (hfits pre a hpre)

/-- A sum that wraps is negative, and so is the credit that it leaves. -/
theorem not_within_of_overflows (h : r.Within c) (ha : Admissible a) (hover : r.Overflows a) :
    ¬ (r.step a).Within c := by
  intro hafter
  cases a with
  | send => exact hover
  | returnCredit count =>
    have hwrap := (CreditStream.toInt_add_eq h.nonneg (show 0 ≤ count.toInt from ha)).2 hover
    have hcredit := hafter.nonneg
    change 0 ≤ (min _ (r.stream.currentCredit + count)).toInt at hcredit
    rw [CreditStream.toInt_min] at hcredit
    have hsum := hcredit.trans (min_le_right _ _)
    omega

/-- The credits stay within their bounds in exactly the sequences of calls in which no return
brings the sum of the credit and the amount above the largest `int`. -/
theorem bounded_iff (c : Int32) (hc : 0 ≤ c.toInt) (calls : List CreditCall)
    (hcalls : ∀ a ∈ calls, Admissible a) : Bounded c calls ↔ Fits c calls := by
  refine ⟨fun h pre a hpre hover => ?_, bounded_of_fits hc hcalls⟩
  have hbefore := h.1 pre ((List.prefix_append ..).trans hpre)
  have hafter := h.1 _ hpre
  rw [run_concat] at hafter
  exact not_within_of_overflows hbefore (hcalls a (hpre.subset (by simp))) hover hafter

theorem bounded_iff_send_return : Bounded 5 [.send, .returnCredit 10] := by
  refine (bounded_iff 5 (by decide) [.send, .returnCredit 10] ?_).mpr ?_
  · intro a ha
    fin_cases ha
    · trivial
    · change 0 ≤ (10 : Int32).toInt
      decide
  · intro pre a hpre
    rcases ExceptFold.concat_prefix_pair hpre with ⟨rfl, rfl⟩ | ⟨rfl, rfl⟩
    · exact not_false
    · change ¬ 2 ^ 31 ≤ (run 5 [.send]).stream.getCredit.toInt + (10 : Int32).toInt
      decide

/-- The largest amount, returned to a stream of five credits that has all of them. -/
theorem largest_return_negative :
    (∀ a ∈ [CreditCall.returnCredit 2147483647], Admissible a) ∧
      (run 5 [.returnCredit 2147483647]).stream.getCredit = -2147483644 ∧
      ¬ Bounded 5 [.returnCredit 2147483647] := by
  refine ⟨?_, by decide, fun h => ?_⟩
  · intro a ha
    obtain rfl := List.mem_singleton.mp ha
    change 0 ≤ (2147483647 : Int32).toInt
    decide
  · have hcredit := (h.1 _ (List.prefix_refl _)).nonneg
    revert hcredit
    decide

end CreditRun
end GemSc
