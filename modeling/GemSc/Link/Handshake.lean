import GemSc.Link.InputAccounting
import GemSc.Link.Isolation

/-! VCs of capacity 0. They stand for a wire without a buffer, on which the receiver would have
to take a packet in the cycle in which it comes. -/

namespace GemSc
open Function

namespace UpstreamPort

def offersIn (u : UpstreamPort) : InputCall → List Offer
  | .recv _ _ _ => []
  | .tick answer => (u.tick answer).2

/-- The owner is asked at once, its answer is returned, and nothing is stored. -/
structure Handshake (answer : ℕ → PacketPtr → Bool) (now : UInt64) (p : PacketPtr) (m : Memory)
    (k : ℕ) (u : UpstreamPort) : Prop where
  offered : u.offersIn (.recv now p m) = [⟨k, p, answer k p⟩]
  answered : (u.recv now p m).1 = answer k p
  unstored : (u.recv now p m).2.1.buffer = u.buffer

variable {u : UpstreamPort} {k : ℕ} {vc : InputVC} {m : Memory} {p : PacketPtr}

theorem recv_zero_capacity (now : UInt64) (hvc : u.inputVcs[k]? = some vc) (hcap : vc.capacity = 0)
    (hp : (m.packet p).vcId = k) :
    (u.recv now p m).1 = false ∧ (u.recv now p m).2.1.buffer = u.buffer := by
  obtain ⟨-, hrefused | ⟨-, i, vi, hi, hget, hroom, -⟩⟩ := u.recv_cases now p m
  · exact hrefused
  · obtain rfl : k = i := Int.ofNat.inj (hp.symm.trans hi)
    obtain rfl := Option.some.inj (hvc.symm.trans hget)
    have hfull : vc.Full := by
      rw [InputVC.Full, hcap]
      exact Nat.zero_le _
    exact absurd hfull hroom

end UpstreamPort

namespace Lane

def Closed (a : Lane) : Prop := ∀ vi ∈ a.input, vi.capacity = 0 ∧ vi.buffer = []

variable {a : Lane} {p : PacketPtr}

theorem Closed.recv (h : a.Closed) (p : PacketPtr) : (a.recv p).2.Closed := by
  intro vi hvi
  unfold Lane.recv at hvi
  split at hvi
  · next vi' _ hvi' =>
    obtain ⟨hcap, hbuf⟩ := h vi' hvi'
    have hfull : vi'.capacity ≤ vi'.buffer.length := by
      rw [hcap]
      exact Nat.zero_le _
    rw [InputVC.offer, if_pos hfull] at hvi
    obtain rfl := Option.some.inj hvi
    exact ⟨hcap, hbuf⟩
  · exact h vi hvi

theorem Closed.sendReq (h : a.Closed) (p : PacketPtr) : (a.sendReq p).2.Closed := by
  have hrecv := h.recv p
  unfold Lane.sendReq
  split
  · split_ifs
    · exact h
    · exact hrecv
    · exact hrecv
  · exact h

theorem Closed.upTick (h : a.Closed) (answer : PacketPtr → Bool) : (a.upTick answer).Closed := by
  intro vi hvi
  obtain ⟨vi', hvi', rfl⟩ := Option.map_eq_some_iff.mp hvi
  obtain ⟨hcap, hbuf⟩ := h vi' hvi'
  rw [hbuf]
  exact ⟨hcap, hbuf⟩

theorem Closed.offers (h : a.Closed) (answer : PacketPtr → Bool) : a.offers answer = [] := by
  unfold Lane.offers
  cases hvi : a.input with
  | none => rfl
  | some vi => simp [(h vi hvi).2]

end Lane

namespace Link
variable {l : Link} {k : ℕ}

theorem closed_step (h : l.Sound) (hclosed : (l.lane k).Closed) (a : LinkStep) :
    ((l.step a).lane k).Closed := by
  rw [lane_step h]
  cases a with
  | sendReq o p =>
    dsimp only
    split_ifs
    · exact hclosed.sendReq p
    · exact hclosed
  | downTick o => exact hclosed
  | upTick o => exact hclosed.upTick _

theorem offered_closed (h : l.Sound) (hclosed : (l.lane k).Closed) (steps : List LinkStep) :
    l.collect (offered k) steps = [] := by
  -- the VC stays without a place and empty, so no tick finds a packet to offer
  induction steps generalizing l with
  | nil => rfl
  | cons a steps ih =>
    rw [collect, ih (h.step a) (closed_step h hclosed a), List.append_nil]
    cases a with
    | sendReq o p => rfl
    | downTick o => rfl
    | upTick o =>
      rw [offered, offers_upTick, hclosed.offers]
      rfl

end Link

/-- There is no handshake at a VC of capacity 0. The owner is never asked, so that the answer is
the owner's only when that would be a refusal; and over a link to a port with such a VC no request
is ever offered to the owner, in any run. -/
theorem zero_capacity_no_handshake {u : UpstreamPort} {k : ℕ} {vc : InputVC}
    (hvc : u.inputVcs[k]? = some vc) (hcap : vc.capacity = 0) (answer : ℕ → PacketPtr → Bool)
    (now : UInt64) {p : PacketPtr} {m : Memory} (hp : (m.packet p).vcId = k) :
    ¬ u.Handshake answer now p m k ∧
      ((u.recv now p m).1 = answer k p ↔ answer k p = false) ∧
      ∀ l : Link, l.Sound → l.up = u → vc.buffer = [] →
        ∀ steps, l.collect (Link.offered k) steps = [] := by
  obtain ⟨hno, -⟩ := UpstreamPort.recv_zero_capacity now hvc hcap hp
  refine ⟨fun h => ?_, ?_, ?_⟩
  · cases h.offered
  · rw [hno]
    exact eq_comm
  · rintro l hl rfl hbuf steps
    refine Link.offered_closed hl (fun vi hvi => ?_) steps
    obtain rfl := Option.some.inj (hvc.symm.trans hvi)
    exact ⟨hcap, hbuf⟩

/-- The link of the valid/ready test: four places at the sender, none at the receiver. -/
def bufferless : Link where
  wires := Link.pairedWires
  down := .new 0 [4] [0] ""
  up := .new 0 [0] [0] ""
  mem := ⟨fun _ => {}, fun _ => ⟨0, 0⟩⟩

def readyOwners : Owners := ⟨0, fun _ _ => true, fun _ => true⟩

theorem zero_capacity_bufferless : bufferless.collect (Link.offered 0)
    [.sendReq readyOwners 0, .downTick readyOwners, .upTick readyOwners] = [] := by
  have hsound : bufferless.Sound := by
    refine Link.Sound.of_empty rfl fun k => ?_
    cases k <;> exact ⟨rfl, rfl⟩
  exact (zero_capacity_no_handshake (u := bufferless.up) (k := 0) (p := 0) (m := bufferless.mem)
    rfl rfl (fun _ _ => true) 0 rfl).2.2 bufferless hsound rfl rfl _

/-- The owner is ready, and the packet is refused without asking. -/
theorem ready_refused : ¬ bufferless.up.Handshake (fun _ _ => true) 0 0 bufferless.mem 0 ∧
    (bufferless.up.recv 0 0 bufferless.mem).1 = false := by
  refine ⟨fun h => ?_, rfl⟩
  cases h.offered

end GemSc
