import GemSc.Core.Packet
import GemSc.Lib.ExceptFold

/-! The heap that packets and payloads are allocated in and deleted from. The use of a
null pointer or of what was deleted is a fault. -/

namespace GemSc
open Function

inductive MemoryFault
  | nullDeref
  | dangling
  /-- A mutex that is not recursive is locked again by its holder. -/
  | relock
  deriving DecidableEq

structure Heap extends Memory where
  nextPacket : PacketPtr
  nextPayload : PayloadPtr
  deletedPackets : Finset PacketPtr
  deletedPayloads : Finset PayloadPtr

namespace Heap

def deref {α : Type*} : Option α → Except MemoryFault α
  | none => .error .nullDeref
  | some x => .ok x

def empty : Heap where
  packet := fun _ => {}
  payload := fun _ => ⟨0, 0⟩
  nextPacket := 0
  nextPayload := 0
  deletedPackets := ∅
  deletedPayloads := ∅

def get (h : Heap) (p : PacketPtr) : Except MemoryFault Packet :=
  if p ∈ h.deletedPackets then .error .dangling else .ok (h.packet p)

def getPayload (h : Heap) (q : PayloadPtr) : Except MemoryFault Payload :=
  if q ∈ h.deletedPayloads then .error .dangling else .ok (h.payload q)

/-- `pkt->payload->get_address()` -/
def address (h : Heap) (p : PacketPtr) : Except MemoryFault UInt64 := do
  let pkt ← h.get p
  let q ← deref pkt.payload
  let payload ← h.getPayload q
  return payload.address

def modify (p : PacketPtr) (f : Packet → Packet) (h : Heap) : Heap :=
  { h with packet := update h.packet p (f (h.packet p)) }

/-- `new Packet(nullptr, 0, PKT_REQ)` -/
def newPacket (h : Heap) : PacketPtr × Heap :=
  (h.nextPacket, { h with
    packet := update h.packet h.nextPacket {}
    nextPacket := h.nextPacket + 1 })

def newPayload (value : Payload) (h : Heap) : PayloadPtr × Heap :=
  (h.nextPayload, { h with
    payload := update h.payload h.nextPayload value
    nextPayload := h.nextPayload + 1 })

def deletePacket (p : PacketPtr) (h : Heap) : Except MemoryFault Heap :=
  if p ∈ h.deletedPackets then .error .dangling
  else .ok { h with deletedPackets := insert p h.deletedPackets }

def deletePayload (q : PayloadPtr) (h : Heap) : Except MemoryFault Heap :=
  if q ∈ h.deletedPayloads then .error .dangling
  else .ok { h with deletedPayloads := insert q h.deletedPayloads }

/-- `if (payload && !isCredit()) delete payload` -/
def dropPayload (pkt : Packet) (h : Heap) : Except MemoryFault Heap :=
  match pkt.payload with
  | none => .ok h
  | some q => if pkt.isCredit then .ok h else h.deletePayload q

/-- `Packet::reset` -/
def resetPacket (p : PacketPtr) (h : Heap) : Except MemoryFault Heap := do
  let pkt ← h.get p
  let h ← h.dropPayload pkt
  return h.modify p fun _ => {}

theorem deref_eq_ok {α : Type*} {o : Option α} {x : α} (heq : deref o = .ok x) : o = some x := by
  cases o with
  | none => cases heq
  | some y => rw [Except.ok.inj heq]

theorem get_eq_ok {h : Heap} {p : PacketPtr} {pkt : Packet} (heq : h.get p = .ok pkt) :
    p ∉ h.deletedPackets ∧ pkt = h.packet p := by
  unfold get at heq
  split_ifs at heq with hp
  exact ⟨hp, (Except.ok.inj heq).symm⟩

theorem get_of_not_mem {h : Heap} {p : PacketPtr} (hp : p ∉ h.deletedPackets) :
    h.get p = .ok (h.packet p) := if_neg hp

theorem deletePayload_eq_ok {h h' : Heap} {q : PayloadPtr} (heq : h.deletePayload q = .ok h') :
    q ∉ h.deletedPayloads ∧ h' = { h with deletedPayloads := insert q h.deletedPayloads } := by
  unfold deletePayload at heq
  split_ifs at heq with hq
  exact ⟨hq, (Except.ok.inj heq).symm⟩

theorem resetPacket_eq_ok {h h' : Heap} {p : PacketPtr} (heq : h.resetPacket p = .ok h') :
    ∃ D, h' = { h with packet := update h.packet p {}, deletedPayloads := D } ∧
      (D = h.deletedPayloads ∨
        ∃ q, (h.packet p).payload = some q ∧ D = insert q h.deletedPayloads) := by
  obtain ⟨pkt, hget, hrest⟩ := ExceptFold.bind_eq_ok.mp heq
  obtain ⟨mid, hmid, hend⟩ := ExceptFold.bind_eq_ok.mp hrest
  obtain ⟨-, rfl⟩ := get_eq_ok hget
  obtain rfl := Except.ok.inj hend
  unfold dropPayload at hmid
  split at hmid
  · obtain rfl := Except.ok.inj hmid
    exact ⟨_, rfl, .inl rfl⟩
  · next q hq =>
    split_ifs at hmid
    · obtain rfl := Except.ok.inj hmid
      exact ⟨_, rfl, .inl rfl⟩
    · obtain ⟨-, rfl⟩ := deletePayload_eq_ok hmid
      exact ⟨_, rfl, .inr ⟨q, hq, rfl⟩⟩

@[simp] theorem packet_modify_self (h : Heap) (p : PacketPtr) (f : Packet → Packet) :
    (h.modify p f).packet p = f (h.packet p) := update_self ..

theorem packet_modify_of_ne (h : Heap) {p x : PacketPtr} (f : Packet → Packet) (hx : x ≠ p) :
    (h.modify p f).packet x = h.packet x := update_of_ne hx ..

end Heap
end GemSc
