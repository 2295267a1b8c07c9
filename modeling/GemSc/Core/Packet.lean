import Mathlib

/-! Packets and the memory they live in. A `Packet*` or a payload pointer is a key
into `Memory`; `nullptr` is `none`. -/

namespace GemSc

abbrev PacketPtr := ℕ
abbrev PayloadPtr := ℕ

inductive CmdType
  | invalid
  | read
  | write
  deriving DecidableEq

inductive PacketType
  | req
  | resp
  | streamData
  | creditReturn
  deriving DecidableEq

/-- The attributes of `tlm_generic_payload` that ports and modules read. -/
structure Payload where
  address : UInt64
  dataLength : UInt32
  deriving DecidableEq

structure Packet where
  payload : Option PayloadPtr := none
  streamId : UInt64 := 0
  seqNum : UInt64 := 0
  cmd : CmdType := .invalid
  type : PacketType := .req
  srcCycle : UInt64 := 0
  dstCycle : UInt64 := 0
  originalReq : Option PacketPtr := none
  dependents : List PacketPtr := []
  routePath : List String := []
  hopCount : ℤ := 0
  priority : UInt8 := 0
  flowId : UInt64 := 0
  vcId : ℤ := 0
  refCount : ℤ := 0
  deriving DecidableEq

namespace Packet

def isRequest (pkt : Packet) : Bool := pkt.type = .req
def isResponse (pkt : Packet) : Bool := pkt.type = .resp
def isStream (pkt : Packet) : Bool := pkt.type = .streamData
def isCredit (pkt : Packet) : Bool := pkt.type = .creditReturn

def getDelayCycles (pkt : Packet) : UInt64 :=
  if pkt.srcCycle ≤ pkt.dstCycle then pkt.dstCycle - pkt.srcCycle else 0

end Packet

structure Memory where
  packet : PacketPtr → Packet
  payload : PayloadPtr → Payload

namespace Memory

def setDstCycle (m : Memory) (p : PacketPtr) (cycle : UInt64) : Memory :=
  { m with packet := Function.update m.packet p { m.packet p with dstCycle := cycle } }

/-- `pkt->payload ? pkt->payload->get_data_length() : 0` -/
def dataLength (m : Memory) (p : PacketPtr) : UInt64 :=
  match (m.packet p).payload with
  | none => 0
  | some q => (m.payload q).dataLength.toUInt64

theorem packet_setDstCycle (m : Memory) (p : PacketPtr) (cycle : UInt64) (x : PacketPtr) :
    (m.setDstCycle p cycle).packet x =
      if x = p then { m.packet p with dstCycle := cycle } else m.packet x := by
  simp [setDstCycle, Function.update_apply]

@[simp] theorem vcId_setDstCycle (m : Memory) (p : PacketPtr) (cycle : UInt64) (x : PacketPtr) :
    ((m.setDstCycle p cycle).packet x).vcId = (m.packet x).vcId := by
  rw [packet_setDstCycle]
  split_ifs with h
  · rw [h]
  · rfl

@[simp] theorem dataLength_setDstCycle (m : Memory) (p : PacketPtr) (cycle : UInt64) :
    (m.setDstCycle p cycle).dataLength p = m.dataLength p := by
  unfold dataLength
  rw [packet_setDstCycle, if_pos rfl]
  rfl

end Memory
end GemSc
