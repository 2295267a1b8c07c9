import GemSc.Core.Packet

/-! The adapter that turns the responses of an RTL module into packets. Addresses, sizes and
identifiers are values of a type `ν`: the adapter only copies them. -/

namespace GemSc
open Function

/-- The packets of the adapter. `extension` is the one of the type that the adapter is for. -/
structure ExtPacket (ν δ : Type*) where
  streamId : UInt64
  seqNum : UInt64
  addr : ν
  size : ν
  srcId : ν
  destId : ν
  cmd : CmdType
  type : PacketType
  extension : Option δ

structure ExtMemory (ν δ : Type*) where
  packet : PacketPtr → ExtPacket ν δ
  free : List PacketPtr
  next : PacketPtr

abbrev RequestKey := UInt64 × UInt64

structure PayloadInputs (δ : Type*) where
  valid : Bool
  payload : δ
  streamId : UInt64
  seqNum : UInt64

structure PayloadToPacket (ν δ : Type*) where
  memory : ExtMemory ν δ
  pendingReqs : RequestKey → Option PacketPtr
  validOut : Bool
  pktOut : Option PacketPtr

namespace ExtPacket
variable {ν δ : Type*} [Zero ν]

/-- `Packet::reset`. The extensions are those of the payload, which it leaves alone. -/
def reset (pkt : ExtPacket ν δ) : ExtPacket ν δ :=
  ⟨0, 0, 0, 0, 0, 0, .invalid, .req, pkt.extension⟩

/-- `Packet()` -/
def new : ExtPacket ν δ := ⟨0, 0, 0, 0, 0, 0, .invalid, .req, none⟩

def key (pkt : ExtPacket ν δ) : RequestKey := (pkt.streamId, pkt.seqNum)

end ExtPacket

namespace PayloadInputs
variable {δ : Type*}

def key (inputs : PayloadInputs δ) : RequestKey := (inputs.streamId, inputs.seqNum)

end PayloadInputs

namespace ExtMemory
variable {ν δ : Type*} [Zero ν]

/-- `PacketPool::acquire` -/
def acquire (m : ExtMemory ν δ) : PacketPtr × ExtMemory ν δ :=
  match m.free with
  | p :: rest => (p, { m with packet := update m.packet p (m.packet p).reset, free := rest })
  | [] => (m.next, { m with packet := update m.packet m.next .new, next := m.next + 1 })

def assign (resp req : PacketPtr) (f : ExtPacket ν δ → ExtPacket ν δ → ExtPacket ν δ)
    (m : ExtMemory ν δ) : ExtMemory ν δ :=
  { m with packet := update m.packet resp (f (m.packet resp) (m.packet req)) }

def InUse (m : ExtMemory ν δ) (p : PacketPtr) : Prop := p < m.next ∧ p ∉ m.free

end ExtMemory

namespace PayloadToPacket
variable {ν δ : Type*} [Zero ν]

def cacheRequest (req : Option PacketPtr) (a : PayloadToPacket ν δ) : PayloadToPacket ν δ :=
  match req with
  | none => a
  | some p => { a with pendingReqs := update a.pendingReqs (a.memory.packet p).key (some p) }

def clearRequest (sid sqn : UInt64) (a : PayloadToPacket ν δ) : PayloadToPacket ν δ :=
  { a with pendingReqs := update a.pendingReqs (sid, sqn) none }

def fillResponse (inputs : PayloadInputs δ) (resp req : PacketPtr) (m : ExtMemory ν δ) :
    ExtMemory ν δ :=
  m.assign resp req (fun resp req => { resp with addr := req.addr })
    |>.assign resp req (fun resp req => { resp with size := req.size })
    |>.assign resp req (fun resp req => { resp with srcId := req.destId })
    |>.assign resp req (fun resp req => { resp with destId := req.srcId })
    |>.assign resp req (fun resp _ => { resp with
      streamId := inputs.streamId
      seqNum := inputs.seqNum
      cmd := .invalid
      type := .resp
      extension := some inputs.payload })

def respond (inputs : PayloadInputs δ) (req : PacketPtr) (m : ExtMemory ν δ) :
    PacketPtr × ExtMemory ν δ :=
  (m.acquire.1, fillResponse inputs m.acquire.1 req m.acquire.2)

def encapsulate (inputs : PayloadInputs δ) (a : PayloadToPacket ν δ) : PayloadToPacket ν δ :=
  if !inputs.valid then { a with validOut := false, pktOut := none }
  else
    match a.pendingReqs inputs.key with
    | none => { a with validOut := false, pktOut := none }
    | some req =>
      let (resp, memory) := respond inputs req a.memory
      { memory
        pendingReqs := update a.pendingReqs inputs.key none
        validOut := true
        pktOut := some resp }

end PayloadToPacket
end GemSc
