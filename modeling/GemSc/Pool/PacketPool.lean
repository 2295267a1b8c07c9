import GemSc.Core.Heap

/-! `PacketPool` of `core/ext`. The free lists are `std::queue`s; `size_t` counters wrap. -/

namespace GemSc
open Function

structure PacketPool where
  packetFreelist : List PacketPtr := []
  payloadFreelist : List PayloadPtr := []
  maxSize : ℕ := 1024
  peakUsage : UInt64 := 0
  currentUsage : UInt64 := 0
  deriving DecidableEq

/-- The pool and the heap it takes its packets from. `live` is ghost: the packets that are
acquired and not released. -/
structure Arena where
  heap : Heap
  pool : PacketPool
  live : Finset PacketPtr

namespace Arena

def empty : Arena := ⟨.empty, {}, ∅⟩

def modify (p : PacketPtr) (f : Packet → Packet) (a : Arena) : Arena :=
  { a with heap := a.heap.modify p f }

/-- `new tlm_generic_payload` by a user, with its attributes set. -/
def newPayload (value : Payload) (a : Arena) : PayloadPtr × Arena :=
  (a.heap.nextPayload, { a with heap := (a.heap.newPayload value).2 })

/-- The packet that `acquire` uses: the oldest free one, or a new one. -/
def takePacket (a : Arena) : PacketPtr × Arena :=
  match a.pool.packetFreelist with
  | p :: rest => (p, { a with pool := { a.pool with packetFreelist := rest } })
  | [] => (a.heap.newPacket.1, { a with heap := a.heap.newPacket.2 })

def bindPayload (p : PacketPtr) (a : Arena) : Except MemoryFault Arena :=
  match a.pool.payloadFreelist with
  | q :: rest => do
    let _ ← a.heap.getPayload q
    return { a with pool := { a.pool with payloadFreelist := rest } }.modify p fun pkt =>
      { pkt with payload := some q }
  | [] =>
    let r := a.heap.newPayload ⟨0, 0⟩
    pure ({ a with heap := r.2 }.modify p fun pkt => { pkt with payload := some r.1 })

def countAcquired (p : PacketPtr) (a : Arena) : Arena :=
  let used := a.pool.currentUsage + 1
  { a with
    pool := { a.pool with
      currentUsage := used
      peakUsage := if a.pool.peakUsage < used then used else a.pool.peakUsage }
    live := insert p a.live }

/-- `acquire`. The closing `reset` deletes the payload that was just bound. -/
def acquire (a : Arena) : Except MemoryFault (PacketPtr × Arena) := do
  let p := a.takePacket.1
  let taken := a.takePacket.2
  let _ ← taken.heap.get p
  let bound ← taken.bindPayload p
  let h ← bound.heap.resetPacket p
  return (p, { bound with heap := h }.countAcquired p)

/-- `remove_ref`, under the lock that `release` holds and would take again. Nothing calls
`add_ref`, so every count stays 0. -/
def removeRef (p : Option PacketPtr) (a : Arena) : Except MemoryFault Arena :=
  match p with
  | none => pure a
  | some p => do
    let pkt ← a.heap.get p
    if pkt.refCount ≤ 0 then return a
    else if pkt.refCount - 1 = 0 then throw .relock
    else return a.modify p fun pkt => { pkt with refCount := pkt.refCount - 1 }

/-- The payload goes to the free list, or is deleted when the list is full. -/
def freePayload (q : PayloadPtr) (a : Arena) : Except MemoryFault Arena :=
  if a.pool.payloadFreelist.length < a.pool.maxSize then
    .ok { a with pool := { a.pool with payloadFreelist := a.pool.payloadFreelist ++ [q] } }
  else do
    let h ← a.heap.deletePayload q
    return { a with heap := h }

def recyclePayload (p : PacketPtr) (a : Arena) : Except MemoryFault Arena :=
  match (a.heap.packet p).payload with
  | none => .ok a
  | some q => do
    let a ← a.freePayload q
    return a.modify p fun pkt => { pkt with payload := none }

def recyclePacket (p : PacketPtr) (a : Arena) : Except MemoryFault Arena :=
  if a.pool.packetFreelist.length < a.pool.maxSize then
    pure { a with pool := { a.pool with packetFreelist := a.pool.packetFreelist ++ [p] } }
  else do
    let h ← a.heap.deletePacket p
    return { a with heap := h }

def countReleased (p : PacketPtr) (a : Arena) : Arena :=
  { a with
    pool := { a.pool with currentUsage := a.pool.currentUsage - 1 }
    live := a.live.erase p }

/-- The reference to the original request is given up, unless the packet is its own. -/
def dropReference (p : PacketPtr) (a : Arena) : Except MemoryFault Arena :=
  if (a.heap.packet p).originalReq ≠ some p then a.removeRef (a.heap.packet p).originalReq else .ok a

/-- `release` of a packet; of a null pointer it does nothing. -/
def release (p : PacketPtr) (a : Arena) : Except MemoryFault Arena := do
  let _ ← a.heap.get p
  let a ← a.dropReference p
  let a ← (a.modify p fun pkt => { pkt with originalReq := none }).recyclePayload p
  let h ← a.heap.resetPacket p
  let a ← { a with heap := h }.recyclePacket p
  return a.countReleased p

/-- The lines that make a response to `orig`, answering `pkt`: in `CacheSim` and `MemorySim`. -/
def makeResponse (now : UInt64) (orig pkt : PacketPtr) (a : Arena) :
    Except MemoryFault (PacketPtr × Arena) := do
  let r ← a.acquire
  let origPkt ← r.2.heap.get orig
  let reqPkt ← r.2.heap.get pkt
  return (r.1, r.2.modify r.1 fun resp =>
    { resp with
      payload := origPkt.payload
      srcCycle := now
      type := .resp
      originalReq := some orig
      vcId := reqPkt.vcId })

end Arena
end GemSc
