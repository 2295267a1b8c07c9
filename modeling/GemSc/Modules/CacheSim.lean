import GemSc.Modules.Host

/-! `MemorySim` and `CacheSim`: the modules that answer requests. -/

namespace GemSc

structure MemorySim where
  deriving DecidableEq

namespace MemorySim

def handleUpstreamRequest (host : Host) (pkt : PacketPtr) (srcId : ℕ) (m : MemorySim) (a : Arena) :
    Except MemoryFault (Bool × Effect MemorySim) := do
  let _ ← a.heap.address pkt
  let r ← a.makeResponse host.now pkt pkt
  return (true, ⟨m, r.2, [], [(.sendResp srcId r.1, 100)]⟩)

def tick (m : MemorySim) (a : Arena) : Except MemoryFault (Effect MemorySim) := .ok ⟨m, a, [], []⟩

end MemorySim

structure CacheSim where
  reqBuffer : List PacketPtr := []
  deriving DecidableEq

namespace CacheSim

def maxBuffer : ℕ := 4

def isHit (addr : UInt64) : Bool := addr &&& 0x7 = 0

/-- The index of the port that the address of the packet selects; none without ports. -/
def routeToDownstream (host : Host) (pkt : PacketPtr) (a : Arena) : Except MemoryFault (Option ℕ) :=
  if host.downstreamPorts = [] then .ok none
  else do
    let addr ← a.heap.address pkt
    return some ((addr >>> 8).toNat % host.downstreamPorts.length)

def handleHit (host : Host) (pkt : PacketPtr) (srcId : ℕ) (c : CacheSim) (a : Arena) :
    Except MemoryFault (Bool × Effect CacheSim) := do
  let r ← a.makeResponse host.now pkt pkt
  let a ← r.2.release pkt
  return (true, ⟨c, a, [], [(.sendResp srcId r.1, 1)]⟩)

def handleUpstreamRequest (host : Host) (pkt : PacketPtr) (srcId : ℕ) (c : CacheSim) (a : Arena) :
    Except MemoryFault (Bool × Effect CacheSim) :=
  if maxBuffer ≤ c.reqBuffer.length then do
    let a ← a.release pkt
    return (false, ⟨c, a, [], []⟩)
  else do
    let addr ← a.heap.address pkt
    if isHit addr then c.handleHit host pkt srcId a
    else return (true, ⟨{ c with reqBuffer := c.reqBuffer ++ [pkt] }, a, [], [(.tryForward, 1)]⟩)

def handleDownstreamResponse (host : Host) (pkt : PacketPtr) (srcId : ℕ) (c : CacheSim) (a : Arena) :
    Except MemoryFault (Bool × Effect CacheSim) := do
  let resp ← a.heap.get pkt
  let orig ← Heap.deref resp.originalReq
  let r ← a.makeResponse host.now orig pkt
  let a ← r.2.release pkt
  return (true, ⟨c, a, [], [(.sendResp (srcId % host.upstreamPorts.length) r.1, 1)]⟩)

/-- `tryForward`, without its answer, which no caller reads. -/
def tryForward (host : Host) (c : CacheSim) (a : Arena) : Except MemoryFault (Effect CacheSim) :=
  match c.reqBuffer with
  | [] => .ok ⟨c, a, [], []⟩
  | pkt :: rest => do
    let dst ← routeToDownstream host pkt a
    match dst with
    | none => return ⟨c, a, [], []⟩
    | some port =>
      if host.sendReq port pkt then return ⟨{ c with reqBuffer := rest }, a, [.sendReq port pkt], []⟩
      else return ⟨c, a, [.sendReq port pkt], []⟩

def tick (host : Host) (c : CacheSim) (a : Arena) : Except MemoryFault (Effect CacheSim) :=
  c.tryForward host a

end CacheSim
end GemSc
