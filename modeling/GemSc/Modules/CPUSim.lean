import GemSc.Modules.Host

/-! `CPUSim` and `TrafficGenerator`: the modules that issue requests. -/

namespace GemSc

/-- The map from addresses to packets is a list of pairs with distinct keys. -/
structure CPUSim where
  inflightReqs : List (UInt64 × PacketPtr) := []
  nextAddr : UInt64 := 0x1000

namespace CPUSim

def erase (c : CPUSim) (addr : UInt64) : CPUSim :=
  { c with inflightReqs := c.inflightReqs.filter fun r => r.1 ≠ addr }

def handleDownstreamResponse (pkt : PacketPtr) (c : CPUSim) (a : Arena) :
    Except MemoryFault (Bool × Effect CPUSim) := do
  let resp ← a.heap.get pkt
  if resp.isResponse then
    let orig ← Heap.deref resp.originalReq
    let addr ← a.heap.address orig
    let a ← a.release pkt
    return (true, ⟨c.erase addr, a, [], []⟩)
  else
    let a ← a.release pkt
    return (false, ⟨c, a, [], []⟩)

def sendRequest (host : Host) (pkt : PacketPtr) (c : CPUSim) (a : Arena) :
    Except MemoryFault (Effect CPUSim) :=
  let port := c.nextAddr.toNat % host.downstreamPorts.length
  if host.sendReq port pkt then
    let inflight := (c.nextAddr, pkt) :: (c.erase c.nextAddr).inflightReqs
    .ok ⟨{ inflightReqs := inflight, nextAddr := c.nextAddr + 4 }, a, [.sendReq port pkt], []⟩
  else do
    let a ← a.release pkt
    return ⟨c, a, [.sendReq port pkt], []⟩

def tick (host : Host) (c : CPUSim) (a : Arena) : Except MemoryFault (Effect CPUSim) :=
  if host.downstreamPorts = [] then .ok ⟨c, a, [], []⟩
  else if c.inflightReqs.length < 4 ∧ host.rand % 20 = 0 then do
    let trans := a.newPayload ⟨c.nextAddr, 4⟩
    let r ← trans.2.acquire
    let a := r.2.modify r.1 fun pkt =>
      { pkt with payload := some trans.1, srcCycle := host.now, type := .req, vcId := 0 }
    c.sendRequest host r.1 a
  else .ok ⟨c, a, [], []⟩

end CPUSim

inductive GenMode
  | sequential
  | random
  | trace
  deriving DecidableEq

/-- `trace` holds the addresses of the entries. The constructor does not set `trace_pos`. -/
structure TrafficGenerator where
  mode : GenMode := .sequential
  curAddr : UInt64
  startAddr : UInt64 := 0x1000
  endAddr : UInt64 := 0x2000
  numRequests : ℤ := 20
  completed : ℤ := 0
  trace : List UInt64 := [0x1000, 0x1004, 0x1008, 0x100c]
  tracePos : ℕ

namespace TrafficGenerator

def handleDownstreamResponse (pkt : PacketPtr) (g : TrafficGenerator) (a : Arena) :
    Except MemoryFault (Bool × Effect TrafficGenerator) := do
  let resp ← a.heap.get pkt
  let a ← a.release pkt
  if resp.isResponse then return (true, ⟨{ g with completed := g.completed + 1 }, a, [], []⟩)
  else return (false, ⟨g, a, [], []⟩)

def nextAddress (host : Host) (g : TrafficGenerator) : Option UInt64 × TrafficGenerator :=
  match g.mode with
  | .sequential =>
    let next := g.curAddr + 4
    (some g.curAddr, { g with curAddr := if g.endAddr ≤ next then g.startAddr else next })
  | .random => (some host.randomAddr, g)
  | .trace =>
    match g.trace[g.tracePos]? with
    | none => (none, g)
    | some addr => (some addr, { g with tracePos := g.tracePos + 1 })

def sendRequest (host : Host) (pkt : PacketPtr) (g : TrafficGenerator) (a : Arena) :
    Except MemoryFault (Effect TrafficGenerator) :=
  if host.sendReq 0 pkt then .ok ⟨g, a, [.sendReq 0 pkt], []⟩
  else do
    let a ← a.release pkt
    return ⟨g, a, [.sendReq 0 pkt], []⟩

def issueRequest (host : Host) (g : TrafficGenerator) (a : Arena) :
    Except MemoryFault (Effect TrafficGenerator) :=
  match g.nextAddress host with
  | (none, g) => .ok ⟨g, (a.newPayload ⟨0, 0⟩).2, [], []⟩
  | (some addr, g) => do
    let trans := a.newPayload ⟨addr, 4⟩
    let r ← trans.2.acquire
    let a := r.2.modify r.1 fun pkt =>
      { pkt with payload := some trans.1, srcCycle := host.now, type := .req }
    g.sendRequest host r.1 a

def tick (host : Host) (g : TrafficGenerator) (a : Arena) :
    Except MemoryFault (Effect TrafficGenerator) :=
  if host.downstreamPorts ≠ [] ∧ g.completed < g.numRequests ∧ host.rand % 10 = 0 then
    g.issueRequest host a
  else .ok ⟨g, a, [], []⟩

end TrafficGenerator
end GemSc
