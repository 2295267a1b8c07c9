import GemSc.Modules.Host

/-! `Crossbar`, `Arbiter` and `Router`. Port counts are below `2 ^ 31`, so that their casts to
`int` are exact. -/

namespace GemSc

structure Crossbar where
  reqQueue : List (PacketPtr × ℕ) := []
  deriving DecidableEq

namespace Crossbar

def route (addr : UInt64) (ports : ℕ) : ℕ := if ports = 0 then 0 else addr.toNat % ports

def handleUpstreamRequest (pkt : PacketPtr) (srcId : ℕ) (x : Crossbar) (a : Arena) :
    Except MemoryFault (Bool × Effect Crossbar) :=
  .ok (true, ⟨{ x with reqQueue := x.reqQueue ++ [(pkt, srcId)] }, a, [], []⟩)

def handleDownstreamResponse (pkt : PacketPtr) (x : Crossbar) (a : Arena) :
    Except MemoryFault (Bool × Effect Crossbar) := do
  let a ← a.release pkt
  return (true, ⟨x, a, [], []⟩)

/-- A request that `sendReq` refused goes to the back of the queue; without ports it is freed. -/
def tick (host : Host) (x : Crossbar) (a : Arena) : Except MemoryFault (Effect Crossbar) :=
  match x.reqQueue with
  | [] => .ok ⟨x, a, [], []⟩
  | (pkt, srcId) :: rest =>
    if host.downstreamPorts = [] then do
      let a ← a.release pkt
      return ⟨⟨rest⟩, a, [], []⟩
    else do
      let addr ← a.heap.address pkt
      let dst := route addr host.downstreamPorts.length
      if host.sendReq dst pkt then return ⟨⟨rest⟩, a, [.sendReq dst pkt], []⟩
      else return ⟨⟨rest ++ [(pkt, srcId)]⟩, a, [.sendReq dst pkt], []⟩

end Crossbar

structure Arbiter where
  reqQueue : List (PacketPtr × ℕ) := []
  deriving DecidableEq

namespace Arbiter

def handleUpstreamRequest (pkt : PacketPtr) (srcId : ℕ) (x : Arbiter) (a : Arena) :
    Except MemoryFault (Bool × Effect Arbiter) :=
  .ok (true, ⟨{ x with reqQueue := x.reqQueue ++ [(pkt, srcId)] }, a, [], []⟩)

def handleDownstreamResponse (pkt : PacketPtr) (x : Arbiter) (a : Arena) :
    Except MemoryFault (Bool × Effect Arbiter) := do
  let a ← a.release pkt
  return (true, ⟨x, a, [], []⟩)

/-- Without a downstream port the request is taken off the queue and lost. -/
def tick (host : Host) (x : Arbiter) (a : Arena) : Except MemoryFault (Effect Arbiter) :=
  match x.reqQueue with
  | [] => .ok ⟨x, a, [], []⟩
  | (pkt, srcId) :: rest =>
    if host.downstreamPorts = [] then .ok ⟨⟨rest⟩, a, [], []⟩
    else if host.sendReq 0 pkt then .ok ⟨⟨rest⟩, a, [.sendReq 0 pkt], []⟩
    else .ok ⟨⟨rest ++ [(pkt, srcId)]⟩, a, [.sendReq 0 pkt], []⟩

end Arbiter

structure Router where
  deriving DecidableEq

namespace Router

/-- The second branch hides the third. -/
def routeByAddress (addr : UInt64) : ℕ :=
  if 0x80000000 ≤ addr then 1
  else if 0xF0000000 ≤ addr then 2
  else 0

/-- What `sendReq` answers is not read. -/
def handleUpstreamRequest (host : Host) (pkt : PacketPtr) (r : Router) (a : Arena) :
    Except MemoryFault (Bool × Effect Router) := do
  let addr ← a.heap.address pkt
  let dst := routeByAddress addr
  if dst < host.downstreamPorts.length then return (true, ⟨r, a, [.sendReq dst pkt], []⟩)
  else
    let a ← a.release pkt
    return (true, ⟨r, a, [], []⟩)

def handleDownstreamResponse (host : Host) (pkt : PacketPtr) (srcId : ℕ) (r : Router) (a : Arena) :
    Except MemoryFault (Bool × Effect Router) := do
  let resp ← a.heap.get pkt
  if resp.originalReq.isSome ∧ srcId < host.upstreamPorts.length then
    return (true, ⟨r, a, [.sendResp srcId pkt], []⟩)
  else
    let a ← a.release pkt
    return (true, ⟨r, a, [], []⟩)

def tick (r : Router) (a : Arena) : Except MemoryFault (Effect Router) := .ok ⟨r, a, [], []⟩

end Router
end GemSc
