import GemSc.Modules.Inversion

/-! Networks of `CPUSim`, `CacheSim` and `MemorySim` objects over one pool. A request that a
port took waits among `requests` until it is offered to its owner; what VCs hold and in which
order is left open, and so is the order of the scheduled events. -/

namespace GemSc
open ExceptFold

inductive Node
  | cpu (i : ℕ)
  | cache (i : ℕ)
  | memory (i : ℕ)
  deriving DecidableEq

/-- What the ports of each node are bound to: a downstream port to an upstream port of another
node, and back. -/
structure Topology where
  upstreamOf : Node → ℕ → Node × ℕ
  downstreamOf : Node → ℕ → Node × ℕ

structure Network where
  arena : Arena
  cpus : ℕ → CPUSim
  caches : ℕ → CacheSim
  requests : List (PacketPtr × Node × ℕ)
  tasks : List (Node × Task)

inductive NetStep
  | tick (node : Node) (host : Host)
  /-- The request at index `i` is offered to the node that it waits at. -/
  | offer (i : ℕ) (host : Host)
  /-- The scheduled event at index `i` is processed. -/
  | fire (i : ℕ) (host : Host)
  /-- `recv` of a port stamps a packet. -/
  | stamp (p : PacketPtr) (cycle : UInt64)
  | acquire
  | release (p : PacketPtr)

namespace Network
variable (t : Topology)

def taken (host : Host) (node : Node) (calls : List PortCall) : List (PacketPtr × Node × ℕ) :=
  (calls.filterMap (·.taken host.sendReq)).map fun r => (r.2, t.upstreamOf node r.1)

def absorb {σ : Type} (host : Host) (node : Node) (e : Effect σ) (n : Network) : Network :=
  { n with
    arena := e.arena
    requests := n.requests ++ taken t host node e.calls
    tasks := n.tasks ++ e.scheduled.map fun s => (node, s.1) }

def setCpu (i : ℕ) (c : CPUSim) (n : Network) : Network :=
  { n with cpus := Function.update n.cpus i c }

def setCache (i : ℕ) (c : CacheSim) (n : Network) : Network :=
  { n with caches := Function.update n.caches i c }

section
variable {σ : Type} (host : Host) (node : Node) (e : Effect σ) (n : Network) (i : ℕ) (c : CPUSim)
  (d : CacheSim)

@[simp] theorem taken_nil : taken t host node [] = [] := rfl

@[simp] theorem arena_absorb : (n.absorb t host node e).arena = e.arena := rfl

@[simp] theorem requests_absorb :
    (n.absorb t host node e).requests = n.requests ++ taken t host node e.calls := rfl

@[simp] theorem tasks_absorb :
    (n.absorb t host node e).tasks = n.tasks ++ e.scheduled.map fun s => (node, s.1) := rfl

@[simp] theorem caches_absorb : (n.absorb t host node e).caches = n.caches := rfl

@[simp] theorem arena_setCpu : (n.setCpu i c).arena = n.arena := rfl

@[simp] theorem requests_setCpu : (n.setCpu i c).requests = n.requests := rfl

@[simp] theorem tasks_setCpu : (n.setCpu i c).tasks = n.tasks := rfl

@[simp] theorem caches_setCpu : (n.setCpu i c).caches = n.caches := rfl

@[simp] theorem requests_setCache : (n.setCache i d).requests = n.requests := rfl

@[simp] theorem tasks_setCache : (n.setCache i d).tasks = n.tasks := rfl

@[simp] theorem caches_setCache :
    (n.setCache i d).caches = Function.update n.caches i d := rfl

end

def tick (host : Host) (n : Network) : Node → Except MemoryFault Network
  | .cpu i => do
    let e ← (n.cpus i).tick host n.arena
    return (n.absorb t host (.cpu i) e).setCpu i e.state
  | .cache i => do
    let e ← (n.caches i).tick host n.arena
    return (n.absorb t host (.cache i) e).setCache i e.state
  | .memory _ => .ok n

/-- `handleUpstreamRequest` of the node; a CPU has only the default one, which refuses. -/
def request (host : Host) (p : PacketPtr) (port : ℕ) (n : Network) :
    Node → Except MemoryFault (Bool × Network)
  | .cpu _ => .ok (false, n)
  | .cache i => do
    let r ← (n.caches i).handleUpstreamRequest host p port n.arena
    return (r.1, (n.absorb t host (.cache i) r.2).setCache i r.2.state)
  | .memory i => do
    let r ← MemorySim.handleUpstreamRequest host p port ⟨⟩ n.arena
    return (r.1, n.absorb t host (.memory i) r.2)

def response (host : Host) (p : PacketPtr) (port : ℕ) (n : Network) :
    Node → Except MemoryFault Network
  | .cpu i => do
    let r ← (n.cpus i).handleDownstreamResponse p n.arena
    return (n.absorb t host (.cpu i) r.2).setCpu i r.2.state
  | .cache i => do
    let r ← (n.caches i).handleDownstreamResponse host p port n.arena
    return (n.absorb t host (.cache i) r.2).setCache i r.2.state
  | .memory _ => .ok n

def step (n : Network) : NetStep → Except MemoryFault Network
  | .tick node host => n.tick t host node
  | .offer i host =>
    match n.requests[i]? with
    | none => .ok n
    | some (p, node, port) => do
      let r ← n.request t host p port node
      return if r.1 then { r.2 with requests := r.2.requests.eraseIdx i } else r.2
  | .fire i host =>
    match n.tasks[i]? with
    | none => .ok n
    | some (node, .tryForward) => { n with tasks := n.tasks.eraseIdx i }.tick t host node
    | some (node, .sendResp port p) =>
      let dst := t.downstreamOf node port
      { n with tasks := n.tasks.eraseIdx i }.response t host p dst.2 dst.1
  | .stamp p cycle =>
    .ok { n with arena := n.arena.modify p fun pkt => { pkt with dstCycle := cycle } }
  | .acquire => do
    let r ← n.arena.acquire
    return { n with arena := r.2 }
  | .release p => do
    let a ← n.arena.release p
    return { n with arena := a }

def run (n : Network) (steps : List NetStep) : Except MemoryFault Network := steps.foldlM (step t) n

def idle : Network := ⟨.empty, fun _ => {}, fun _ => {}, [], []⟩

def cpuOver (node : Node) : Topology := ⟨fun _ _ => (node, 0), fun _ _ => (.cpu 0, 0)⟩

end Network
end GemSc
