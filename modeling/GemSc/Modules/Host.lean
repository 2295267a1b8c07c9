import GemSc.Core.Port
import GemSc.Pool.PacketPool

/-! What a module sees of its surroundings during one call, and what it does to them. -/

namespace GemSc

/-- The current cycle, the ports of the module, what `sendReq` of a downstream port answers,
and the numbers drawn from `rand()` and from `addr_dist(rng)`. -/
structure Host where
  now : UInt64
  upstreamPorts : List UpstreamPort
  downstreamPorts : List DownstreamPort
  sendReq : ℕ → PacketPtr → Bool
  rand : ℕ
  randomAddr : UInt64

inductive PortCall
  | sendReq (port : ℕ) (p : PacketPtr)
  | sendResp (port : ℕ) (p : PacketPtr)
  | upstreamTick (port : ℕ)
  | downstreamTick (port : ℕ)
  deriving DecidableEq

namespace PortCall

def taken (sendReq : ℕ → PacketPtr → Bool) : PortCall → Option (ℕ × PacketPtr)
  | .sendReq port p => if sendReq port p then some (port, p) else none
  | .sendResp _ _ => none
  | .upstreamTick _ => none
  | .downstreamTick _ => none

def sent : PortCall → Option (ℕ × PacketPtr)
  | .sendResp port p => some (port, p)
  | .sendReq _ _ => none
  | .upstreamTick _ => none
  | .downstreamTick _ => none

end PortCall

inductive Task
  | sendResp (port : ℕ) (p : PacketPtr)
  | tryForward
  deriving DecidableEq

/-- What a call of a module leaves: its state, the arena, the port calls it made and the
events it scheduled, with their delays. -/
structure Effect (σ : Type*) where
  state : σ
  arena : Arena
  calls : List PortCall := []
  scheduled : List (Task × UInt64) := []

def Effect.map {σ τ : Type*} (f : σ → τ) (e : Effect σ) : Effect τ :=
  ⟨f e.state, e.arena, e.calls, e.scheduled⟩

end GemSc
