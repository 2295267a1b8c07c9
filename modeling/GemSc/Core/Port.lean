import GemSc.Core.PortStats
import GemSc.Core.VirtualChannel

/-! `UpstreamPort` and `DownstreamPort` without their `SimplePort` part, which is kept
in a table of its own, and without the pointer to the owner that holds them. -/

namespace GemSc

structure UpstreamPort where
  id : ℕ
  label : String
  name : String
  inputVcs : List InputVC
  stats : PortStats := {}
  deriving DecidableEq

structure DownstreamPort where
  id : ℕ
  label : String
  name : String
  outputVcs : List OutputVC
  stats : PortStats := {}
  deriving DecidableEq

def vcPriority (priorities : List ℕ) (vid : ℕ) : ℕ := priorities.getD vid vid

/-- `(int)vcs.size()`: two's complement on 32 bits. -/
def intSize (n : ℕ) : ℤ :=
  if n % 2 ^ 32 < 2 ^ 31 then (n % 2 ^ 32 : ℕ) else (n % 2 ^ 32 : ℕ) - 2 ^ 32

/-- `!(vc_id < 0 || vc_id >= (int)vcs.size())` -/
def vcInRange (vcId : ℤ) (n : ℕ) : Bool := 0 ≤ vcId ∧ vcId < intSize n

theorem vcInRange_toNat {vcId : ℤ} {n : ℕ} (h : vcInRange vcId n) :
    vcId.toNat < n ∧ (vcId.toNat : ℤ) = vcId := by
  have hle : intSize n ≤ n := by
    unfold intSize
    split_ifs <;> omega
  simp only [vcInRange, decide_eq_true_eq] at h
  omega

namespace UpstreamPort

def buffer (u : UpstreamPort) (k : ℕ) : List PacketPtr := (u.inputVcs[k]?.map (·.buffer)).getD []

def new (i : ℕ) (inSizes priorities : List ℕ) (label : String) : UpstreamPort where
  id := i
  label := label
  name := if label.isEmpty then "upstream[" ++ toString i ++ "]" else label
  inputVcs := inSizes.mapIdx fun vid size =>
    { id := vid, priority := vcPriority priorities vid, capacity := size }

/-- `recvReq`: the answer, the port and the packet memory after it. -/
def recvReq (now : UInt64) (p : PacketPtr) (u : UpstreamPort) (m : Memory) :
    Bool × UpstreamPort × Memory :=
  let vcId := (m.packet p).vcId
  if vcInRange vcId u.inputVcs.length then
    let m := m.setDstCycle p now
    match u.inputVcs[vcId.toNat]? with
    | none => (false, u, m)
    | some vc => match vc.enqueue p with
      | (true, vc') => (true, { u with inputVcs := u.inputVcs.set vcId.toNat vc' }, m)
      | (false, _) => (false, { u with inputVcs := u.inputVcs.set vcId.toNat vc.countDropped }, m)
  else (false, u, m)

def recv (now : UInt64) (p : PacketPtr) (u : UpstreamPort) (m : Memory) :
    Bool × UpstreamPort × Memory :=
  let r := SlavePort.updateStats now p m u.stats
  recvReq now p { u with stats := r.2 } r.1

end UpstreamPort

structure Offer where
  vc : ℕ
  packet : PacketPtr
  accepted : Bool
  deriving DecidableEq

namespace UpstreamPort

/-- The loop of `tick` from VC `i` on, with the owner's answer to each offer. -/
def tickVcs (answer : ℕ → PacketPtr → Bool) : ℕ → List InputVC → List InputVC × List Offer
  | _, [] => ([], [])
  | i, vc :: vcs =>
    let rest := tickVcs answer (i + 1) vcs
    match vc.buffer with
    | [] => (vc :: rest.1, rest.2)
    | p :: _ => ((if answer i p then vc.pop else vc) :: rest.1, ⟨i, p, answer i p⟩ :: rest.2)

def tick (answer : ℕ → PacketPtr → Bool) (u : UpstreamPort) : UpstreamPort × List Offer :=
  ({ u with inputVcs := (tickVcs answer 0 u.inputVcs).1 }, (tickVcs answer 0 u.inputVcs).2)

end UpstreamPort

namespace DownstreamPort

def buffer (d : DownstreamPort) (k : ℕ) : List PacketPtr := (d.outputVcs[k]?.map (·.buffer)).getD []

def new (i : ℕ) (outSizes priorities : List ℕ) (label : String) : DownstreamPort where
  id := i
  label := label
  name := if label.isEmpty then "downstream[" ++ toString i ++ "]" else label
  outputVcs := outSizes.mapIdx fun vid size =>
    { id := vid, priority := vcPriority priorities vid, capacity := size }

def setVc (d : DownstreamPort) (i : ℕ) (vc : OutputVC) : DownstreamPort :=
  { d with outputVcs := d.outputVcs.set i vc }

/-- Enqueue at VC `i`, or count a drop there: the two places of `sendReq` that do so. -/
def enqueueOrDrop (d : DownstreamPort) (i : ℕ) (vc : OutputVC) (p : PacketPtr) :
    Bool × DownstreamPort :=
  match vc.enqueue p with
  | (true, vc') => (true, d.setVc i vc')
  | (false, _) => (false, d.setVc i vc.countDropped)

end DownstreamPort
end GemSc
