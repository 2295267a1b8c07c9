import GemSc.Modules.Host

/-! The router of the NoC and the wrapper of a SystemC object: two owners of ports that
delete the packets they do not take. -/

namespace GemSc
open Function

namespace Arena

/-- `delete pkt`, which tells the pool nothing. -/
def discard (p : PacketPtr) (a : Arena) : Except MemoryFault Arena := do
  let h ← a.heap.deletePacket p
  return { a with heap := h }

end Arena

inductive FlitType
  | head
  | body
  | tail
  | headTail
  deriving DecidableEq

structure FlitTypeExtension where
  type : FlitType
  packetId : UInt64
  vcId : ℤ
  deriving DecidableEq

/-- What `router.cc` calls without defining it. The VC allocator and the table of routes are
in a state of type `σ`. -/
structure NocParts (σ : Type) where
  numDirections : ℤ
  route : Heap → PacketPtr → ℤ
  allocateVC : ℤ → ℤ → σ → ℤ × σ
  findRouteForPacket : UInt64 → σ → Option (ℕ × ℕ)
  canSend : ℕ → σ → Bool

/-- `Router` of `src/noc`, with the flit extensions that payloads carry. -/
structure NocRouter (σ : Type) where
  outputVcs : ℕ → List OutputVC
  flits : PayloadPtr → Option FlitTypeExtension
  tables : σ

namespace NocRouter
variable {σ : Type} (parts : NocParts σ)

def discard (ok : Bool) (pkt : PacketPtr) (r : NocRouter σ) (a : Arena) :
    Except MemoryFault (Bool × Effect (NocRouter σ)) := do
  let a ← a.discard pkt
  return (ok, ⟨r, a, [], []⟩)

/-- `output_ports[dir].output_vcs[vc].enqueue(pkt)`, whose answer is not read. -/
def enqueue (dir vc : ℕ) (pkt : PacketPtr) (r : NocRouter σ) : NocRouter σ :=
  let vcs := (r.outputVcs dir).modify vc fun v => (v.enqueue pkt).2
  { r with outputVcs := update r.outputVcs dir vcs }

/-- `flit_ext->vc_id = vc` -/
def setVc (q : PayloadPtr) (flit : FlitTypeExtension) (vc : ℤ) (r : NocRouter σ) : NocRouter σ :=
  { r with flits := update r.flits q (some { flit with vcId := vc }) }

def inDirections (dir : ℤ) : Prop := ¬ (dir < 0 ∨ parts.numDirections ≤ dir)

instance (dir : ℤ) : Decidable (inDirections parts dir) := inferInstanceAs (Decidable (¬ _))

def handleHead (pkt : PacketPtr) (q : PayloadPtr) (flit : FlitTypeExtension) (r : NocRouter σ)
    (a : Arena) : Except MemoryFault (Bool × Effect (NocRouter σ)) :=
  let dir := parts.route a.heap pkt
  if inDirections parts dir then
    let vc := parts.allocateVC dir flit.vcId r.tables
    let r := { r with tables := vc.2 }
    if 0 ≤ vc.1 then
      .ok (true, ⟨(r.setVc q flit vc.1).enqueue dir.toNat vc.1.toNat pkt, a, [], []⟩)
    else r.discard false pkt a
  else r.discard false pkt a

def handleBody (pkt : PacketPtr) (flit : FlitTypeExtension) (r : NocRouter σ) (a : Arena) :
    Except MemoryFault (Bool × Effect (NocRouter σ)) :=
  match parts.findRouteForPacket flit.packetId r.tables with
  | none => r.discard false pkt a
  | some (dir, vc) => .ok (true, ⟨r.enqueue dir vc pkt, a, [], []⟩)

/-- A packet of one flit for which no VC is found is deleted and still accepted. -/
def handleHeadTail (pkt : PacketPtr) (q : PayloadPtr) (flit : FlitTypeExtension) (r : NocRouter σ)
    (a : Arena) : Except MemoryFault (Bool × Effect (NocRouter σ)) :=
  let dir := parts.route a.heap pkt
  if inDirections parts dir then
    if parts.canSend dir.toNat r.tables then
      .ok (true, ⟨r, a, [.sendReq dir.toNat pkt], []⟩)
    else
      let vc := parts.allocateVC dir flit.vcId r.tables
      let r := { r with tables := vc.2 }
      if 0 ≤ vc.1 then
        .ok (true, ⟨(r.setVc q flit vc.1).enqueue dir.toNat vc.1.toNat pkt, a, [], []⟩)
      else r.discard true pkt a
  else r.discard false pkt a

def handleFlit (pkt : PacketPtr) (q : PayloadPtr) (r : NocRouter σ) (a : Arena) :
    Except MemoryFault (Bool × Effect (NocRouter σ)) :=
  match r.flits q with
  | none => r.discard false pkt a
  | some flit =>
    match flit.type with
    | .head => r.handleHead parts pkt q flit a
    | .body => r.handleBody parts pkt flit a
    | .tail => r.handleBody parts pkt flit a
    | .headTail => r.handleHeadTail parts pkt q flit a

def handleUpstreamRequest (pkt : PacketPtr) (r : NocRouter σ) (a : Arena) :
    Except MemoryFault (Bool × Effect (NocRouter σ)) := do
  let flitPkt ← a.heap.get pkt
  let q ← Heap.deref flitPkt.payload
  let _ ← a.heap.getPayload q
  r.handleFlit parts pkt q a

end NocRouter

/-- The signals of a `ScObject` that the wrapper reads and writes. -/
structure ScObject where
  readyOut : Bool
  validIn : Bool := false
  dataIn : Option PacketPtr := none
  deriving DecidableEq

/-- The object is missing when its construction threw. -/
structure ScWrapper where
  scObject : Option ScObject
  deriving DecidableEq

namespace ScWrapper

def discard (pkt : PacketPtr) (w : ScWrapper) (a : Arena) :
    Except MemoryFault (Bool × Effect ScWrapper) := do
  let a ← a.discard pkt
  return (false, ⟨w, a, [], []⟩)

def handleUpstreamRequest (pkt : PacketPtr) (w : ScWrapper) (a : Arena) :
    Except MemoryFault (Bool × Effect ScWrapper) :=
  match w.scObject with
  | none => w.discard pkt a
  | some o =>
    if o.readyOut then .ok (true, ⟨⟨some { o with validIn := true, dataIn := some pkt }⟩, a, [], []⟩)
    else w.discard pkt a

end ScWrapper
end GemSc
