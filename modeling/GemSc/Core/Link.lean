import GemSc.Core.Port
import GemSc.Core.SimplePort

/-! A `DownstreamPort` and an `UpstreamPort` that a `PortPair` may connect. A call
that leads into the owner's code takes its answer from `Owners`. -/

namespace GemSc

inductive LinkEnd
  | down
  | up
  deriving DecidableEq

/-- The current cycle of the owners and what their handlers answer during one call. -/
structure Owners where
  now : UInt64
  handleUpstreamRequest : ℕ → PacketPtr → Bool
  handleDownstreamResponse : PacketPtr → Bool

structure Link where
  wires : LinkEnd → SimplePort LinkEnd
  down : DownstreamPort
  up : UpstreamPort
  mem : Memory

namespace Link

/-- `recv` of the port at `e`: `SlavePort::recv` or `MasterPort::recv`. -/
def recv (o : Owners) (e : LinkEnd) (p : PacketPtr) (l : Link) : Bool × Link :=
  match e with
  | .up =>
    let r := l.up.recv o.now p l.mem
    (r.1, { l with up := r.2.1, mem := r.2.2 })
  | .down =>
    let r := MasterPort.updateStats o.now p l.mem l.down.stats
    (o.handleDownstreamResponse p, { l with mem := r.1, down := { l.down with stats := r.2 } })

def send (o : Owners) (e : LinkEnd) (p : PacketPtr) (l : Link) : Bool × Link :=
  match (l.wires e).sendTarget with
  | none => (false, l)
  | some other => l.recv o other p

/-- `MasterPort::send`, which `MasterPort::sendReq` calls. -/
def masterSend (o : Owners) (p : PacketPtr) (l : Link) : Bool × Link :=
  send o .down p { l with down :=
    { l.down with stats := MasterPort.countSent l.mem p l.down.stats } }

def sendReq (o : Owners) (p : PacketPtr) (l : Link) : Bool × Link :=
  let vcId := (l.mem.packet p).vcId
  if vcInRange vcId l.down.outputVcs.length then
    match l.down.outputVcs[vcId.toNat]? with
    | none => (false, l)
    | some vc =>
      if vc.buffer ≠ [] then
        let r := l.down.enqueueOrDrop vcId.toNat vc p
        (r.1, { l with down := r.2 })
      else match l.masterSend o p with
        | (true, l') => (true, l')
        | (false, l') =>
          let r := l'.down.enqueueOrDrop vcId.toNat vc p
          (r.1, { l' with down := r.2 })
  else (false, l)

/-- `OutputVC::trySend` on VC `i`, which calls `sendReq` of the port that owns the VC. -/
def trySend (o : Owners) (i : ℕ) (l : Link) : Bool × Link :=
  match l.down.outputVcs[i]? with
  | none => (true, l)
  | some vc => match vc.buffer with
    | [] => (true, l)
    | p :: _ => match l.sendReq o p with
      | (true, l') =>
        (true, { l' with down :=
          { l'.down with outputVcs := l'.down.outputVcs.modify i OutputVC.popForwarded } })
      | (false, l') => (false, l')

def downTick (o : Owners) (l : Link) : Link :=
  (List.range l.down.outputVcs.length).foldl (fun l i => (l.trySend o i).2) l

/-- `UpstreamPort::tick`, with the offers it made to the owner. -/
def upTick (o : Owners) (l : Link) : Link × List Offer :=
  let r := l.up.tick o.handleUpstreamRequest
  ({ l with up := r.1 }, r.2)

def sendResp (o : Owners) (p : PacketPtr) (l : Link) : Bool × Link :=
  send o .up p { l with up := { l.up with stats := SlavePort.countResponse l.mem p l.up.stats } }

/-- The wires that `new PortPair(down, up)` leaves on two unbound ports. -/
def pairedWires : LinkEnd → SimplePort LinkEnd := PortPair.construct (fun _ => {}) .down .up

def inRange (l : Link) (k : ℕ) : Bool := vcInRange k l.down.outputVcs.length

def Linked (l : Link) : Prop := (l.wires .down).sendTarget = some .up

end Link
end GemSc
