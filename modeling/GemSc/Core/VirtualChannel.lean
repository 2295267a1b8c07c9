import GemSc.Core.Packet

/-! `InputVC` and `OutputVC`: bounded FIFO buffers of packet pointers. -/

namespace GemSc

structure InputStats where
  enqueued : UInt64 := 0
  dropped : UInt64 := 0
  processed : UInt64 := 0
  deriving DecidableEq

structure InputVC where
  id : ℕ
  priority : ℕ
  buffer : List PacketPtr := []
  capacity : ℕ
  stats : InputStats := {}
  deriving DecidableEq

namespace InputVC

def enqueue (vc : InputVC) (p : PacketPtr) : Bool × InputVC :=
  if vc.capacity ≤ vc.buffer.length then (false, vc)
  else (true, { vc with
    buffer := vc.buffer ++ [p]
    stats := { vc.stats with enqueued := vc.stats.enqueued + 1 } })

def pop (vc : InputVC) : InputVC :=
  match vc.buffer with
  | [] => vc
  | _ :: rest => { vc with
    buffer := rest
    stats := { vc.stats with processed := vc.stats.processed + 1 } }

def countDropped (vc : InputVC) : InputVC :=
  { vc with stats := { vc.stats with dropped := vc.stats.dropped + 1 } }

def Full (vc : InputVC) : Prop := vc.capacity ≤ vc.buffer.length

end InputVC

structure OutputStats where
  enqueued : UInt64 := 0
  forwarded : UInt64 := 0
  dropped : UInt64 := 0
  deriving DecidableEq

structure OutputVC where
  id : ℕ
  priority : ℕ
  buffer : List PacketPtr := []
  capacity : ℕ
  stats : OutputStats := {}
  deriving DecidableEq

namespace OutputVC

def enqueue (vc : OutputVC) (p : PacketPtr) : Bool × OutputVC :=
  if vc.capacity ≤ vc.buffer.length then (false, vc)
  else (true, { vc with
    buffer := vc.buffer ++ [p]
    stats := { vc.stats with enqueued := vc.stats.enqueued + 1 } })

/-- The two statements of `trySend` after its `sendReq` returned true. -/
def popForwarded (vc : OutputVC) : OutputVC :=
  { vc with
    buffer := vc.buffer.tail
    stats := { vc.stats with forwarded := vc.stats.forwarded + 1 } }

def countDropped (vc : OutputVC) : OutputVC :=
  { vc with stats := { vc.stats with dropped := vc.stats.dropped + 1 } }

def Full (vc : OutputVC) : Prop := vc.capacity ≤ vc.buffer.length

end OutputVC
end GemSc
