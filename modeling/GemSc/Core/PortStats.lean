import GemSc.Core.Packet

/-! `PortStats` and the two `updateStats`. Counters are `uint64_t` and wrap. -/

namespace GemSc

structure PortStats where
  reqCount : UInt64 := 0
  respCount : UInt64 := 0
  byteCount : UInt64 := 0
  totalDelay : UInt64 := 0
  minDelay : UInt64 := 0xFFFFFFFFFFFFFFFF
  maxDelay : UInt64 := 0
  creditSent : UInt64 := 0
  creditReceived : UInt64 := 0
  creditValue : UInt64 := 0
  deriving DecidableEq

namespace PortStats

def recordDelay (s : PortStats) (delay : UInt64) : PortStats :=
  { s with
    totalDelay := s.totalDelay + delay
    minDelay := if delay < s.minDelay then delay else s.minDelay
    maxDelay := if s.maxDelay < delay then delay else s.maxDelay }

end PortStats

namespace MasterPort

/-- `MasterPort::updateStats` on a received packet, after `dst_cycle` was set. -/
def countReceived (m : Memory) (p : PacketPtr) (s : PortStats) : PortStats :=
  if (m.packet p).isResponse then
    let s := { s with respCount := s.respCount + 1, byteCount := s.byteCount + m.dataLength p }
    match (m.packet p).originalReq with
    | none => s
    | some q => s.recordDelay ((m.packet p).dstCycle - (m.packet q).srcCycle)
  else if (m.packet p).isCredit then
    { s with creditReceived := s.creditReceived + 1 }
  else s

def updateStats (now : UInt64) (p : PacketPtr) (m : Memory) (s : PortStats) : Memory × PortStats :=
  (m.setDstCycle p now, countReceived (m.setDstCycle p now) p s)

theorem updateStats_response {m : Memory} {p q : PacketPtr} (htype : (m.packet p).type = .resp)
    (horig : (m.packet p).originalReq = some q) (now : UInt64) (s : PortStats) :
    (updateStats now p m s).2 =
      { s with
        respCount := s.respCount + 1
        byteCount := s.byteCount + m.dataLength p }.recordDelay (now - (m.packet q).srcCycle) := by
  have hself : (m.setDstCycle p now).packet p = { m.packet p with dstCycle := now } := by
    rw [Memory.packet_setDstCycle, if_pos rfl]
  -- the request keeps its `src_cycle`, also when it is the received packet itself
  have hsrc : ((m.setDstCycle p now).packet q).srcCycle = (m.packet q).srcCycle := by
    rw [Memory.packet_setDstCycle]
    split_ifs with hq
    · rw [hq]
    · rfl
  simp only [updateStats, countReceived, hself, Packet.isResponse, htype, horig, hsrc, decide_true,
    if_true, Memory.dataLength_setDstCycle]

/-- What `MasterPort::send` counts before it sends. -/
def countSent (m : Memory) (p : PacketPtr) (s : PortStats) : PortStats :=
  if (m.packet p).isRequest then
    { s with reqCount := s.reqCount + 1, byteCount := s.byteCount + m.dataLength p }
  else if (m.packet p).isCredit then
    { s with creditSent := s.creditSent + 1 }
  else s

end MasterPort

namespace SlavePort

/-- `SlavePort::updateStats` on a received packet, after `dst_cycle` was set. -/
def countReceived (m : Memory) (p : PacketPtr) (s : PortStats) : PortStats :=
  let s := if (m.packet p).originalReq.isSome && !(m.packet p).isCredit then
      s.recordDelay (m.packet p).getDelayCycles
    else s
  if (m.packet p).isRequest then
    { s with reqCount := s.reqCount + 1, byteCount := s.byteCount + m.dataLength p }
  else if (m.packet p).isStream then
    { s with reqCount := s.reqCount + 1 }
  else s

def updateStats (now : UInt64) (p : PacketPtr) (m : Memory) (s : PortStats) : Memory × PortStats :=
  (m.setDstCycle p now, countReceived (m.setDstCycle p now) p s)

/-- What `SlavePort::sendResp` counts before it sends. -/
def countResponse (m : Memory) (p : PacketPtr) (s : PortStats) : PortStats :=
  { s with respCount := s.respCount + 1, byteCount := s.byteCount + m.dataLength p }

end SlavePort
end GemSc
