import GemSc.Stream.CreditPool

/-! A producer that sends the packets of its streams as long as there are credits, and a consumer that
gives a credit back for each packet. -/

namespace GemSc

structure StreamPacket where
  streamId : ℕ
  seqNum : ℕ
  deriving DecidableEq

structure StreamResponse where
  isCredit : Bool
  streamId : ℕ
  credits : Int32
  deriving DecidableEq

/-- `StreamProducer::StreamInfo` -/
structure StreamInfo where
  streamId : ℕ
  totalPackets : ℕ
  sentCount : ℕ
  reservedCredits : Int32

structure StreamProducer where
  creditPool : CreditPool
  streams : List StreamInfo
  nextStreamId : ℕ

namespace StreamProducer

def new : StreamProducer := ⟨.new 8, [], 1001⟩

def createStream (p : StreamProducer) (packetCount : ℕ) (reservedCredits : Int32) : StreamProducer :=
  let sid := p.nextStreamId
  let (reserved, pool) := p.creditPool.reserveCredits sid reservedCredits
  if reserved then
    { creditPool := pool
      streams := p.streams ++ [⟨sid, packetCount, 0, reservedCredits⟩]
      nextStreamId := sid + 1 }
  else { p with nextStreamId := sid + 1 }

/-- Whether the producer took the response, and the producer after it. -/
def handleDownstreamResponse (p : StreamProducer) (pkt : StreamResponse) : Bool × StreamProducer :=
  if pkt.isCredit then
    (true, { p with
      creditPool := (fun pool : CreditPool => pool.returnCredit pkt.streamId)^[pkt.credits.toInt.toNat]
        p.creditPool })
  else (false, p)

/-- The body of the loop of `tick`, and the packet that it sent. `coin` is `rand() % 5 == 0`, and
`taken` the answer of the port. -/
def tickStream (coin taken : Bool) (pool : CreditPool) (s : StreamInfo) :
    CreditPool × StreamInfo × Option StreamPacket :=
  if s.sentCount ≥ s.totalPackets then (pool, s, none)
  else if coin then
    let (granted, pool) := pool.tryGetCredit s.streamId
    if granted then
      if taken then (pool, { s with sentCount := s.sentCount + 1 }, some ⟨s.streamId, s.sentCount⟩)
      else (pool.returnCredit s.streamId, s, none)
    else (pool, s, none)
  else (pool, s, none)

def tickStreams (coin taken : ℕ → Bool) (i : ℕ) (pool : CreditPool) :
    List StreamInfo → CreditPool × List StreamInfo × List StreamPacket
  | [] => (pool, [], [])
  | s :: rest =>
    let (pool, s, sent) := tickStream (coin i) (taken i) pool s
    let (pool, rest, more) := tickStreams coin taken (i + 1) pool rest
    (pool, s :: rest, sent.toList ++ more)

def tick (coin taken : ℕ → Bool) (p : StreamProducer) : StreamProducer × List StreamPacket :=
  let (pool, streams, sent) := tickStreams coin taken 0 p.creditPool p.streams
  ({ p with creditPool := pool, streams := streams }, sent)

theorem streamId_tickStream (coin taken : Bool) (pool : CreditPool) (s : StreamInfo) :
    (tickStream coin taken pool s).2.1.streamId = s.streamId := by
  unfold tickStream
  generalize pool.tryGetCredit s.streamId = result
  obtain ⟨granted, pool'⟩ := result
  cases granted <;> split_ifs <;> rfl

theorem map_streamId_tickStreams (coin taken : ℕ → Bool) (i : ℕ) (pool : CreditPool)
    (streams : List StreamInfo) :
    (tickStreams coin taken i pool streams).2.1.map StreamInfo.streamId =
      streams.map StreamInfo.streamId := by
  induction streams generalizing i pool with
  | nil => rfl
  | cons s streams ih =>
    unfold tickStreams
    simp only [List.map_cons, streamId_tickStream, ih]

theorem map_streamId_tick (p : StreamProducer) (coin taken : ℕ → Bool) :
    (p.tick coin taken).1.streams.map StreamInfo.streamId =
      p.streams.map StreamInfo.streamId := map_streamId_tickStreams coin taken 0 p.creditPool p.streams

end StreamProducer

structure StreamConsumer where
  upstreamPorts : ℕ
  scheduled : List StreamPacket

namespace StreamConsumer

def handleUpstreamRequest (c : StreamConsumer) (pkt : StreamPacket) : Bool × StreamConsumer :=
  if c.upstreamPorts > 4 then (false, c)
  else (true, { c with scheduled := c.scheduled ++ [pkt] })

def creditPacket (pkt : StreamPacket) : StreamResponse := ⟨true, pkt.streamId, 1⟩

end StreamConsumer

/-- The two of them, the packets and the credits on their way between them, and all packets sent so
far. -/
structure StreamSystem where
  producer : StreamProducer
  link : List StreamPacket
  consumer : StreamConsumer
  credits : List StreamResponse
  sent : List StreamPacket

inductive StreamEvent
  | createStream (packetCount : ℕ) (reservedCredits : Int32)
  | tick (coin taken : ℕ → Bool)
  | request (pkt : StreamPacket)
  | process (pkt : StreamPacket)
  | response (pkt : StreamResponse)

namespace StreamSystem

def new (upstreamPorts : ℕ) : StreamSystem := ⟨.new, [], ⟨upstreamPorts, []⟩, [], []⟩

/-- Packets and credits arrive in any order. -/
def step (s : StreamSystem) : StreamEvent → StreamSystem
  | .createStream packetCount reservedCredits =>
    { s with producer := s.producer.createStream packetCount reservedCredits }
  | .tick coin taken =>
    let (producer, sent) := s.producer.tick coin taken
    { s with producer := producer, link := s.link ++ sent, sent := s.sent ++ sent }
  | .request pkt =>
    if pkt ∈ s.link then
      -- a packet that is not taken is deleted
      { s with
        link := s.link.erase pkt
        consumer := (s.consumer.handleUpstreamRequest pkt).2 }
    else s
  | .process pkt =>
    if pkt ∈ s.consumer.scheduled then
      { s with
        consumer := { s.consumer with scheduled := s.consumer.scheduled.erase pkt }
        credits := s.credits ++ [StreamConsumer.creditPacket pkt] }
    else s
  | .response pkt =>
    if pkt ∈ s.credits then
      { s with
        credits := s.credits.erase pkt
        producer := (s.producer.handleDownstreamResponse pkt).2 }
    else s

def run (s : StreamSystem) (events : List StreamEvent) : StreamSystem := events.foldl step s

end StreamSystem
end GemSc
