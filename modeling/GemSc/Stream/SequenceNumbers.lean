import GemSc.Stream.StreamProducer

/-! Each stream sends its packets in order, one of each number. -/

namespace GemSc

namespace StreamProducer
variable {streams before rest : List StreamInfo} {log : List StreamPacket} {s t : StreamInfo}

def seqNums (log : List StreamPacket) (streamId : ℕ) : List ℕ :=
  (log.filter (·.streamId = streamId)).map StreamPacket.seqNum

theorem seqNums_append_self {n : ℕ} :
    seqNums (log ++ [⟨s.streamId, n⟩]) s.streamId = seqNums log s.streamId ++ [n] := by
  unfold seqNums
  rw [List.filter_append, List.map_append]
  simp only [List.filter_cons, decide_true, if_true, List.filter_nil, List.map_cons, List.map_nil]

theorem seqNums_append_of_ne {n i : ℕ} (h : t.streamId ≠ i) :
    seqNums (log ++ [⟨i, n⟩]) t.streamId = seqNums log t.streamId := by
  have hnot : ¬ decide (i = t.streamId) = true := by
    rw [decide_eq_true_iff]
    exact h.symm
  unfold seqNums
  rw [List.filter_append, List.map_append]
  simp only [List.filter_cons, if_neg hnot, List.filter_nil, List.map_nil, List.append_nil]

/-- The packets sent are those of the streams: of each the first `sentCount` ones, in order. -/
structure InSequence (streams : List StreamInfo) (log : List StreamPacket) : Prop where
  nodup : (streams.map StreamInfo.streamId).Nodup
  known : ∀ pkt ∈ log, pkt.streamId ∈ streams.map StreamInfo.streamId
  numbers : ∀ s ∈ streams, seqNums log s.streamId = List.range s.sentCount
  few : ∀ s ∈ streams, s.sentCount ≤ s.totalPackets

theorem tickStream_cases (coin taken : Bool) (pool : CreditPool) (s : StreamInfo) :
    (tickStream coin taken pool s).2 = (s, none) ∨
      s.sentCount < s.totalPackets ∧ (tickStream coin taken pool s).2 =
        ({ s with sentCount := s.sentCount + 1 }, some ⟨s.streamId, s.sentCount⟩) := by
  unfold tickStream
  by_cases hdone : s.sentCount ≥ s.totalPackets
  · rw [if_pos hdone]
    exact Or.inl rfl
  rw [if_neg hdone]
  generalize pool.tryGetCredit s.streamId = result
  obtain ⟨granted, pool'⟩ := result
  cases coin with
  | false => exact Or.inl rfl
  | true =>
    cases granted with
    | false => exact Or.inl rfl
    | true =>
      cases taken with
      | false => exact Or.inl rfl
      | true => exact Or.inr ⟨not_le.mp hdone, rfl⟩

theorem InSequence.sends (h : InSequence (before ++ s :: rest) log) (hmore : s.sentCount < s.totalPackets) :
    InSequence (before ++ { s with sentCount := s.sentCount + 1 } :: rest)
      (log ++ [⟨s.streamId, s.sentCount⟩]) := by
  have hids : (before ++ { s with sentCount := s.sentCount + 1 } :: rest).map StreamInfo.streamId =
      (before ++ s :: rest).map StreamInfo.streamId := by
    rw [List.map_append, List.map_append, List.map_cons, List.map_cons]
  have hs : s ∈ before ++ s :: rest := List.mem_append_right _ (List.mem_cons_self ..)
  have hothers : ∀ t ∈ before ++ { s with sentCount := s.sentCount + 1 } :: rest,
      t = { s with sentCount := s.sentCount + 1 } ∨
        t ∈ before ++ s :: rest ∧ t.streamId ≠ s.streamId := by
    have hnodup := h.nodup
    rw [List.map_append, List.map_cons] at hnodup
    have hdisjoint := List.nodup_middle.mp hnodup
    have hnew := (List.nodup_cons.mp hdisjoint).1
    rw [← List.map_append] at hnew
    intro t ht
    rcases List.mem_append.mp ht with ht | ht
    · refine Or.inr ⟨List.mem_append_left _ ht, fun heq => hnew ?_⟩
      rw [← heq]
      exact List.mem_map_of_mem (List.mem_append_left _ ht)
    · rcases List.mem_cons.mp ht with ht | ht
      · exact Or.inl ht
      · refine Or.inr ⟨List.mem_append_right _ (List.mem_cons_of_mem _ ht), fun heq => hnew ?_⟩
        rw [← heq]
        exact List.mem_map_of_mem (List.mem_append_right _ ht)
  refine ⟨by rw [hids]; exact h.nodup, fun pkt hpkt => ?_, fun t ht => ?_, fun t ht => ?_⟩
  · rw [hids]
    rcases List.mem_append.mp hpkt with hpkt | hpkt
    · exact h.known pkt hpkt
    · rw [List.mem_singleton.mp hpkt]
      exact List.mem_map_of_mem hs
  · rcases hothers t ht with rfl | ⟨ht, hne⟩
    · change seqNums _ s.streamId = List.range (s.sentCount + 1)
      rw [seqNums_append_self, h.numbers s hs, List.range_succ]
    · rw [seqNums_append_of_ne hne]
      exact h.numbers t ht
  · rcases hothers t ht with rfl | ⟨ht, _⟩
    · exact hmore
    · exact h.few t ht

theorem InSequence.tickStream (h : InSequence (before ++ s :: rest) log) (coin taken : Bool)
    (pool : CreditPool) :
    InSequence (before ++ (tickStream coin taken pool s).2.1 :: rest)
      (log ++ (StreamProducer.tickStream coin taken pool s).2.2.toList) := by
  rcases tickStream_cases coin taken pool s with hnone | ⟨hmore, hsends⟩
  · rw [hnone]
    simp only [Option.toList_none, List.append_nil]
    exact h
  · rw [hsends]
    exact h.sends hmore

theorem InSequence.tickStreams (h : InSequence (before ++ streams) log) (coin taken : ℕ → Bool) (i : ℕ)
    (pool : CreditPool) :
    InSequence (before ++ (tickStreams coin taken i pool streams).2.1)
      (log ++ (StreamProducer.tickStreams coin taken i pool streams).2.2) := by
  induction streams generalizing i pool before log with
  | nil =>
    unfold StreamProducer.tickStreams
    rw [List.append_nil, List.append_nil] at *
    exact h
  | cons s streams ih =>
    have hfirst := h.tickStream (coin i) (taken i) pool
    rw [List.append_cons] at hfirst
    have hrest := ih hfirst (i + 1) (StreamProducer.tickStream (coin i) (taken i) pool s).1
    unfold StreamProducer.tickStreams
    rw [List.append_cons, ← List.append_assoc]
    exact hrest

theorem InSequence.tick {p : StreamProducer} (h : InSequence p.streams log) (coin taken : ℕ → Bool) :
    InSequence (p.tick coin taken).1.streams (log ++ (p.tick coin taken).2) := by
  have hstart : InSequence ([] ++ p.streams) log := h
  exact hstart.tickStreams coin taken 0 p.creditPool

theorem streams_createStream (p : StreamProducer) (packetCount : ℕ) (reservedCredits : Int32) :
    (p.createStream packetCount reservedCredits).streams =
      if (p.creditPool.reserveCredits p.nextStreamId reservedCredits).1 then
        p.streams ++ [⟨p.nextStreamId, packetCount, 0, reservedCredits⟩]
      else p.streams := by
  cases hreserved : (p.creditPool.reserveCredits p.nextStreamId reservedCredits).1 <;>
    simp only [StreamProducer.createStream, hreserved] <;> rfl

theorem nextStreamId_createStream (p : StreamProducer) (packetCount : ℕ) (reservedCredits : Int32) :
    (p.createStream packetCount reservedCredits).nextStreamId = p.nextStreamId + 1 := by
  cases hreserved : (p.creditPool.reserveCredits p.nextStreamId reservedCredits).1 <;>
    simp only [StreamProducer.createStream, hreserved] <;> rfl

theorem InSequence.createStream {p : StreamProducer} (h : InSequence p.streams log)
    (hnew : p.nextStreamId ∉ p.streams.map StreamInfo.streamId) (packetCount : ℕ)
    (reservedCredits : Int32) : InSequence (p.createStream packetCount reservedCredits).streams log := by
  have hnone : seqNums log p.nextStreamId = [] := by
    unfold seqNums
    rw [List.map_eq_nil_iff, List.filter_eq_nil_iff]
    intro pkt hpkt heq
    rw [decide_eq_true_iff] at heq
    exact hnew (heq ▸ h.known pkt hpkt)
  rw [streams_createStream]
  cases (p.creditPool.reserveCredits p.nextStreamId reservedCredits).1 with
  | false => exact h
  | true =>
    rw [if_pos rfl]
    refine ⟨?_, fun pkt hpkt => ?_, fun s hs => ?_, fun s hs => ?_⟩
    · rw [List.map_append, List.nodup_append]
      refine ⟨h.nodup, List.nodup_singleton _, fun a ha b hb heq => ?_⟩
      have hb' : b = p.nextStreamId := List.mem_singleton.mp hb
      rw [← hb', ← heq] at hnew
      exact hnew ha
    · rw [List.map_append]
      exact List.mem_append_left _ (h.known pkt hpkt)
    · rcases List.mem_append.mp hs with hs | hs
      · exact h.numbers s hs
      · rw [List.mem_singleton.mp hs]
        exact hnone
    · rcases List.mem_append.mp hs with hs | hs
      · exact h.few s hs
      · rw [List.mem_singleton.mp hs]
        exact Nat.zero_le _

end StreamProducer

namespace StreamSystem
open StreamProducer

structure Ordered (s : StreamSystem) : Prop where
  inSequence : InSequence s.producer.streams s.sent
  fresh : ∀ t ∈ s.producer.streams, t.streamId < s.producer.nextStreamId

theorem ordered_new (upstreamPorts : ℕ) : Ordered (new upstreamPorts) where
  inSequence := ⟨List.nodup_nil, fun _ h => absurd h List.not_mem_nil,
    fun _ h => absurd h List.not_mem_nil, fun _ h => absurd h List.not_mem_nil⟩
  fresh := fun _ h => absurd h List.not_mem_nil

theorem Ordered.step {s : StreamSystem} (h : Ordered s) (e : StreamEvent) : Ordered (s.step e) := by
  cases e with
  | createStream packetCount reservedCredits =>
    have hnew : s.producer.nextStreamId ∉ s.producer.streams.map StreamInfo.streamId := by
      intro hmem
      obtain ⟨t, ht, heq⟩ := List.mem_map.mp hmem
      have hfresh := h.fresh t ht
      omega
    refine ⟨h.inSequence.createStream hnew packetCount reservedCredits, fun t ht => ?_⟩
    change t ∈ (s.producer.createStream packetCount reservedCredits).streams at ht
    change t.streamId < (s.producer.createStream packetCount reservedCredits).nextStreamId
    rw [nextStreamId_createStream]
    rw [streams_createStream] at ht
    split_ifs at ht
    · rcases List.mem_append.mp ht with ht | ht
      · exact (h.fresh t ht).trans (Nat.lt_succ_self _)
      · rw [List.mem_singleton.mp ht]
        exact Nat.lt_succ_self _
    · exact (h.fresh t ht).trans (Nat.lt_succ_self _)
  | tick coin taken =>
    refine ⟨h.inSequence.tick coin taken, fun t ht => ?_⟩
    have hmem : t.streamId ∈ s.producer.streams.map StreamInfo.streamId := by
      rw [← map_streamId_tick s.producer coin taken]
      exact List.mem_map_of_mem ht
    obtain ⟨t', ht', heq⟩ := List.mem_map.mp hmem
    rw [← heq]
    exact h.fresh t' ht'
  | request pkt =>
    simp only [StreamSystem.step]
    split_ifs
    · exact ⟨h.inSequence, h.fresh⟩
    · exact h
  | process pkt =>
    simp only [StreamSystem.step]
    split_ifs
    · exact ⟨h.inSequence, h.fresh⟩
    · exact h
  | response pkt =>
    simp only [StreamSystem.step, handleDownstreamResponse]
    split_ifs
    · exact ⟨h.inSequence, h.fresh⟩
    · exact ⟨h.inSequence, h.fresh⟩
    · exact h

theorem Ordered.run {s : StreamSystem} (h : Ordered s) (events : List StreamEvent) :
    Ordered (s.run events) := by
  unfold StreamSystem.run
  induction events generalizing s with
  | nil => exact h
  | cons e events ih => exact ih (h.step e)

/-- However the credits and the ports refuse it, a stream sends each of its packets once and in order,
and never more than it has. -/
theorem run_sendsInOrder (upstreamPorts : ℕ) (events : List StreamEvent) :
    let s := (new upstreamPorts).run events
    (∀ t ∈ s.producer.streams, seqNums s.sent t.streamId = List.range t.sentCount ∧
      t.sentCount ≤ t.totalPackets) ∧
    ∀ pkt ∈ s.sent, ∃ t ∈ s.producer.streams, t.streamId = pkt.streamId ∧ pkt.seqNum < t.sentCount := by
  intro s
  have hordered : Ordered s := (ordered_new upstreamPorts).run events
  refine ⟨fun t ht => ⟨hordered.inSequence.numbers t ht, hordered.inSequence.few t ht⟩, fun pkt hpkt => ?_⟩
  obtain ⟨t, ht, heq⟩ := List.mem_map.mp (hordered.inSequence.known pkt hpkt)
  refine ⟨t, ht, heq, ?_⟩
  have hmem : pkt.seqNum ∈ seqNums s.sent t.streamId :=
    List.mem_map_of_mem (List.mem_filter.mpr ⟨hpkt, decide_eq_true heq.symm⟩)
  rw [hordered.inSequence.numbers t ht] at hmem
  exact List.mem_range.mp hmem

end StreamSystem
end GemSc
