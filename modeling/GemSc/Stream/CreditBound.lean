import GemSc.Stream.StreamProducer

/-! There are never more packets and credits under way than the producer has credits. -/

namespace GemSc
open CreditPool

namespace StreamProducer
variable {limit : ℤ} {ids : Finset ℕ} {pool : CreditPool} {s : StreamInfo} {base tries : ℕ → ℤ}

/-- The credits of a pool cover what is in use of it: `base` of each stream and the packets that were
sent since. -/
structure Covers (limit : ℤ) (ids : Finset ℕ) (base tries : ℕ → ℤ) (pool : CreditPool)
    (sent : List StreamPacket) : Prop where
  covered : Covered limit ids pool
  waits : Waits ids tries pool.waitQueue
  held : ∀ j, base j + (sent.map StreamPacket.streamId).count j ≤ (pool.used j).toInt

theorem Covers.send (h : Covers limit ids base tries pool []) (hs : s.streamId ∈ ids)
    (hnonneg : 0 ≤ tries s.streamId) (hfew : tries s.streamId + 1 < 2 ^ 31)
    (hgranted : (pool.tryGetCredit s.streamId).1 = true) :
    Covers limit ids base (tried tries s.streamId) (pool.tryGetCredit s.streamId).2
      [⟨s.streamId, s.sentCount⟩] := by
  obtain ⟨hcovered, hwaits, hused⟩ := h.covered.tryGetCredit h.waits hs hnonneg hfew
  refine ⟨hcovered, hwaits, fun j => ?_⟩
  have husedj := hused j
  have hbase : base j ≤ (pool.used j).toInt := by simpa using h.held j
  rw [hgranted] at husedj
  simp only [and_true] at husedj
  change base j + ([s.streamId].count j : ℕ) ≤ _
  rw [List.count_singleton, husedj]
  by_cases hj : j = s.streamId
  · subst hj
    simpa using hbase
  · have hne : ¬ (s.streamId == j) = true := fun heq => hj (eq_of_beq heq).symm
    rw [if_neg hj, if_neg hne]
    simpa using hbase

theorem Covers.giveBack (h : Covers limit ids base tries pool []) (hs : s.streamId ∈ ids)
    (hnonneg : 0 ≤ tries s.streamId) (hfew : tries s.streamId + 1 < 2 ^ 31)
    (hgranted : (pool.tryGetCredit s.streamId).1 = true) :
    Covers limit ids base (tried tries s.streamId)
      ((pool.tryGetCredit s.streamId).2.returnCredit s.streamId) [] := by
  obtain ⟨hcovered, hwaits, hused⟩ := h.covered.tryGetCredit h.waits hs hnonneg hfew
  obtain ⟨hcovered', hwaits', hused'⟩ := hcovered.returnCredit hwaits s.streamId
  refine ⟨hcovered', hwaits', fun j => ?_⟩
  have hgiven := hused' j
  have husedj := hused j
  have hbase : base j ≤ (pool.used j).toInt := by simpa using h.held j
  rw [hgranted] at husedj
  simp only [and_true] at husedj
  change base j + (([] : List ℕ).count j : ℕ) ≤ _
  rw [List.count_nil]
  split_ifs at hgiven husedj <;> omega

theorem Covers.refused (h : Covers limit ids base tries pool []) (hs : s.streamId ∈ ids)
    (hnonneg : 0 ≤ tries s.streamId) (hfew : tries s.streamId + 1 < 2 ^ 31)
    (hgranted : (pool.tryGetCredit s.streamId).1 = false) :
    Covers limit ids base (tried tries s.streamId) (pool.tryGetCredit s.streamId).2 [] := by
  obtain ⟨hcovered, hwaits, hused⟩ := h.covered.tryGetCredit h.waits hs hnonneg hfew
  refine ⟨hcovered, hwaits, fun j => ?_⟩
  have husedj := hused j
  rw [hgranted] at husedj
  simp only [Bool.false_eq_true, and_false, if_false, add_zero] at husedj
  rw [husedj]
  exact h.held j

theorem Covers.mono {tries' : ℕ → ℤ} {sent : List StreamPacket}
    (h : Covers limit ids base tries pool sent) (hle : ∀ j, tries j ≤ tries' j) :
    Covers limit ids base tries' pool sent := ⟨h.covered, h.waits.mono hle, h.held⟩

theorem Covers.tickStream (h : Covers limit ids base tries pool []) (hs : s.streamId ∈ ids)
    (hnonneg : 0 ≤ tries s.streamId) (hfew : tries s.streamId + 1 < 2 ^ 31) (coin taken : Bool) :
    Covers limit ids base (tried tries s.streamId) (tickStream coin taken pool s).1
      (tickStream coin taken pool s).2.2.toList := by
  have hidle : Covers limit ids base (tried tries s.streamId) pool [] := h.mono (le_tried tries _)
  unfold StreamProducer.tickStream
  by_cases hdone : s.sentCount ≥ s.totalPackets
  · rw [if_pos hdone]
    exact hidle
  rw [if_neg hdone]
  cases coin with
  | false => exact hidle
  | true =>
    simp only [if_true]
    cases hgranted : (pool.tryGetCredit s.streamId).1 with
    | false => exact h.refused hs hnonneg hfew hgranted
    | true =>
      cases taken with
      | true => exact h.send hs hnonneg hfew hgranted
      | false => exact h.giveBack hs hnonneg hfew hgranted

theorem tried_add_count (tries : ℕ → ℤ) (i j : ℕ) (ids : List ℕ) :
    tried tries i j + ids.count j = tries j + (i :: ids).count j := by
  rw [List.count_cons]
  unfold tried
  by_cases hj : j = i
  · have hbeq : (i == j) = true := beq_iff_eq.mpr hj.symm
    rw [if_pos hj, if_pos hbeq]
    push_cast
    ring
  · have hbeq : ¬ (i == j) = true := fun heq => hj (eq_of_beq heq).symm
    rw [if_neg hj, if_neg hbeq]
    push_cast
    ring

theorem Covers.tickStreams {streams : List StreamInfo} (h : Covers limit ids base tries pool [])
    (hs : ∀ s ∈ streams, s.streamId ∈ ids) (hnonneg : ∀ j, 0 ≤ tries j)
    (hfew : ∀ j, tries j + (streams.map StreamInfo.streamId).count j < 2 ^ 31)
    (coin taken : ℕ → Bool) (i : ℕ) :
    Covers limit ids base (fun j => tries j + (streams.map StreamInfo.streamId).count j)
      (tickStreams coin taken i pool streams).1 (tickStreams coin taken i pool streams).2.2 := by
  induction streams generalizing i pool base tries with
  | nil => exact h.mono fun j => by simp
  | cons s streams ih =>
    have hsum : ∀ j, tried tries s.streamId j + (streams.map StreamInfo.streamId).count j =
        tries j + ((s :: streams).map StreamInfo.streamId).count j := fun j =>
      tried_add_count tries s.streamId j _
    have hroom : tries s.streamId + 1 < 2 ^ 31 := by
      have hfews := hfew s.streamId
      rw [List.map_cons, List.count_cons_self] at hfews
      omega
    have hfirst := h.tickStream (hs s (List.mem_cons_self ..)) (hnonneg s.streamId) hroom (coin i)
      (taken i)
    unfold StreamProducer.tickStreams
    set r := StreamProducer.tickStream (coin i) (taken i) pool s with hr
    set base' : ℕ → ℤ := fun j =>
      base j + (r.2.2.toList.map StreamPacket.streamId).count j with hbase'
    have hstart : Covers limit ids base' (tried tries s.streamId) r.1 [] := by
      refine ⟨hfirst.covered, hfirst.waits, fun j => ?_⟩
      have hheld := hfirst.held j
      simpa [hbase'] using hheld
    have hrest := ih hstart (fun s' hs' => hs s' (List.mem_cons_of_mem _ hs'))
      (fun j => (hnonneg j).trans (le_tried tries _ j)) (fun j => by rw [hsum]; exact hfew j) (i + 1)
    simp only [hsum] at hrest
    refine ⟨hrest.covered, hrest.waits, fun j => ?_⟩
    rw [List.map_append, List.count_append, Nat.cast_add, ← add_assoc]
    exact hrest.held j

/-- Each packet or credit under way stands for a credit in use of its stream, besides the `lost` ones,
and the pool covers these. -/
structure Funded (lost : ℕ → ℤ) (ticks : ℕ) (ids : Finset ℕ) (p : StreamProducer)
    (underWay : List ℕ) : Prop where
  covered : Covered 8 ids p.creditPool
  waits : Waits ids (fun _ => ticks) p.creditPool.waitQueue
  nodup : (p.streams.map StreamInfo.streamId).Nodup
  known : ∀ s ∈ p.streams, s.streamId ∈ ids
  fresh : ∀ i ∈ ids, i < p.nextStreamId
  held : ∀ i, lost i + underWay.count i ≤ (p.creditPool.used i).toInt

variable {lost : ℕ → ℤ} {ticks : ℕ} {p : StreamProducer} {underWay : List ℕ}

theorem Funded.perm {underWay' : List ℕ} (h : Funded lost ticks ids p underWay)
    (hperm : underWay.Perm underWay') : Funded lost ticks ids p underWay' :=
  ⟨h.covered, h.waits, h.nodup, h.known, h.fresh, fun i => by
    rw [← hperm.count_eq]
    exact h.held i⟩

theorem Funded.drop {i : ℕ} (h : Funded lost ticks ids p (i :: underWay)) : Funded lost ticks ids p underWay :=
  ⟨h.covered, h.waits, h.nodup, h.known, h.fresh, fun j => by
    have hheld := h.held j
    have hle : underWay.count j ≤ (i :: underWay).count j := List.count_le_count_cons
    omega⟩

theorem Funded.createStream (h : Funded lost ticks ids p underWay) (packetCount : ℕ)
    {reservedCredits : Int32} (hreserved : 0 ≤ reservedCredits) :
    ∃ ids', Funded lost ticks ids' (p.createStream packetCount reservedCredits) underWay := by
  have hnew : p.nextStreamId ∉ ids := fun hmem => lt_irrefl _ (h.fresh _ hmem)
  have hfresh : ∀ i ∈ ids, i < p.nextStreamId + 1 := fun i hi =>
    (h.fresh i hi).trans (Nat.lt_succ_self _)
  cases hresult : (p.creditPool.reserveCredits p.nextStreamId reservedCredits).1 with
  | false =>
    simp only [StreamProducer.createStream, hresult, Bool.false_eq_true, if_false]
    exact ⟨ids, h.covered, h.waits, h.nodup, h.known, hfresh, h.held⟩
  | true =>
    obtain ⟨hcovered, hused, hqueue⟩ :=
      h.covered.reserveCredits hnew (Int32.le_iff_toInt_le.mp hreserved) hresult
    simp only [StreamProducer.createStream, hresult, if_true]
    refine ⟨insert p.nextStreamId ids, hcovered, ?_, ?_, fun s hs => ?_, fun i hi => ?_, fun i => ?_⟩
    · rw [hqueue]
      exact fun e he => ⟨Finset.mem_insert_of_mem (h.waits e he).1, (h.waits e he).2⟩
    · rw [List.map_append, List.nodup_append]
      refine ⟨h.nodup, List.nodup_singleton _, fun i hi j hj heq => hnew ?_⟩
      obtain ⟨s, hs, rfl⟩ := List.mem_map.mp hi
      rw [List.map_singleton, List.mem_singleton] at hj
      have hknown := h.known s hs
      rw [heq, hj] at hknown
      exact hknown
    · rcases List.mem_append.mp hs with hs | hs
      · exact Finset.mem_insert_of_mem (h.known s hs)
      · rw [List.mem_singleton.mp hs]
        exact Finset.mem_insert_self ..
    · rcases Finset.mem_insert.mp hi with rfl | hi
      · exact Nat.lt_succ_self _
      · exact hfresh i hi
    · rw [hused]
      exact h.held i

theorem Funded.tick (h : Funded lost ticks ids p underWay) (hfew : ticks + 1 < 2 ^ 31)
    (coin taken : ℕ → Bool) :
    Funded lost (ticks + 1) ids (p.tick coin taken).1
      (underWay ++ (p.tick coin taken).2.map StreamPacket.streamId) := by
  have hstart : Covers 8 ids (fun j => lost j + underWay.count j) (fun _ => ticks) p.creditPool [] :=
    ⟨h.covered, h.waits, fun j => by simpa using h.held j⟩
  -- each stream is there once, so it tries once
  have honce : ∀ j, (p.streams.map StreamInfo.streamId).count j ≤ 1 := fun j =>
    List.nodup_iff_count_le_one.mp h.nodup j
  have hcovers := hstart.tickStreams h.known (fun _ => by omega)
    (fun j => by have := honce j; omega) coin taken 0
  have hwaits := hcovers.waits.mono (fun j => by
    have := honce j
    show (ticks : ℤ) + _ ≤ ((ticks + 1 : ℕ) : ℤ)
    push_cast
    omega)
  refine ⟨hcovers.covered, hwaits, ?_, fun s hs => ?_, h.fresh, fun i => ?_⟩
  · rw [map_streamId_tick]
    exact h.nodup
  · have hmem : s.streamId ∈ p.streams.map StreamInfo.streamId := by
      rw [← map_streamId_tick p coin taken]
      exact List.mem_map_of_mem hs
    obtain ⟨s', hs', heq⟩ := List.mem_map.mp hmem
    rw [← heq]
    exact h.known s' hs'
  · rw [List.count_append, Nat.cast_add, ← add_assoc]
    exact hcovers.held i

theorem Funded.response {i : ℕ} (h : Funded lost ticks ids p (i :: underWay)) :
    Funded lost ticks ids (p.handleDownstreamResponse ⟨true, i, 1⟩).2 underWay := by
  obtain ⟨hcovered, hwaits, hused⟩ := h.covered.returnCredit h.waits i
  have hreturned : (p.handleDownstreamResponse ⟨true, i, 1⟩).2 =
      { p with creditPool := p.creditPool.returnCredit i } := by
    simp only [StreamProducer.handleDownstreamResponse, if_true, toInt_one, Int.toNat_one,
      Function.iterate_one]
  rw [hreturned]
  refine ⟨hcovered, hwaits, h.nodup, h.known, h.fresh, fun j => ?_⟩
  have hheld := h.held j
  have hgiven := hused j
  change _ ≤ ((p.creditPool.returnCredit i).used j).toInt
  rw [List.count_cons] at hheld
  by_cases hj : j = i
  · subst hj
    rw [if_pos rfl] at hgiven
    rw [if_pos (beq_self_eq_true j)] at hheld
    omega
  · have hne : ¬ (i == j) = true := fun heq => hj (eq_of_beq heq).symm
    rw [if_neg hj] at hgiven
    rw [if_neg hne] at hheld
    omega

theorem Funded.length_le (h : Funded lost ticks ids p underWay) (hlost : ∀ i, 0 ≤ lost i) (T : Finset ℕ) :
    ∑ i ∈ T, lost i + underWay.length ≤ 8 := by
  have hnone : ∀ i, i ∉ ids → (p.creditPool.used i).toInt = 0 := fun i hi => by
    unfold CreditPool.used
    rw [(h.covered.outside i hi).2]
    rfl
  have hmem : ∀ i ∈ (underWay : Multiset ℕ), i ∈ ids := by
    intro i hi
    by_contra hout
    have hheld := h.held i
    have hcount : 0 < underWay.count i := List.count_pos_iff.mpr hi
    have hpositive := hlost i
    rw [hnone i hout] at hheld
    omega
  have hlength : ∑ i ∈ ids, underWay.count i = underWay.length := by
    have hcard := Multiset.sum_count_eq_card hmem
    simpa only [Multiset.coe_count, Multiset.coe_card] using hcard
  have honly : ∀ i ∈ T, lost i ≠ 0 → i ∈ ids := by
    intro i _ hne
    by_contra hout
    have hheld := h.held i
    have hpositive := hlost i
    rw [hnone i hout] at hheld
    omega
  have hfew : ∑ i ∈ T, lost i ≤ ∑ i ∈ ids, lost i := by
    rw [← Finset.sum_filter_of_ne honly]
    exact Finset.sum_le_sum_of_subset_of_nonneg
      (fun i hi => (Finset.mem_filter.mp hi).2) fun i _ _ => hlost i
  have hshares : ∑ i ∈ ids, (lost i + underWay.count i) ≤ ∑ i ∈ ids, p.creditPool.share i :=
    Finset.sum_le_sum fun i _ => (h.held i).trans (le_max_right _ _)
  have htotal := h.covered.total
  have havailable := h.covered.available
  rw [Finset.sum_add_distrib, ← Nat.cast_sum, hlength] at hshares
  omega

end StreamProducer

namespace StreamSystem
open StreamProducer
variable {s : StreamSystem}

def underWay (s : StreamSystem) : List ℕ :=
  s.link.map StreamPacket.streamId ++ (s.consumer.scheduled.map StreamPacket.streamId ++
    s.credits.map StreamResponse.streamId)

/-- A stream does not reserve less than nothing. -/
def Proper : StreamEvent → Prop
  | .createStream _ reservedCredits => 0 ≤ reservedCredits
  | .tick _ _ => True
  | .request _ => True
  | .process _ => True
  | .response _ => True

def ticks (events : List StreamEvent) : ℕ :=
  events.countP fun
    | .tick _ _ => true
    | _ => false

structure Bounded (lost : ℕ → ℤ) (ticks : ℕ) (s : StreamSystem) : Prop where
  funded : ∃ ids, Funded lost ticks ids s.producer s.underWay
  single : ∀ c ∈ s.credits, c = ⟨true, c.streamId, 1⟩

variable {lost : ℕ → ℤ} {n : ℕ}

theorem covered_new : Covered 8 ∅ (CreditPool.new 8) := by
  have hnew : Covered (8 : Int32).toInt ∅ (CreditPool.new 8) := Covered.new (by decide)
  exact hnew

theorem bounded_new (upstreamPorts : ℕ) : Bounded 0 0 (new upstreamPorts) where
  funded := ⟨∅, covered_new, fun _ he => absurd he List.not_mem_nil, List.nodup_nil,
    fun _ hs => absurd hs List.not_mem_nil, fun _ hi => absurd hi (Finset.notMem_empty _),
    fun _ => le_rfl⟩
  single := fun _ hc => absurd hc List.not_mem_nil

theorem map_perm_erase {α : Type*} [DecidableEq α] (f : α → ℕ) {l : List α} {a : α} (ha : a ∈ l) :
    (l.map f).Perm (f a :: (l.erase a).map f) := (List.perm_cons_erase ha).map f

theorem Bounded.request (h : Bounded lost n s) {pkt : StreamPacket} (hpkt : pkt ∈ s.link) :
    Bounded lost n (s.step (.request pkt)) := by
  obtain ⟨ids, hfunded⟩ := h.funded
  have hperm : s.underWay.Perm (pkt.streamId :: ((s.link.erase pkt).map StreamPacket.streamId ++
      (s.consumer.scheduled.map StreamPacket.streamId ++
        s.credits.map StreamResponse.streamId))) :=
    (map_perm_erase _ hpkt).append_right _
  simp only [StreamSystem.step, if_pos hpkt]
  refine ⟨⟨ids, ?_⟩, h.single⟩
  unfold StreamConsumer.handleUpstreamRequest underWay
  by_cases hfull : s.consumer.upstreamPorts > 4
  · simp only [if_pos hfull]
    exact (hfunded.perm hperm).drop
  · simp only [if_neg hfull]
    refine (hfunded.perm hperm).perm ?_
    rw [List.map_append, List.append_assoc]
    refine List.perm_middle.symm.trans (List.Perm.append_left _ ?_)
    exact List.perm_middle.symm

theorem Bounded.process (h : Bounded lost n s) {pkt : StreamPacket}
    (hpkt : pkt ∈ s.consumer.scheduled) : Bounded lost n (s.step (.process pkt)) := by
  obtain ⟨ids, hfunded⟩ := h.funded
  simp only [StreamSystem.step, if_pos hpkt]
  refine ⟨⟨ids, hfunded.perm ?_⟩, fun c hc => ?_⟩
  · unfold underWay
    apply List.Perm.append_left
    rw [List.map_append]
    refine ((map_perm_erase _ hpkt).append_right _).trans ?_
    rw [← List.append_assoc]
    exact (List.perm_append_singleton ..).symm
  · rcases List.mem_append.mp hc with hc | hc
    · exact h.single c hc
    · rw [List.mem_singleton.mp hc]
      rfl

theorem Bounded.response (h : Bounded lost n s) {pkt : StreamResponse} (hpkt : pkt ∈ s.credits) :
    Bounded lost n (s.step (.response pkt)) := by
  obtain ⟨ids, hfunded⟩ := h.funded
  simp only [StreamSystem.step, if_pos hpkt]
  refine ⟨⟨ids, ?_⟩, fun c hc => h.single c (List.mem_of_mem_erase hc)⟩
  have hperm : s.underWay.Perm (pkt.streamId :: (s.link.map StreamPacket.streamId ++
      (s.consumer.scheduled.map StreamPacket.streamId ++
        (s.credits.erase pkt).map StreamResponse.streamId))) := by
    unfold underWay
    refine List.Perm.trans ?_ List.perm_middle
    apply List.Perm.append_left
    refine List.Perm.trans ?_ List.perm_middle
    exact List.Perm.append_left _ (map_perm_erase _ hpkt)
  have hgiven := (hfunded.perm hperm).response
  rw [← h.single pkt hpkt] at hgiven
  exact hgiven

theorem Bounded.step (h : Bounded lost n s) {e : StreamEvent} (he : Proper e)
    (hfew : n + ticks [e] < 2 ^ 31) : Bounded lost (n + ticks [e]) (s.step e) := by
  cases e with
  | createStream packetCount reservedCredits =>
    obtain ⟨ids, hfunded⟩ := h.funded
    exact ⟨hfunded.createStream packetCount he, h.single⟩
  | tick coin taken =>
    obtain ⟨ids, hfunded⟩ := h.funded
    refine ⟨⟨ids, (hfunded.tick hfew coin taken).perm ?_⟩, h.single⟩
    simp only [underWay, StreamSystem.step, List.map_append, List.append_assoc]
    apply List.Perm.append_left
    rw [← List.append_assoc]
    exact List.perm_append_comm
  | request pkt =>
    by_cases hpkt : pkt ∈ s.link
    · exact h.request hpkt
    · simp only [StreamSystem.step, if_neg hpkt]
      exact h
  | process pkt =>
    by_cases hpkt : pkt ∈ s.consumer.scheduled
    · exact h.process hpkt
    · simp only [StreamSystem.step, if_neg hpkt]
      exact h
  | response pkt =>
    by_cases hpkt : pkt ∈ s.credits
    · exact h.response hpkt
    · simp only [StreamSystem.step, if_neg hpkt]
      exact h

theorem Bounded.run (h : Bounded lost n s) {events : List StreamEvent}
    (hevents : ∀ e ∈ events, Proper e) (hfew : n + ticks events < 2 ^ 31) :
    Bounded lost (n + ticks events) (s.run events) := by
  unfold StreamSystem.run
  induction events generalizing s n with
  | nil => exact h
  | cons e events ih =>
    have hsplit : n + ticks (e :: events) = n + ticks [e] + ticks events := by
      have happend : ticks (e :: events) = ticks [e] + ticks events := by
        unfold ticks
        rw [← List.countP_append, List.singleton_append]
      rw [happend, Nat.add_assoc]
    rw [hsplit] at hfew ⊢
    exact ih (h.step (hevents e (List.mem_cons_self ..)) (by omega))
      (fun e' he' => hevents e' (List.mem_cons_of_mem _ he')) hfew

/-- The credits of a stream that are in use, though nothing of the stream is under way for them. -/
def lostCredits (s : StreamSystem) (streamId : ℕ) : ℤ :=
  (s.producer.creditPool.used streamId).toInt - s.underWay.count streamId

theorem Bounded.lostCredits (h : Bounded lost n s) : Bounded s.lostCredits n s := by
  obtain ⟨ids, hfunded⟩ := h.funded
  refine ⟨⟨ids, hfunded.covered, hfunded.waits, hfunded.nodup, hfunded.known, hfunded.fresh,
    fun i => ?_⟩, h.single⟩
  unfold StreamSystem.lostCredits
  omega

theorem Bounded.lost_le (h : Bounded lost n s) (i : ℕ) : lost i ≤ s.lostCredits i := by
  obtain ⟨ids, hfunded⟩ := h.funded
  have hheld := hfunded.held i
  unfold StreamSystem.lostCredits
  omega

/-- A credit that is lost never comes back: with the ones lost up to some moment of a run, no more
packets and credits are ever under way than the credits that are left. In 2^31 ticks the count of a
waiting stream could wrap. -/
theorem run_losesCreditsForGood (upstreamPorts : ℕ) {events more : List StreamEvent}
    (hevents : ∀ e ∈ events, Proper e) (hmore : ∀ e ∈ more, Proper e)
    (hfew : ticks events + ticks more < 2 ^ 31) (T : Finset ℕ) :
    let s := (new upstreamPorts).run events
    let s' := s.run more
    (∀ i, 0 ≤ s.lostCredits i ∧ s.lostCredits i ≤ s'.lostCredits i) ∧
      ∑ i ∈ T, s.lostCredits i +
        ((s'.link.length + s'.consumer.scheduled.length + s'.credits.length : ℕ) : ℤ) ≤ 8 := by
  intro s s'
  have hstart : Bounded 0 (0 + ticks events) s := (bounded_new upstreamPorts).run hevents (by omega)
  have hlost : ∀ i, 0 ≤ s.lostCredits i := hstart.lost_le
  have hlater : Bounded s.lostCredits (0 + ticks events + ticks more) s' :=
    hstart.lostCredits.run hmore (by omega)
  refine ⟨fun i => ⟨hlost i, hlater.lost_le i⟩, ?_⟩
  obtain ⟨ids, hfunded⟩ := hlater.funded
  have hle := hfunded.length_le hlost T
  have hlength : s'.underWay.length =
      s'.link.length + s'.consumer.scheduled.length + s'.credits.length := by
    unfold underWay
    simp only [List.length_append, List.length_map, Nat.add_assoc]
  rw [← hlength]
  exact hle

/-- A stream sends eight packets and is refused a ninth. The credit of the first goes to the stream
as it waits, which never learns of it. -/
def refusedRun : List StreamEvent :=
  .createStream 20 2 :: (List.replicate 9 (.tick (fun _ => true) fun _ => true) ++
    [.request ⟨1001, 0⟩, .process ⟨1001, 0⟩, .response ⟨true, 1001, 1⟩])

theorem run_losesCreditsForGood_refusedRun :
    let s := (new 1).run refusedRun
    let s' := s.run [.tick (fun _ => true) fun _ => true]
    s.lostCredits 1001 = 1 ∧ s'.link.length = 7 ∧
      (∀ i, 0 ≤ s.lostCredits i ∧ s.lostCredits i ≤ s'.lostCredits i) ∧
      ∑ i ∈ {1001}, s.lostCredits i +
        ((s'.link.length + s'.consumer.scheduled.length + s'.credits.length : ℕ) : ℤ) ≤ 8 := by
  intro s s'
  have hlater : ∀ e ∈ ([.tick (fun _ => true) fun _ => true] : List StreamEvent), Proper e := by
    intro e he
    rw [List.mem_singleton.mp he]
    trivial
  refine ⟨by decide +kernel, by decide +kernel, run_losesCreditsForGood 1 ?_ hlater (by decide) {1001}⟩
  intro e he
  rcases List.mem_cons.mp he with rfl | he
  · change (0 : Int32) ≤ 2
    decide
  · rcases List.mem_append.mp he with he | he
    · rw [List.eq_of_mem_replicate he]
      trivial
    · simp only [List.mem_cons, List.not_mem_nil, or_false] at he
      rcases he with rfl | rfl | rfl <;> trivial

end StreamSystem
end GemSc
