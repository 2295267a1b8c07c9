import GemSc.Stream.CreditBound

/-! The credits of a woken stream are lost: a producer with one stream can lose all eight of them. -/

namespace GemSc
open Function CreditPool StreamProducer

def lonePool (reserved used available : Int32) (waiting : List WaitEntry) : CreditPool :=
  ⟨8, available, update (fun _ => none) 1001 (some reserved), update (fun _ => none) 1001 (some used),
    waiting⟩

namespace CreditPool
variable {reserved used available n : Int32} {waiting : List WaitEntry}

theorem setUsed_lonePool : (lonePool reserved used available waiting).setUsed 1001 n =
    lonePool reserved n available waiting := by
  unfold setUsed lonePool
  simp only [update_idem]

theorem tryPublic_lonePool (h : 0 < available) :
    (lonePool reserved used available waiting).tryPublic 1001 =
      (true, lonePool reserved (used + 1) (available - 1) waiting) := by
  have hroom : (lonePool reserved used available waiting).availableCredits > 0 := h
  have hused : (lonePool reserved used available waiting).used 1001 = used := rfl
  unfold tryPublic
  rw [if_pos hroom, hused, setUsed_lonePool]
  rfl

theorem tryGetCredit_lonePool_reserved (h : used < reserved) :
    (lonePool reserved used available waiting).tryGetCredit 1001 =
      (true, lonePool reserved (used + 1) available waiting) := by
  have hget : (lonePool reserved used available waiting).tryGetCredit 1001 =
      if used < reserved then
        (true, (lonePool reserved used available waiting).setUsed 1001 (used + 1))
      else (lonePool reserved used available waiting).tryPublic 1001 := rfl
  rw [hget, if_pos h, setUsed_lonePool]

theorem tryGetCredit_lonePool_public (h : ¬ used < reserved) :
    (lonePool reserved used available waiting).tryGetCredit 1001 =
      (lonePool reserved used available waiting).tryPublic 1001 := by
  have hget : (lonePool reserved used available waiting).tryGetCredit 1001 =
      if used < reserved then
        (true, (lonePool reserved used available waiting).setUsed 1001 (used + 1))
      else (lonePool reserved used available waiting).tryPublic 1001 := rfl
  rw [hget, if_neg h]

/-- The credit that comes back is at once in use again, by the same stream that waits for it. -/
theorem returnCredit_lonePool (h : ¬ 7 < reserved) :
    (lonePool reserved 8 0 [⟨1001, 1⟩]).returnCredit 1001 = lonePool reserved 8 0 [] := by
  have hreturn : (lonePool reserved 8 0 [⟨1001, 1⟩]).returnCredit 1001 =
      if decide ((7 : Int32) < reserved) = true then
        (lonePool reserved 8 0 [⟨1001, 1⟩]).setUsed 1001 7
      else ({ (lonePool reserved 8 0 [⟨1001, 1⟩]).setUsed 1001 7 with
        availableCredits := 1 } : CreditPool).wakeWaiters := rfl
  rw [hreturn, if_neg (by rw [decide_eq_true_iff]; exact h), setUsed_lonePool]
  have hroom : (lonePool reserved 7 1 [⟨1001, 1⟩]).availableCredits ≥ (⟨1001, 1⟩ : WaitEntry).count := by
    change (1 : Int32) ≥ 1
    decide
  have hwake : wake (lonePool reserved 7 1 [⟨1001, 1⟩], []) ⟨1001, 1⟩ =
      (lonePool reserved 8 0 [⟨1001, 1⟩], []) := by
    have hnext : (lonePool reserved 7 1 [⟨1001, 1⟩]).used 1001 + 1 = 8 := by
      change (7 : Int32) + 1 = 8
      decide
    have hleft : (lonePool reserved 7 1 [⟨1001, 1⟩]).availableCredits - 1 = 0 := by
      change (1 : Int32) - 1 = 0
      decide
    simp only [wake, if_pos hroom]
    rw [hnext, hleft, setUsed_lonePool]
    rfl
  have hwaken : (lonePool reserved 7 1 [⟨1001, 1⟩]).wakeWaiters =
      { (wake (lonePool reserved 7 1 [⟨1001, 1⟩], []) ⟨1001, 1⟩).1 with
        waitQueue := (wake (lonePool reserved 7 1 [⟨1001, 1⟩], []) ⟨1001, 1⟩).2 } := rfl
  rw [hwake] at hwaken
  exact hwaken

theorem ofInt_lt_ofInt {a b : ℤ} (ha : 0 ≤ a) (ha' : a ≤ 8) (hb : 0 ≤ b) (hb' : b ≤ 8) :
    Int32.ofInt a < Int32.ofInt b ↔ a < b := by
  rw [Int32.lt_iff_toInt_lt, Int32.toInt_ofInt_of_le (by omega) (by omega),
    Int32.toInt_ofInt_of_le (by omega) (by omega)]

/-- Of the eight credits the reserved ones are used first. -/
theorem tryGetCredit_lonePool {r : ℤ} (hreserved : 0 ≤ r) (hfew : r < 8) {k : ℕ} (hk : k < 8) :
    (lonePool (.ofInt r) (.ofInt k) (.ofInt (8 - max r k)) []).tryGetCredit 1001 =
      (true, lonePool (.ofInt r) (.ofInt (k + 1 : ℕ)) (.ofInt (8 - max r (k + 1 : ℕ))) []) := by
  have hnext : (Int32.ofInt k) + 1 = Int32.ofInt (k + 1 : ℕ) := by
    rw [Nat.cast_add, Int32.ofInt_add]
    rfl
  have hiff : Int32.ofInt k < Int32.ofInt r ↔ (k : ℤ) < r :=
    ofInt_lt_ofInt (by omega) (by omega) hreserved hfew.le
  rcases lt_or_ge (k : ℤ) r with hlt | hge
  · have hsame : max r (k : ℤ) = max r ((k + 1 : ℕ) : ℤ) := by omega
    rw [tryGetCredit_lonePool_reserved (hiff.mpr hlt), hnext, hsame]
  · have hroom : (0 : Int32) < Int32.ofInt (8 - max r k) :=
      (ofInt_lt_ofInt le_rfl (by omega) (by omega) (by omega)).mpr (by omega)
    have hless : Int32.ofInt (8 - max r k) - 1 = Int32.ofInt (8 - max r (k + 1 : ℕ)) := by
      have hsub : 8 - max r ((k + 1 : ℕ) : ℤ) = 8 - max r (k : ℤ) - 1 := by omega
      rw [hsub, Int32.ofInt_sub _ 1]
      rfl
    have hnot : ¬ Int32.ofInt k < Int32.ofInt r := fun h => absurd (hiff.mp h) (not_lt.mpr hge)
    rw [tryGetCredit_lonePool_public hnot, tryPublic_lonePool hroom, hnext, hless]

end CreditPool

namespace StreamSystem
variable {packetCount sentCount : ℕ} {reserved used available : Int32} {waiting : List WaitEntry}
  {link log : List StreamPacket}

def lone (packetCount sentCount : ℕ) (reserved : Int32) (pool : CreditPool)
    (link log : List StreamPacket) : StreamSystem :=
  { producer := ⟨pool, [⟨1001, packetCount, sentCount, reserved⟩], 1002⟩
    link := link
    consumer := ⟨1, []⟩
    credits := []
    sent := log }

def send : StreamEvent := .tick (fun _ => true) (fun _ => true)

def vainTry (pkt : StreamPacket) : List StreamEvent :=
  [send, .request pkt, .process pkt, .response (StreamConsumer.creditPacket pkt)]

theorem step_send {pool : CreditPool} (h : sentCount < packetCount) :
    (lone packetCount sentCount reserved pool link log).step send =
      if (pool.tryGetCredit 1001).1 then
        lone packetCount (sentCount + 1) reserved (pool.tryGetCredit 1001).2
          (link ++ [⟨1001, sentCount⟩]) (log ++ [⟨1001, sentCount⟩])
      else lone packetCount sentCount reserved (pool.tryGetCredit 1001).2 link log := by
  have hmore : ¬ sentCount ≥ packetCount := not_le.mpr h
  cases hgranted : (pool.tryGetCredit 1001).1 with
  | true =>
    simp only [lone, send, step, tick, tickStreams, tickStream, hmore, hgranted, if_true, if_false,
      Option.toList_some, List.append_nil]
  | false =>
    simp only [lone, send, step, tick, tickStreams, tickStream, hmore, hgranted, if_true, if_false,
      Option.toList_none, List.append_nil, Bool.false_eq_true]

theorem run_send {r : ℤ} (hmany : 8 < packetCount) (hreserved : 0 ≤ r) (hfew : r < 8) {k : ℕ}
    (hk : k ≤ 8) :
    ((new 1).step (.createStream packetCount (.ofInt r))).run (List.replicate k send) =
      lone packetCount k (.ofInt r) (lonePool (.ofInt r) (.ofInt k) (.ofInt (8 - max r k)) [])
        ((List.range k).map (⟨1001, ·⟩)) ((List.range k).map (⟨1001, ·⟩)) := by
  induction k with
  | zero =>
    have hle : Int32.ofInt r ≤ (CreditPool.new 8).availableCredits := by
      rw [Int32.le_iff_toInt_le, Int32.toInt_ofInt_of_le (by omega) (by omega)]
      exact hfew.le
    have hreserve : (CreditPool.new 8).reserveCredits 1001 (.ofInt r) =
        (true, lonePool (.ofInt r) 0 (8 - .ofInt r) []) := by
      unfold reserveCredits
      rw [if_pos hle]
      rfl
    have hmax : max r ((0 : ℕ) : ℤ) = r := max_eq_left hreserved
    rw [hmax, Int32.ofInt_sub]
    simp only [List.replicate_zero, run, List.foldl_nil, step, new, StreamProducer.new,
      StreamProducer.createStream, hreserve, if_true]
    rfl
  | succ k ih =>
    rw [List.replicate_succ', run, List.foldl_append]
    change step (run _ _) send = _
    rw [ih (by omega), step_send (by omega)]
    have hgranted := tryGetCredit_lonePool hreserved hfew (show k < 8 by omega)
    rw [hgranted, if_pos rfl, List.range_succ, List.map_append]
    rfl

variable (link log) in
theorem run_vainTry (hmany : 8 < packetCount) (hfew : ¬ 7 < reserved) {pkt : StreamPacket}
    (hpkt : pkt.streamId = 1001) :
    (lone packetCount 8 reserved (lonePool reserved 8 0 []) (pkt :: link) log).run (vainTry pkt) =
      lone packetCount 8 reserved (lonePool reserved 8 0 []) link log := by
  have hrefused : (lonePool reserved 8 0 []).tryGetCredit 1001 =
      (false, lonePool reserved 8 0 [⟨1001, 1⟩]) := by
    have hnot : ¬ 8 < reserved := by
      rw [Int32.lt_iff_toInt_lt] at hfew ⊢
      have hseven : (7 : Int32).toInt = 7 := by decide
      have height : (8 : Int32).toInt = 8 := by decide
      omega
    rw [tryGetCredit_lonePool_public hnot]
    rfl
  simp only [vainTry, run, List.foldl_cons, List.foldl_nil]
  rw [step_send hmany, hrefused, if_neg Bool.false_ne_true]
  have hrequest : (lone packetCount 8 reserved (lonePool reserved 8 0 [⟨1001, 1⟩])
      (pkt :: link) log).step (.request pkt) =
      { lone packetCount 8 reserved (lonePool reserved 8 0 [⟨1001, 1⟩]) link log with
        consumer := ⟨1, [pkt]⟩ } := by
    simp only [step, lone, List.mem_cons_self, if_true, List.erase_cons_head]
    rfl
  have hprocess : ({ lone packetCount 8 reserved (lonePool reserved 8 0 [⟨1001, 1⟩]) link log with
      consumer := ⟨1, [pkt]⟩ } : StreamSystem).step (.process pkt) =
      { lone packetCount 8 reserved (lonePool reserved 8 0 [⟨1001, 1⟩]) link log with
        credits := [StreamConsumer.creditPacket pkt] } := by
    simp only [step, lone, List.mem_cons_self, if_true, List.erase_cons_head]
    rfl
  rw [hrequest, hprocess]
  have hcredit : StreamConsumer.creditPacket pkt = ⟨true, 1001, 1⟩ := by
    unfold StreamConsumer.creditPacket
    rw [hpkt]
  have hreturned : (fun pool : CreditPool => pool.returnCredit 1001)^[(1 : Int32).toInt.toNat]
      (lonePool reserved 8 0 [⟨1001, 1⟩]) = lonePool reserved 8 0 [] := by
    rw [toInt_one]
    exact returnCredit_lonePool hfew
  simp only [hcredit, step, lone, List.mem_cons_self, if_true, List.erase_cons_head,
    handleDownstreamResponse, hreturned]

theorem run_vainTries (hmany : 8 < packetCount) (hfew : ¬ 7 < reserved)
    (hlink : ∀ pkt ∈ link, pkt.streamId = 1001) :
    (lone packetCount 8 reserved (lonePool reserved 8 0 []) link log).run (link.flatMap vainTry) =
      lone packetCount 8 reserved (lonePool reserved 8 0 []) [] log := by
  induction link with
  | nil => rfl
  | cons pkt link ih =>
    have hfirst := run_vainTry link log hmany hfew
      (hlink pkt (List.mem_cons_self ..))
    have hrest := ih fun pkt' hpkt' => hlink pkt' (List.mem_cons_of_mem _ hpkt')
    rw [List.flatMap_cons]
    unfold run at hfirst hrest ⊢
    rw [List.foldl_append, hfirst, hrest]

/-- There is no public credit, and each stream uses all that it has reserved. -/
structure Exhausted (pool : CreditPool) : Prop where
  none : ¬ 0 < pool.availableCredits
  used : ∀ i, ¬ pool.used i < pool.getReservation i

/-- No credit is there, and none is on the way. -/
structure Stalled (s : StreamSystem) : Prop where
  pool : Exhausted s.producer.creditPool
  idle : s.link = [] ∧ s.consumer.scheduled = [] ∧ s.credits = []

variable {pool : CreditPool} {s : StreamSystem} {i : ℕ}

theorem exhausted_lonePool (hfew : ¬ 8 < reserved) : Exhausted (lonePool reserved 8 0 []) := by
  refine ⟨by change ¬ (0 : Int32) < 0; decide, fun i => ?_⟩
  change ¬ ((update (fun _ => none) 1001 (some 8) i : Option Int32).getD 0) <
    (update (fun _ => none) 1001 (some reserved) i : Option Int32).getD 0
  by_cases hi : i = 1001
  · rw [hi, update_self, update_self]
    exact hfew
  · rw [update_of_ne hi, update_of_ne hi]
    decide

namespace Exhausted

theorem tryGetCredit (h : Exhausted pool) :
    pool.tryGetCredit i = (false, { pool with waitQueue := wait i pool.waitQueue }) := by
  have hattempt := attempt_tryGetCredit pool i
  generalize pool.tryGetCredit i = result at hattempt
  cases hattempt with
  | reserved room => exact absurd room (h.used i)
  | taken room => exact absurd room h.none
  | refused => rfl

theorem tickStream (h : Exhausted pool) (coin taken : Bool) (stream : StreamInfo) :
    ∃ waiting, StreamProducer.tickStream coin taken pool stream =
      ({ pool with waitQueue := waiting }, stream, Option.none) := by
  unfold StreamProducer.tickStream
  rw [h.tryGetCredit]
  by_cases hdone : stream.sentCount ≥ stream.totalPackets
  · exact ⟨pool.waitQueue, if_pos hdone⟩
  · rw [if_neg hdone]
    cases coin with
    | false => exact ⟨pool.waitQueue, rfl⟩
    | true => exact ⟨_, rfl⟩

theorem tickStreams (h : Exhausted pool) (coin taken : ℕ → Bool) (i : ℕ)
    (streams : List StreamInfo) : ∃ waiting, StreamProducer.tickStreams coin taken i pool streams =
      ({ pool with waitQueue := waiting }, streams, []) := by
  induction streams generalizing pool i with
  | nil => exact ⟨pool.waitQueue, rfl⟩
  | cons stream streams ih =>
    obtain ⟨waiting, hfirst⟩ := h.tickStream (coin i) (taken i) stream
    have hwaits : Exhausted { pool with waitQueue := waiting } := ⟨h.none, h.used⟩
    obtain ⟨waiting', hrest⟩ := ih hwaits (i + 1)
    refine ⟨waiting', ?_⟩
    unfold StreamProducer.tickStreams
    rw [hfirst]
    simp only [hrest]
    rfl

/-- Nothing can be reserved but nothing. -/
theorem reserve (h : Exhausted pool) {n : Int32} (hn : 0 ≤ n) (hle : n ≤ pool.availableCredits) :
    Exhausted (pool.reserve i n) := by
  have hzero : n = 0 := by
    have hnone := h.none
    rw [Int32.le_iff_toInt_le] at hle hn
    rw [Int32.lt_iff_toInt_lt] at hnone
    have hnil : (0 : Int32).toInt = 0 := rfl
    exact Int32.toInt_inj.mp (by omega)
  subst hzero
  have hsub : pool.availableCredits - 0 = pool.availableCredits := by simp
  refine ⟨?_, fun j => ?_⟩
  · change ¬ 0 < pool.availableCredits - 0
    rw [hsub]
    exact h.none
  · rw [getReservation_reserve]
    change ¬ ((update pool.usedCredits i (some 0) j).getD 0 : Int32) < _
    by_cases hj : j = i
    · rw [hj, update_self, if_pos rfl]
      decide
    · rw [update_of_ne hj, if_neg hj]
      exact h.used j

theorem createStream {p : StreamProducer} (h : Exhausted p.creditPool) (packetCount : ℕ) {n : Int32}
    (hn : 0 ≤ n) : Exhausted (p.createStream packetCount n).creditPool := by
  cases hreserved : (p.creditPool.reserveCredits p.nextStreamId n).1 with
  | false =>
    simp only [StreamProducer.createStream, hreserved, Bool.false_eq_true, if_false]
    exact h
  | true =>
    obtain ⟨hle, hpool⟩ := reserveCredits_eq_reserve hreserved
    simp only [StreamProducer.createStream, hreserved, if_true, hpool]
    exact h.reserve hn hle

end Exhausted

theorem Stalled.step (h : Stalled s) {e : StreamEvent} (he : Proper e) :
    Stalled (s.step e) ∧ (s.step e).sent = s.sent := by
  obtain ⟨hlink, hscheduled, hcredits⟩ := h.idle
  cases e with
  | createStream packetCount reservedCredits =>
    exact ⟨⟨h.pool.createStream packetCount he, h.idle⟩, rfl⟩
  | tick coin taken =>
    obtain ⟨waiting, htick⟩ := h.pool.tickStreams coin taken 0 s.producer.streams
    have hstep : s.step (.tick coin taken) =
        { s with producer := { s.producer with
          creditPool := { s.producer.creditPool with waitQueue := waiting } } } := by
      simp only [StreamSystem.step, StreamProducer.tick, htick, List.append_nil]
    rw [hstep]
    exact ⟨⟨⟨h.pool.none, h.pool.used⟩, h.idle⟩, rfl⟩
  | request pkt =>
    have hnot : pkt ∉ s.link := by
      rw [hlink]
      exact List.not_mem_nil
    simp only [StreamSystem.step, if_neg hnot]
    exact ⟨h, trivial⟩
  | process pkt =>
    have hnot : pkt ∉ s.consumer.scheduled := by
      rw [hscheduled]
      exact List.not_mem_nil
    simp only [StreamSystem.step, if_neg hnot]
    exact ⟨h, trivial⟩
  | response pkt =>
    have hnot : pkt ∉ s.credits := by
      rw [hcredits]
      exact List.not_mem_nil
    simp only [StreamSystem.step, if_neg hnot]
    exact ⟨h, trivial⟩

theorem Stalled.sent_run (h : Stalled s) {events : List StreamEvent}
    (hevents : ∀ e ∈ events, Proper e) : (s.run events).sent = s.sent := by
  induction events generalizing s with
  | nil => rfl
  | cons e events ih =>
    obtain ⟨hstalled, hsent⟩ := h.step (hevents e (List.mem_cons_self ..))
    have hrest := ih hstalled fun e' he' => hevents e' (List.mem_cons_of_mem _ he')
    exact hrest.trans hsent

theorem proper_vainTries (n : ℕ) (pkts : List StreamPacket) :
    ∀ e ∈ List.replicate n send ++ pkts.flatMap vainTry, Proper e := by
  intro e he
  rcases List.mem_append.mp he with he | he
  · rw [List.eq_of_mem_replicate he]
    trivial
  · obtain ⟨pkt, _, he⟩ := List.mem_flatMap.mp he
    simp only [vainTry, List.mem_cons, List.not_mem_nil, or_false] at he
    rcases he with rfl | rfl | rfl | rfl <;> trivial

/-- Every stream of more than eight packets that has some credits to share can come to a standstill
after eight of them: nothing is under way then, and whatever happens, nothing more is sent. -/
theorem run_stallsForGood {packetCount : ℕ} {reserved : Int32} (hmany : 8 < packetCount)
    (hreserved : 0 ≤ reserved) (hfew : reserved < 8) :
    ∃ events, (∀ e ∈ events, Proper e) ∧
      let s := ((new 1).step (.createStream packetCount reserved)).run events
      s.sent = (List.range 8).map (⟨1001, ·⟩) ∧ s.underWay = [] ∧
        ∀ more, (∀ e ∈ more, Proper e) → (s.run more).sent = s.sent := by
  set pkts : List StreamPacket := (List.range 8).map (⟨1001, ·⟩) with hpkts
  have hlink : ∀ pkt ∈ pkts, pkt.streamId = 1001 := by
    intro pkt hpkt
    obtain ⟨k, _, rfl⟩ := List.mem_map.mp hpkt
    rfl
  rw [Int32.le_iff_toInt_le] at hreserved
  rw [Int32.lt_iff_toInt_lt] at hfew
  have hzero : (0 : Int32).toInt = 0 := rfl
  have height : (8 : Int32).toInt = 8 := by decide
  have hseven : (7 : Int32).toInt = 7 := by decide
  have hend : ((new 1).step (.createStream packetCount reserved)).run
      (List.replicate 8 send ++ pkts.flatMap vainTry) =
      lone packetCount 8 reserved (lonePool reserved 8 0 []) [] pkts := by
    have hsent := run_send (r := reserved.toInt) hmany (by omega) (by omega) (le_refl 8)
    have hmax : (8 : ℤ) - max reserved.toInt ((8 : ℕ) : ℤ) = 0 := by omega
    rw [hmax, Int32.ofInt_toInt] at hsent
    unfold run at hsent ⊢
    rw [List.foldl_append, hsent]
    refine run_vainTries hmany ?_ hlink
    rw [Int32.lt_iff_toInt_lt]
    omega
  refine ⟨_, proper_vainTries 8 pkts, ?_⟩
  intro s
  have hs : s = lone packetCount 8 reserved (lonePool reserved 8 0 []) [] pkts := hend
  have hstalled : Stalled s := by
    rw [hs]
    refine ⟨exhausted_lonePool ?_, rfl, rfl, rfl⟩
    rw [Int32.lt_iff_toInt_lt]
    omega
  refine ⟨by rw [hs]; rfl, by rw [hs]; rfl, fun more hmore => ?_⟩
  exact hstalled.sent_run hmore

/-- The default reservation. -/
theorem run_stallsForGood_default :
    ∃ events, (∀ e ∈ events, Proper e) ∧
      let s := ((new 1).step (.createStream 20 2)).run events
      s.sent = (List.range 8).map (⟨1001, ·⟩) ∧ s.underWay = [] ∧
        ∀ more, (∀ e ∈ more, Proper e) → (s.run more).sent = s.sent :=
  run_stallsForGood (by norm_num) (by decide) (by decide)

end StreamSystem
end GemSc
