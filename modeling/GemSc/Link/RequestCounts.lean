import GemSc.Link.Counters

/-! The request counters of a link against the requests that the receiver took. They count the
attempts, which are the same exactly when none of them is turned away. -/

namespace GemSc.Link

structure Transfer where
  taken : Bool
  bytes : UInt64
  deriving DecidableEq

variable {l : Link} {p : PacketPtr}

def transferOf (l : Link) (p : PacketPtr) : List Transfer :=
  if l.Attempts p then [⟨l.HasRoom p, l.mem.dataLength p⟩] else []

def transfers (l : Link) : TrafficStep → List Transfer
  | .sendReq _ p => l.transferOf p
  | .retry _ i => (l.down.buffer i).head?.toList.flatMap l.transferOf
  | .offer _ _ => []
  | .sendResp _ _ => []
  | .outside _ => []

def transferred : Link → List TrafficStep → List Transfer
  | _, [] => []
  | l, a :: as => l.transfers a ++ transferred (l.trafficStep a) as

/-- The packet is sent over the link while there is no room for it. -/
def TurnsAway (l : Link) (p : PacketPtr) : Prop := l.Attempts p ∧ ¬ l.HasRoom p

def Refuses (l : Link) : TrafficStep → Prop
  | .sendReq _ p => l.TurnsAway p
  | .retry _ i => ∃ p rest, l.down.buffer i = p :: rest ∧ l.TurnsAway p
  | .offer _ _ => False
  | .sendResp _ _ => False
  | .outside _ => False

def NotResponse : TrafficStep → Prop
  | .sendResp _ _ => False
  | _ => True

def entered (l : Link) : ℕ := (l.up.inputVcs.map (·.stats.enqueued.toNat)).sum

/-- Both ends have counted the requests that the receiver took, and their bytes. -/
structure Accurate (l : Link) (sent : List Transfer) : Prop where
  up : l.up.stats.reqCount.toNat = l.entered
  down : l.down.stats.reqCount.toNat = l.entered
  upBytes : l.up.stats.byteCount.toNat = ((sent.filter (·.taken)).map (·.bytes.toNat)).sum
  downBytes : l.down.stats.byteCount.toNat = ((sent.filter (·.taken)).map (·.bytes.toNat)).sum

structure Counted (l : Link) (sent : List Transfer) : Prop where
  upRequests : l.up.stats.reqCount = UInt64.ofNat sent.length
  downRequests : l.down.stats.reqCount = UInt64.ofNat sent.length
  upBytes : l.up.stats.byteCount = UInt64.ofNat (sent.map (·.bytes.toNat)).sum
  downBytes : l.down.stats.byteCount = UInt64.ofNat (sent.map (·.bytes.toNat)).sum
  entered : ∃ ns : List ℕ, l.up.inputVcs.map (·.stats.enqueued) = ns.map UInt64.ofNat ∧
    ns.sum = (sent.filter (·.taken)).length

theorem sum_set_succ {ns : List ℕ} {k n : ℕ} (hk : ns[k]? = some n) :
    (ns.set k (n + 1)).sum = ns.sum + 1 := by
  obtain ⟨hlt, hget⟩ := List.getElem?_eq_some_iff.mp hk
  have hsum := List.sum_take_add_sum_drop ns k
  rw [List.drop_eq_getElem_cons hlt, List.sum_cons, hget] at hsum
  rw [List.sum_set, if_pos hlt]
  omega

theorem enqueued_recv (now : UInt64) (p : PacketPtr) (l : Link) {ns : List ℕ}
    (hns : l.up.inputVcs.map (·.stats.enqueued) = ns.map UInt64.ofNat) :
    ∃ ns' : List ℕ,
      (l.up.recv now p l.mem).2.1.inputVcs.map (·.stats.enqueued) = ns'.map UInt64.ofNat ∧
        ns'.sum = ns.sum + (l.HasRoom p).toNat := by
  obtain ⟨m', -, heq⟩ := l.up.recv_eq now p l.mem
  rw [heq]
  unfold HasRoom
  cases hr : vcInRange (l.mem.packet p).vcId l.up.inputVcs.length with
  | false => exact ⟨ns, hns, rfl⟩
  | true =>
    cases hvc : l.up.inputVcs[(l.mem.packet p).vcId.toNat]? with
    | none => exact ⟨ns, hns, rfl⟩
    | some vc =>
      obtain ⟨n, hn, hcount⟩ : ∃ n, ns[(l.mem.packet p).vcId.toNat]? = some n ∧
          vc.stats.enqueued = UInt64.ofNat n := by
        have hget := congrArg (·[(l.mem.packet p).vcId.toNat]?) hns
        simp only [List.getElem?_map, hvc, Option.map_some] at hget
        obtain ⟨n, hn, hofNat⟩ := Option.map_eq_some_iff.mp hget.symm
        exact ⟨n, hn, hofNat.symm⟩
      change ∃ ns' : List ℕ, (l.up.inputVcs.set (l.mem.packet p).vcId.toNat (vc.offer p).2).map
        (·.stats.enqueued) = ns'.map UInt64.ofNat ∧
          ns'.sum = ns.sum + (decide (vc.buffer.length < vc.capacity)).toNat
      rw [List.map_set, hns]
      by_cases hfull : vc.capacity ≤ vc.buffer.length
      · have hsame : (vc.offer p).2.stats.enqueued = vc.stats.enqueued := by
          simp [InputVC.offer, InputVC.countDropped, hfull]
        have hget : (ns.map UInt64.ofNat)[(l.mem.packet p).vcId.toNat]? =
            some (vc.offer p).2.stats.enqueued := by
          rw [List.getElem?_map, hn, hsame, hcount]
          rfl
        refine ⟨ns, set_getElem?_self hget, ?_⟩
        rw [decide_eq_false (not_lt.mpr hfull)]
        rfl
      · have hone : (vc.offer p).2.stats.enqueued = UInt64.ofNat (n + 1) := by
          rw [UInt64.ofNat_add, ← hcount]
          simp [InputVC.offer, InputVC.enqueue, hfull]
        refine ⟨ns.set (l.mem.packet p).vcId.toNat (n + 1), ?_, ?_⟩
        · rw [hone, List.map_set]
        · rw [sum_set_succ hn, decide_eq_true (not_le.mp hfull)]
          rfl

theorem Counted.sendReq {sent : List Transfer} (h : l.Counted sent) (o : Owners) (hl : l.Linked)
    (hp : (l.mem.packet p).type = .req) {l' : Link}
    (hdown : l'.down.stats = (l.sendReq o p).2.down.stats) (hup : l'.up = (l.sendReq o p).2.up) :
    l'.Counted (sent ++ l.transferOf p) := by
  obtain ⟨-, hstats, hreceiver⟩ := sendReq_attempt o p hl
  rw [hstats] at hdown
  rw [hreceiver] at hup
  unfold transferOf
  by_cases hattempt : l.Attempts p
  · rw [if_pos hattempt] at hdown hup ⊢
    have hd := MasterPort.raised_countSent hp l.down.stats
    have hu := SlavePort.raised_updateStats hp o.now l.up.stats
    rw [← hdown] at hd
    rw [← stats_recv, ← hup] at hu
    obtain ⟨ns, hns, hsum⟩ := h.entered
    obtain ⟨ns', hns', hsum'⟩ := enqueued_recv o.now p l hns
    rw [← hup] at hns'
    refine ⟨?_, ?_, ?_, ?_, ns', hns', ?_⟩
    · rw [hu.requests, h.upRequests, List.length_append, UInt64.ofNat_add]
      rfl
    · rw [hd.requests, h.downRequests, List.length_append, UInt64.ofNat_add]
      rfl
    · rw [hu.bytes, h.upBytes, List.map_append, List.sum_append, UInt64.ofNat_add]
      simp
    · rw [hd.bytes, h.downBytes, List.map_append, List.sum_append, UInt64.ofNat_add]
      simp
    · rw [hsum', hsum, List.filter_append, List.length_append]
      cases hroom : l.HasRoom p <;> rfl
  · rw [if_neg hattempt] at hdown hup ⊢
    rw [List.append_nil]
    refine ⟨?_, ?_, ?_, ?_, ?_⟩
    · rw [hup, h.upRequests]
    · rw [hdown, h.downRequests]
    · rw [hup, h.upBytes]
    · rw [hdown, h.downBytes]
    · rw [hup]
      exact h.entered

theorem enqueued_offer (answer : ℕ → PacketPtr → Bool) (u : UpstreamPort) (k : ℕ) :
    (u.offer answer k).inputVcs.map (·.stats.enqueued) = u.inputVcs.map (·.stats.enqueued) := by
  apply List.ext_getElem?
  intro i
  rw [UpstreamPort.offer, List.getElem?_map, List.getElem?_map, List.getElem?_modify]
  cases u.inputVcs[i]? with
  | none => rfl
  | some vc =>
    -- neither an offer that is declined nor a pop counts a packet
    have hpop : ∀ vc : InputVC, vc.pop.stats.enqueued = vc.stats.enqueued := by
      intro vc
      unfold InputVC.pop
      split <;> rfl
    change some _ = some _
    congr 1
    split
    · dsimp only
      split
      · rfl
      · split
        · exact hpop vc
        · rfl
    · rfl

theorem Counted.step {sent : List Transfer} (h : l.Counted sent) (hl : l.Linked) {a : TrafficStep}
    (ha : l.Carries a) (hreq : NotResponse a) :
    (l.trafficStep a).Linked ∧ (l.trafficStep a).Counted (sent ++ l.transfers a) := by
  have hkeep : ∀ o p, ∀ l' : Link, l'.wires = (l.sendReq o p).2.wires → l'.Linked := by
    intro o p l' hwires
    rw [Linked, hwires, (sendReq_attempt o p hl).1]
    exact hl
  cases a with
  | sendReq o p => exact ⟨hkeep o p _ rfl, h.sendReq o hl ha rfl rfl⟩
  | retry o i =>
    rcases trySend_attempt (l := l) o i with ⟨hempty, heq⟩ | ⟨p, rest, hfront, hwires, hdown, hup⟩
    · rw [trafficStep, transfers, heq, hempty]
      refine ⟨hl, ?_⟩
      rwa [List.head?_nil, Option.toList_none, List.flatMap_nil, List.append_nil]
    · have hcounted := h.sendReq o hl (ha p rest hfront) hdown hup
      rw [transfers, hfront, List.head?_cons, Option.toList_some, List.flatMap_singleton]
      exact ⟨hkeep o p _ hwires, hcounted⟩
  | offer o k =>
    rw [transfers, List.append_nil]
    obtain ⟨ns, hns, hsum⟩ := h.entered
    exact ⟨hl, h.upRequests, h.downRequests, h.upBytes, h.downBytes, ns,
      (enqueued_offer _ _ _).trans hns, hsum⟩
  | sendResp o p => exact absurd hreq not_false
  | outside m =>
    rw [transfers, List.append_nil]
    exact ⟨hl, h.upRequests, h.downRequests, h.upBytes, h.downBytes, h.entered⟩

theorem Counted.run {sent : List Transfer} (h : l.Counted sent) (hl : l.Linked)
    {steps : List TrafficStep} (hsteps : Along Carries l steps) (hreq : ∀ a ∈ steps, NotResponse a) :
    (l.traffic steps).Counted (sent ++ l.transferred steps) := by
  induction steps generalizing l sent with
  | nil =>
    rw [transferred, List.append_nil]
    exact h
  | cons a steps ih =>
    rw [List.forall_mem_cons] at hreq
    obtain ⟨hl', h'⟩ := h.step hl hsteps.1 hreq.1
    rw [transferred, ← List.append_assoc]
    exact ih h' hl' hsteps.2 hreq.2

theorem taken_iff (a : TrafficStep) : (∀ t ∈ l.transfers a, t.taken) ↔ ¬ l.Refuses a := by
  have hone : ∀ p, (∀ t ∈ l.transferOf p, t.taken) ↔ ¬ l.TurnsAway p := by
    intro p
    unfold transferOf TurnsAway
    split <;> simp_all
  cases a with
  | sendReq o p => exact hone p
  | retry o i =>
    rw [transfers, Refuses]
    cases l.down.buffer i with
    | nil => simp
    | cons p rest =>
      rw [List.head?_cons, Option.toList_some, List.flatMap_singleton, hone p]
      simp
  | offer o k => simp [transfers, Refuses]
  | sendResp o p => simp [transfers, Refuses]
  | outside m => simp [transfers, Refuses]

theorem transferred_taken_iff (l : Link) (steps : List TrafficStep) :
    (∀ t ∈ l.transferred steps, t.taken) ↔ Along (fun l a => ¬ l.Refuses a) l steps := by
  induction steps generalizing l with
  | nil => simp [transferred, Along]
  | cons a steps ih => rw [transferred, List.forall_mem_append, taken_iff, ih, Along]

theorem Counted.toNat_entered {sent : List Transfer} (h : l.Counted sent)
    (hwrap : sent.length < 2 ^ 64) : l.entered = (sent.filter (·.taken)).length := by
  obtain ⟨ns, hns, hsum⟩ := h.entered
  have hle := List.length_filter_le (·.taken) sent
  have hback : (ns.map UInt64.ofNat).map UInt64.toNat = ns := by
    rw [List.map_map]
    refine (List.map_congr_left fun n hn => ?_).trans (List.map_id ns)
    have hn : n ≤ ns.sum := List.single_le_sum (fun _ _ => Nat.zero_le _) n hn
    have hlt : n < 2 ^ 64 := by omega
    exact UInt64.toNat_ofNat_of_lt' hlt
  have hmap : l.entered = ((l.up.inputVcs.map (·.stats.enqueued)).map UInt64.toNat).sum := by
    rw [List.map_map]
    rfl
  rw [hmap, hns, hback, hsum]

theorem Counted.accurate_iff {sent : List Transfer} (h : l.Counted sent)
    (hwrap : sent.length < 2 ^ 64) (hbytes : (sent.map (·.bytes.toNat)).sum < 2 ^ 64) :
    l.Accurate sent ↔ ∀ t ∈ sent, t.taken := by
  have hentered := h.toNat_entered hwrap
  constructor
  · intro haccurate
    have hup := haccurate.up
    rw [h.upRequests, UInt64.toNat_ofNat_of_lt' hwrap, hentered] at hup
    exact List.length_filter_eq_length_iff.mp hup.symm
  · intro hall
    rw [List.filter_eq_self.mpr hall] at hentered
    have hfilter : sent.filter (·.taken) = sent := List.filter_eq_self.mpr hall
    constructor
    · rw [h.upRequests, UInt64.toNat_ofNat_of_lt' hwrap, hentered]
    · rw [h.downRequests, UInt64.toNat_ofNat_of_lt' hwrap, hentered]
    · rw [h.upBytes, UInt64.toNat_ofNat_of_lt' hbytes, hfilter]
    · rw [h.downBytes, UInt64.toNat_ofNat_of_lt' hbytes, hfilter]

structure Unused (l : Link) : Prop where
  down : l.down.stats = {}
  up : l.up.stats = {}
  entered : ∀ vc ∈ l.up.inputVcs, vc.stats.enqueued = 0

theorem Unused.counted (h : l.Unused) : l.Counted [] := by
  refine ⟨?_, ?_, ?_, ?_, l.up.inputVcs.map fun _ => 0, ?_, ?_⟩
  · rw [h.up]
    rfl
  · rw [h.down]
    rfl
  · rw [h.up]
    rfl
  · rw [h.down]
    rfl
  · rw [List.map_map]
    exact List.map_congr_left h.entered
  · simp

/-- In a run that carries requests only, the counters of both ends are those of the requests that
were taken exactly when no step sends a request while there is no room for it. -/
theorem accurate_iff_no_refusal (l : Link) (steps : List TrafficStep) (hl : l.Linked)
    (hunused : l.Unused) (hsteps : Along Carries l steps) (hreq : ∀ a ∈ steps, NotResponse a)
    (hwrap : (l.transferred steps).length < 2 ^ 64)
    (hbytes : ((l.transferred steps).map (·.bytes.toNat)).sum < 2 ^ 64) :
    (l.traffic steps).Accurate (l.transferred steps) ↔ Along (fun l a => ¬ l.Refuses a) l steps := by
  have hcounted := hunused.counted.run hl hsteps hreq
  rw [List.nil_append] at hcounted
  rw [hcounted.accurate_iff hwrap hbytes, transferred_taken_iff]

theorem unused_newPair : newPair.Unused where
  down := rfl
  up := rfl
  entered := by
    intro vc hvc
    rw [List.mem_singleton.mp hvc]

theorem accurate_iff_no_refusal_newPair :
    (newPair.traffic [.sendReq takers 0]).Accurate (newPair.transferred [.sendReq takers 0]) := by
  have hiff := accurate_iff_no_refusal newPair [.sendReq takers 0] rfl unused_newPair
    ⟨rfl, trivial⟩ (by simp [NotResponse]) (by decide) (by decide)
  refine hiff.mpr ⟨fun h => ?_, trivial⟩
  exact h.2 (by decide)

def twoRequests : List TrafficStep := [.sendReq takers 0, .sendReq takers 2]

theorem refused_request_counted : newPair.Unused ∧ Along Carries newPair twoRequests ∧
    (∀ a ∈ twoRequests, NotResponse a) ∧
    ¬ (newPair.traffic twoRequests).Accurate (newPair.transferred twoRequests) := by
  refine ⟨unused_newPair, ⟨rfl, rfl, trivial⟩, by simp [twoRequests, NotResponse], fun h => ?_⟩
  have hup : 2 = 1 := h.up
  cases hup

end GemSc.Link
