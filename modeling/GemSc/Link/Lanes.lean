import GemSc.Link.Tick

/-! A link as a family of lanes, one for each VC: every call of a port acts on one lane
or on each lane apart. -/

namespace GemSc

def InputVC.offer (vc : InputVC) (p : PacketPtr) : Bool × InputVC :=
  if vc.capacity ≤ vc.buffer.length then (false, vc.countDropped) else vc.enqueue p

def OutputVC.offer (vc : OutputVC) (p : PacketPtr) : Bool × OutputVC :=
  if vc.capacity ≤ vc.buffer.length then (false, vc.countDropped) else vc.enqueue p

theorem InputVC.buffer_offer (vc : InputVC) (p : PacketPtr) :
    (vc.offer p).2.buffer = if (vc.offer p).1 then vc.buffer ++ [p] else vc.buffer := by
  by_cases h : vc.capacity ≤ vc.buffer.length <;> simp [offer, enqueue, countDropped, h]

theorem OutputVC.buffer_offer (vc : OutputVC) (p : PacketPtr) :
    (vc.offer p).2.buffer = if (vc.offer p).1 then vc.buffer ++ [p] else vc.buffer := by
  by_cases h : vc.capacity ≤ vc.buffer.length <;> simp [offer, enqueue, countDropped, h]

theorem DownstreamPort.enqueueOrDrop_eq (d : DownstreamPort) (i : ℕ) (vc : OutputVC) (p : PacketPtr) :
    d.enqueueOrDrop i vc p = ((vc.offer p).1, d.setVc i (vc.offer p).2) := by
  by_cases h : vc.capacity ≤ vc.buffer.length <;> simp [enqueueOrDrop, OutputVC.offer, OutputVC.enqueue, h]

@[ext] structure Lane where
  output : Option OutputVC
  input : Option InputVC
  outputInRange : Bool
  inputInRange : Bool

namespace Lane

def recv (p : PacketPtr) (a : Lane) : Bool × Lane :=
  match a.inputInRange, a.input with
  | true, some vi => ((vi.offer p).1, { a with input := some (vi.offer p).2 })
  | _, _ => (false, a)

def sendReq (p : PacketPtr) (a : Lane) : Bool × Lane :=
  match a.outputInRange, a.output with
  | true, some vo =>
    if vo.buffer ≠ [] then ((vo.offer p).1, { a with output := some (vo.offer p).2 })
    else if (a.recv p).1 then (true, (a.recv p).2)
    else ((vo.offer p).1, { (a.recv p).2 with output := some (vo.offer p).2 })
  | _, _ => (false, a)

def downTick (a : Lane) : Lane := { a with output := a.output.map (·.retry a.outputInRange) }

def offers (answer : PacketPtr → Bool) (a : Lane) : List (PacketPtr × Bool) :=
  match a.input.bind (·.buffer.head?) with
  | none => []
  | some p => [(p, answer p)]

def upTick (answer : PacketPtr → Bool) (a : Lane) : Lane :=
  { a with input := a.input.map fun vc => match vc.buffer with
    | [] => vc
    | p :: _ => if answer p then vc.pop else vc }

/-- The packet would pass the wire: nothing waits before it and the peer VC has room. -/
def Passes (a : Lane) : Prop :=
  a.outputInRange ∧ (∃ vo ∈ a.output, vo.buffer = []) ∧ a.inputInRange ∧ ∃ vi ∈ a.input, ¬ vi.Full

def inputBuffer (a : Lane) : List PacketPtr := (a.input.map (·.buffer)).getD []

def outputBuffer (a : Lane) : List PacketPtr := (a.output.map (·.buffer)).getD []

variable {a : Lane} {p : PacketPtr}

theorem output_recv : (a.recv p).2.output = a.output := by
  unfold recv
  split <;> rfl

theorem inputBuffer_recv :
    (a.recv p).2.inputBuffer = if (a.recv p).1 then a.inputBuffer ++ [p] else a.inputBuffer := by
  unfold recv
  split
  · next vi _ hvi => simp only [inputBuffer, hvi, Option.map_some, Option.getD_some, vi.buffer_offer]
  · rfl

theorem recv_fst_iff : (a.recv p).1 ↔ a.inputInRange ∧ ∃ vi ∈ a.input, ¬ vi.Full := by
  unfold recv
  split
  · next vi hr hvi =>
    by_cases hfull : vi.capacity ≤ vi.buffer.length
    · simp [hvi, InputVC.offer, InputVC.Full, hfull]
    · have hok : (vi.offer p).1 = true := by simp [InputVC.offer, InputVC.enqueue, hfull]
      have hroom : ¬ vi.Full := hfull
      simp [hr, hvi, hok, hroom]
  · next hnone =>
    simp only [Bool.false_eq_true, false_iff]
    rintro ⟨hr, vi, hvi, -⟩
    exact hnone vi hr hvi

theorem inputBuffer_sendReq [Decidable a.Passes] :
    (a.sendReq p).2.inputBuffer = if a.Passes then a.inputBuffer ++ [p] else a.inputBuffer := by
  unfold sendReq
  split
  · next vo hr hvo =>
    by_cases hne : vo.buffer = []
    · have hpasses : a.Passes ↔ (a.recv p).1 := by
        rw [recv_fst_iff]
        simp [Passes, hr, hvo, hne]
      simp only [hne, ne_eq, not_true_eq_false, if_false, hpasses]
      split_ifs with hok
      · rw [inputBuffer_recv, if_pos hok]
      · have hsame := inputBuffer_recv (a := a) (p := p)
        rwa [if_neg hok] at hsame
    · have hblocked : ¬ a.Passes := by
        rintro ⟨-, ⟨vo', hvo', hnil⟩, -⟩
        obtain rfl : vo = vo' := Option.some.inj (hvo.symm.trans hvo')
        exact hne hnil
      simp only [hne, ne_eq, not_false_eq_true, if_true, if_neg hblocked]
      rfl
  · next hnone =>
    have hblocked : ¬ a.Passes := fun ⟨hr, ⟨vo, hvo, _⟩, _⟩ => hnone vo hr hvo
    rw [if_neg hblocked]

theorem mem_outputBuffer_sendReq {x : PacketPtr} (hx : x ∈ (a.sendReq p).2.outputBuffer) :
    x ∈ a.outputBuffer ∨ x = p := by
  have hoffer : ∀ vo, a.output = some vo → x ∈ (vo.offer p).2.buffer → x ∈ a.outputBuffer ∨ x = p := by
    intro vo hvo hx
    rw [vo.buffer_offer] at hx
    simp only [outputBuffer, hvo, Option.map_some, Option.getD_some]
    split_ifs at hx
    · simpa using hx
    · exact .inl hx
  unfold sendReq at hx
  split at hx
  · next vo _ hvo =>
    split_ifs at hx
    · exact hoffer vo hvo hx
    · rw [outputBuffer, output_recv] at hx
      exact .inl hx
    · exact hoffer vo hvo hx
  · exact .inl hx

theorem inputBuffer_upTick (answer : PacketPtr → Bool) (a : Lane) :
    (a.upTick answer).inputBuffer =
      match a.inputBuffer with
      | [] => []
      | p :: rest => if answer p then rest else p :: rest := by
  unfold inputBuffer upTick
  cases hvi : a.input with
  | none => rfl
  | some vi =>
    cases hbuf : vi.buffer with
    | nil => simp [hbuf]
    | cons p rest => by_cases h : answer p <;> simp [hbuf, h, InputVC.pop]

theorem inputBuffer_upTick_suffix (answer : PacketPtr → Bool) (a : Lane) :
    (a.upTick answer).inputBuffer <:+ a.inputBuffer := by
  rw [inputBuffer_upTick]
  cases a.inputBuffer with
  | nil => exact List.suffix_refl _
  | cons p rest =>
    dsimp only
    split_ifs
    · exact List.suffix_cons p rest
    · exact List.suffix_refl _

theorem offers_eq (answer : PacketPtr → Bool) (a : Lane) :
    a.offers answer =
      match a.inputBuffer with
      | [] => []
      | p :: _ => [(p, answer p)] := by
  unfold offers inputBuffer
  cases hvi : a.input with
  | none => rfl
  | some vi => cases hbuf : vi.buffer <;> simp [hbuf]

end Lane

namespace UpstreamPort

theorem recv_eq (now : UInt64) (p : PacketPtr) (u : UpstreamPort) (m : Memory) :
    ∃ m', (m'.packet p).dstCycle = now ∧ u.recv now p m =
      match vcInRange (m.packet p).vcId u.inputVcs.length, u.inputVcs[(m.packet p).vcId.toNat]? with
      | true, some vi => ((vi.offer p).1,
          { u with
            stats := (SlavePort.updateStats now p m u.stats).2
            inputVcs := u.inputVcs.set (m.packet p).vcId.toNat (vi.offer p).2 }, m')
      | _, _ => (false, { u with stats := (SlavePort.updateStats now p m u.stats).2 }, m') := by
  cases hr : vcInRange (m.packet p).vcId u.inputVcs.length with
  | false =>
    refine ⟨m.setDstCycle p now, by simp [Memory.packet_setDstCycle], ?_⟩
    simp [recv, recvReq, SlavePort.updateStats, hr]
  | true =>
    refine ⟨(m.setDstCycle p now).setDstCycle p now, by simp [Memory.packet_setDstCycle], ?_⟩
    cases hvi : u.inputVcs[(m.packet p).vcId.toNat]? with
    | none => simp [recv, recvReq, SlavePort.updateStats, hr, hvi]
    | some vi =>
      by_cases hfull : vi.capacity ≤ vi.buffer.length <;>
        simp [recv, recvReq, SlavePort.updateStats, hr, hvi, InputVC.offer, InputVC.enqueue, hfull]

end UpstreamPort

namespace Link
variable {l : Link} {p : PacketPtr} {k : ℕ}

def lane (l : Link) (k : ℕ) : Lane where
  output := l.down.outputVcs[k]?
  input := l.up.inputVcs[k]?
  outputInRange := l.inRange k
  inputInRange := vcInRange k l.up.inputVcs.length

theorem outputBuffer_lane (l : Link) (k : ℕ) : (l.lane k).outputBuffer = l.down.buffer k := rfl

theorem inputBuffer_lane (l : Link) (k : ℕ) : (l.lane k).inputBuffer = l.up.buffer k := rfl

theorem masterSend_eq (o : Owners) (p : PacketPtr) (hl : l.Linked) :
    l.masterSend o p = ((l.up.recv o.now p l.mem).1,
      { l with
        down := { l.down with stats := MasterPort.countSent l.mem p l.down.stats }
        up := (l.up.recv o.now p l.mem).2.1
        mem := (l.up.recv o.now p l.mem).2.2 }) := by
  have htarget : (l.wires .down).sendTarget = some .up := hl
  simp only [masterSend, send, htarget, recv]

theorem dstCycle_masterSend (o : Owners) (p : PacketPtr) (hl : l.Linked) :
    ((l.masterSend o p).2.mem.packet p).dstCycle = o.now := by
  obtain ⟨m', hdst, heq⟩ := l.up.recv_eq o.now p l.mem
  rw [masterSend_eq o p hl, heq]
  dsimp only
  split <;> exact hdst

theorem lane_masterSend_self (o : Owners) (hl : l.Linked) (hp : (l.mem.packet p).vcId = k) :
    (l.masterSend o p).1 = ((l.lane k).recv p).1 ∧
      (l.masterSend o p).2.lane k = ((l.lane k).recv p).2 := by
  obtain ⟨m', -, heq⟩ := l.up.recv_eq o.now p l.mem
  rw [masterSend_eq o p hl, heq, hp]
  simp only [Lane.recv, lane, Int.toNat_natCast]
  split
  · next vi hr hvi =>
    have hk : k < l.up.inputVcs.length := (List.getElem?_eq_some_iff.mp hvi).1
    simp [hk, inRange]
  · exact ⟨rfl, rfl⟩

theorem lane_masterSend_other (o : Owners) (hl : l.Linked) (hp : (l.mem.packet p).vcId ≠ k) :
    (l.masterSend o p).2.lane k = l.lane k := by
  obtain ⟨m', -, heq⟩ := l.up.recv_eq o.now p l.mem
  rw [masterSend_eq o p hl, heq]
  dsimp only
  split
  · next vi hr hvi =>
    have hne : (l.mem.packet p).vcId.toNat ≠ k := by
      have := (vcInRange_toNat hr).2
      omega
    simp [lane, inRange, List.getElem?_set_ne hne]
  · rfl

theorem lane_setVc (l : Link) (i : ℕ) (vc : OutputVC) :
    ({ l with down := l.down.setVc i vc } : Link).lane k =
      { l.lane k with output := if i = k then (l.lane k).output.map fun _ => vc else (l.lane k).output } := by
  by_cases h : i = k
  · subst h
    by_cases hi : i < l.down.outputVcs.length <;>
      simp [lane, DownstreamPort.setVc, inRange, hi]
  · simp [lane, DownstreamPort.setVc, inRange, h]

theorem lane_sendReq_self (o : Owners) (hl : l.Linked) (hp : (l.mem.packet p).vcId = k) :
    (l.sendReq o p).1 = ((l.lane k).sendReq p).1 ∧
      (l.sendReq o p).2.lane k = ((l.lane k).sendReq p).2 := by
  obtain ⟨hok, hlane⟩ := lane_masterSend_self o hl hp
  have houtput : (l.lane k).output = l.down.outputVcs[k]? := rfl
  have hrange : (l.lane k).outputInRange = vcInRange k l.down.outputVcs.length := rfl
  rw [sendReq, Lane.sendReq, hrange, houtput]
  simp only [hp, Int.toNat_natCast]
  cases hr : vcInRange k l.down.outputVcs.length with
  | false => exact ⟨rfl, rfl⟩
  | true =>
    cases hvo : l.down.outputVcs[k]? with
    | none => exact ⟨rfl, rfl⟩
    | some vo =>
      simp only [if_true]
      by_cases hne : vo.buffer = []
      · simp only [hne, ne_eq, not_true_eq_false, if_false]
        rw [← hok]
        cases hsend : (l.masterSend o p).1 with
        | true =>
          rw [show l.masterSend o p = (true, (l.masterSend o p).2) from Prod.ext hsend rfl]
          exact ⟨rfl, hlane⟩
        | false =>
          rw [show l.masterSend o p = (false, (l.masterSend o p).2) from Prod.ext hsend rfl]
          have hrecv : ((l.lane k).recv p).2.output = some vo := Lane.output_recv.trans hvo
          simp only [DownstreamPort.enqueueOrDrop_eq, lane_setVc, hlane, if_true, hrecv,
            Option.map_some]
          exact ⟨rfl, rfl⟩
      · simp only [hne, ne_eq, not_false_eq_true, if_true, DownstreamPort.enqueueOrDrop_eq,
          lane_setVc, houtput, hvo, Option.map_some]
        exact ⟨trivial, Lane.ext rfl rfl (hrange.trans hr) rfl⟩

theorem lane_sendReq_other (o : Owners) (hl : l.Linked) (hp : (l.mem.packet p).vcId ≠ k) :
    (l.sendReq o p).2.lane k = l.lane k := by
  by_cases hr : vcInRange (l.mem.packet p).vcId l.down.outputVcs.length
  · obtain ⟨hlt, hi⟩ := vcInRange_toNat hr
    have hne : (l.mem.packet p).vcId.toNat ≠ k := by omega
    have hsend := lane_masterSend_other o hl hp
    obtain ⟨vo, hvo⟩ : ∃ vo, l.down.outputVcs[(l.mem.packet p).vcId.toNat]? = some vo :=
      ⟨_, List.getElem?_eq_getElem hlt⟩
    by_cases hnil : vo.buffer = []
    · rw [sendReq_of_empty o hr hvo hnil]
      split_ifs
      · exact hsend
      · simp only [DownstreamPort.enqueueOrDrop_eq, lane_setVc, hne, if_false, hsend]
    · rw [sendReq_of_queued o hr hvo hnil]
      simp only [DownstreamPort.enqueueOrDrop_eq, lane_setVc, hne, if_false]
  · rw [sendReq_of_outOfRange o hr]

theorem lane_downTick (o : Owners) (hc : l.Coherent) (k : ℕ) :
    (l.downTick o).lane k = (l.lane k).downTick := by
  obtain ⟨hframe, hup, -⟩ := downTick_frame o hc
  apply Lane.ext
  · exact getElem?_downTick o hc k
  · simp only [lane, hup, Lane.downTick]
  · simp only [lane, inRange, hframe.outputs, Lane.downTick]
  · simp only [lane, hup, Lane.downTick]

theorem length_tickVcs (answer : ℕ → PacketPtr → Bool) (i : ℕ) (vcs : List InputVC) :
    (UpstreamPort.tickVcs answer i vcs).1.length = vcs.length := by
  induction vcs generalizing i with
  | nil => rfl
  | cons vc vcs ih => cases hbuf : vc.buffer <;> simp [UpstreamPort.tickVcs, hbuf, ih]

theorem lane_upTick (o : Owners) (l : Link) (k : ℕ) :
    (l.upTick o).1.lane k = (l.lane k).upTick (o.handleUpstreamRequest k) := by
  have hget := UpstreamPort.getElem?_tickVcs o.handleUpstreamRequest 0 l.up.inputVcs k
  rw [Nat.zero_add] at hget
  apply Lane.ext
  · rfl
  · exact hget
  · rfl
  · simp only [lane, upTick, UpstreamPort.tick, length_tickVcs, Lane.upTick]

theorem offers_upTick (o : Owners) (l : Link) (k : ℕ) :
    (l.upTick o).2.filter (·.vc = k) =
      ((l.lane k).offers (o.handleUpstreamRequest k)).map fun f => ⟨k, f.1, f.2⟩ := by
  have hoffers := UpstreamPort.filter_offers_tickVcs o.handleUpstreamRequest 0 l.up.inputVcs k
  rw [Nat.zero_add] at hoffers
  have hup : (l.upTick o).2 = (UpstreamPort.tickVcs o.handleUpstreamRequest 0 l.up.inputVcs).2 := rfl
  rw [hup, hoffers]
  simp only [Lane.offers, lane]
  cases l.up.inputVcs[k]?.bind (·.buffer.head?) <;> rfl

theorem vcId_sendReq (o : Owners) (p : PacketPtr) (hl : l.Linked) (x : PacketPtr) :
    ((l.sendReq o p).2.mem.packet x).vcId = (l.mem.packet x).vcId :=
  (sendReq_cases o p (.inr hl)).1.vcId x

theorem Coherent.sendReq (hc : l.Coherent) (o : Owners) (p : PacketPtr) (hl : l.Linked) :
    (l.sendReq o p).2.Coherent := by
  constructor
  · intro k x hx
    rw [vcId_sendReq o p hl]
    rw [← outputBuffer_lane] at hx
    by_cases hp : (l.mem.packet p).vcId = k
    · rw [(lane_sendReq_self o hl hp).2] at hx
      rcases Lane.mem_outputBuffer_sendReq hx with hold | rfl
      · exact hc.output k x hold
      · exact hp
    · rw [lane_sendReq_other o hl hp] at hx
      exact hc.output k x hx
  · intro k x hx
    rw [vcId_sendReq o p hl]
    rw [← inputBuffer_lane] at hx
    by_cases hp : (l.mem.packet p).vcId = k
    · classical
      rw [(lane_sendReq_self o hl hp).2, Lane.inputBuffer_sendReq] at hx
      split_ifs at hx
      · rcases List.mem_append.mp hx with hold | hnew
        · exact hc.input k x hold
        · rw [List.mem_singleton] at hnew
          rw [hnew, hp]
      · exact hc.input k x hx
    · rw [lane_sendReq_other o hl hp] at hx
      exact hc.input k x hx

theorem Coherent.downTick (hc : l.Coherent) (o : Owners) : (l.downTick o).Coherent := by
  rw [downTick_eq o hc]
  exact hc.sweep _

theorem Coherent.upTick (hc : l.Coherent) (o : Owners) : (l.upTick o).1.Coherent := by
  refine ⟨hc.output, ?_⟩
  intro k x hx
  rw [← inputBuffer_lane, lane_upTick] at hx
  exact hc.input k x ((Lane.inputBuffer_upTick_suffix _ _).subset hx)

end Link
end GemSc
