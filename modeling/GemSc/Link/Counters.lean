import GemSc.Link.Lanes

/-! The statistics of the two ports of a link. A request is counted at both ends where it is
attempted, a response where it is sent, whatever the outcome. -/

namespace GemSc

/-- A call on a link, an iteration of one of the two `tick`s, or what the program writes to packets
in between. The calls that a handler makes during a tick stand between its iterations. -/
inductive TrafficStep
  | sendReq (o : Owners) (p : PacketPtr)
  | retry (o : Owners) (vc : ℕ)
  | offer (o : Owners) (vc : ℕ)
  | sendResp (o : Owners) (p : PacketPtr)
  | outside (m : Memory)

namespace UpstreamPort

def offer (answer : ℕ → PacketPtr → Bool) (u : UpstreamPort) (k : ℕ) : UpstreamPort :=
  { u with inputVcs := u.inputVcs.modify k fun vc => match vc.buffer with
    | [] => vc
    | p :: _ => if answer k p then vc.pop else vc }

end UpstreamPort

namespace Link

def trafficStep (l : Link) : TrafficStep → Link
  | .sendReq o p => (l.sendReq o p).2
  | .retry o i => (l.trySend o i).2
  | .offer o k => { l with up := l.up.offer o.handleUpstreamRequest k }
  | .sendResp o p => (l.sendResp o p).2
  | .outside m => { l with mem := m }

def traffic (l : Link) (steps : List TrafficStep) : Link := steps.foldl trafficStep l

def Along (P : Link → TrafficStep → Prop) : Link → List TrafficStep → Prop
  | _, [] => True
  | l, a :: as => P l a ∧ Along P (l.trafficStep a) as

/-- Requests are sent by `sendReq`, and are still requests when they are retried; responses are
sent by `sendResp`. -/
def Carries (l : Link) : TrafficStep → Prop
  | .sendReq _ p => (l.mem.packet p).type = .req
  | .retry _ i => ∀ p rest, l.down.buffer i = p :: rest → (l.mem.packet p).type = .req
  | .sendResp _ p => (l.mem.packet p).type = .resp
  | .offer _ _ => True
  | .outside _ => True

/-- `new PortPair(down, up)`. -/
structure Bound (l : Link) : Prop where
  down : (l.wires .down).sendTarget = some .up
  up : (l.wires .up).sendTarget = some .down

theorem bound_of_paired {l : Link} (h : l.wires = pairedWires) : l.Bound := by
  constructor
  · rw [h]
    decide
  · rw [h]
    decide

variable {l : Link}

theorem downTick_eq_traffic (o : Owners) (l : Link) :
    l.downTick o = l.traffic ((List.range l.down.outputVcs.length).map (.retry o)) := by
  unfold traffic
  rw [List.foldl_map]
  rfl

theorem getElem?_foldl_modify {α : Type*} (f : ℕ → α → α) (xs : List α) (n k : ℕ) :
    ((List.range n).foldl (fun xs i => xs.modify i (f i)) xs)[k]? =
      if k < n then xs[k]?.map (f k) else xs[k]? := by
  induction n with
  | zero => rfl
  | succ n ih =>
    rw [List.range_succ, List.foldl_concat, List.getElem?_modify, ih]
    by_cases hk : n = k
    · subst hk
      rw [if_neg (Nat.lt_irrefl n), if_pos (Nat.lt_succ_self n)]
      simp
    · have hlt : k < n + 1 ↔ k < n := ⟨fun h => lt_of_le_of_ne (Nat.le_of_lt_succ h) (Ne.symm hk),
        fun h => h.trans (Nat.lt_succ_self n)⟩
      simp [hk, hlt]

theorem upTick_eq_traffic (o : Owners) (l : Link) :
    (l.upTick o).1 = l.traffic ((List.range l.up.inputVcs.length).map (.offer o)) := by
  have hfold : ∀ (ks : List ℕ) (l : Link), l.traffic (ks.map (.offer o)) = { l with up := { l.up with
      inputVcs := ks.foldl (fun vcs k => vcs.modify k fun vc => match vc.buffer with
        | [] => vc
        | p :: _ => if o.handleUpstreamRequest k p then vc.pop else vc) l.up.inputVcs } } := by
    intro ks
    induction ks with
    | nil => exact fun _ => rfl
    | cons k ks ih => exact fun l => ih _
  have htick : (UpstreamPort.tickVcs o.handleUpstreamRequest 0 l.up.inputVcs).1 =
      (List.range l.up.inputVcs.length).foldl (fun vcs k => vcs.modify k fun vc => match vc.buffer with
        | [] => vc
        | p :: _ => if o.handleUpstreamRequest k p then vc.pop else vc) l.up.inputVcs := by
    apply List.ext_getElem?
    intro k
    rw [UpstreamPort.getElem?_tickVcs, getElem?_foldl_modify, Nat.zero_add]
    split
    · rfl
    · rename_i hk
      rw [List.getElem?_eq_none (not_lt.mp hk)]
      rfl
  rw [hfold, ← htick]
  rfl

end Link

namespace PortStats

structure Raised (s t : PortStats) (requests responses bytes : UInt64) : Prop where
  requests : t.reqCount = s.reqCount + requests
  responses : t.respCount = s.respCount + responses
  bytes : t.byteCount = s.byteCount + bytes

theorem Raised.refl (s : PortStats) : s.Raised s 0 0 0 :=
  ⟨(UInt64.add_zero _).symm, (UInt64.add_zero _).symm, (UInt64.add_zero _).symm⟩

end PortStats

section
variable {m : Memory} {p : PacketPtr}

theorem MasterPort.raised_countSent (h : (m.packet p).type = .req) (s : PortStats) :
    s.Raised (MasterPort.countSent m p s) 1 0 (m.dataLength p) := by
  have hreq : (m.packet p).isRequest := decide_eq_true h
  unfold MasterPort.countSent
  rw [if_pos hreq]
  exact ⟨rfl, (UInt64.add_zero _).symm, rfl⟩

theorem SlavePort.raised_updateStats (h : (m.packet p).type = .req) (now : UInt64) (s : PortStats) :
    s.Raised (SlavePort.updateStats now p m s).2 1 0 (m.dataLength p) := by
  have hreq : ((m.setDstCycle p now).packet p).isRequest := by
    rw [Memory.packet_setDstCycle, if_pos rfl]
    exact decide_eq_true h
  unfold SlavePort.updateStats SlavePort.countReceived
  dsimp only
  rw [if_pos hreq, Memory.dataLength_setDstCycle]
  -- a delay may be recorded as well, which counts nothing
  split
  · exact ⟨rfl, (UInt64.add_zero _).symm, rfl⟩
  · exact ⟨rfl, (UInt64.add_zero _).symm, rfl⟩

theorem SlavePort.raised_countResponse (m : Memory) (p : PacketPtr) (s : PortStats) :
    s.Raised (SlavePort.countResponse m p s) 0 1 (m.dataLength p) :=
  ⟨(UInt64.add_zero _).symm, rfl, rfl⟩

theorem MasterPort.raised_updateStats (h : (m.packet p).type = .resp) (now : UInt64)
    (s : PortStats) : s.Raised (MasterPort.updateStats now p m s).2 0 1 (m.dataLength p) := by
  have hresp : ((m.setDstCycle p now).packet p).isResponse := by
    rw [Memory.packet_setDstCycle, if_pos rfl]
    exact decide_eq_true h
  unfold MasterPort.updateStats MasterPort.countReceived
  dsimp only
  rw [if_pos hresp, Memory.dataLength_setDstCycle]
  split
  · exact ⟨(UInt64.add_zero _).symm, rfl, rfl⟩
  · exact ⟨(UInt64.add_zero _).symm, rfl, rfl⟩

end

namespace Link
variable {l : Link} {p : PacketPtr}

/-- Nothing is buffered at the sender on the VC of the packet, so that `sendReq` sends it. -/
def Attempts (l : Link) (p : PacketPtr) : Bool :=
  match vcInRange (l.mem.packet p).vcId l.down.outputVcs.length,
    l.down.outputVcs[(l.mem.packet p).vcId.toNat]? with
  | true, some vc => vc.buffer.isEmpty
  | _, _ => false

def HasRoom (l : Link) (p : PacketPtr) : Bool :=
  match vcInRange (l.mem.packet p).vcId l.up.inputVcs.length,
    l.up.inputVcs[(l.mem.packet p).vcId.toNat]? with
  | true, some vc => decide (vc.buffer.length < vc.capacity)
  | _, _ => false

theorem sendReq_attempt (o : Owners) (p : PacketPtr) (hl : l.Linked) :
    (l.sendReq o p).2.wires = l.wires ∧
    (l.sendReq o p).2.down.stats = (if l.Attempts p then
      MasterPort.countSent l.mem p l.down.stats else l.down.stats) ∧
    (l.sendReq o p).2.up = (if l.Attempts p then (l.up.recv o.now p l.mem).2.1 else l.up) := by
  have hwires := (sendReq_cases o p (.inr hl)).1.wires
  have hstats : ∀ (d : DownstreamPort) i vc, (d.enqueueOrDrop i vc p).2.stats = d.stats := by
    intro d i vc
    rw [DownstreamPort.enqueueOrDrop_eq]
    rfl
  have hmaster := masterSend_eq o p hl
  refine ⟨hwires, ?_⟩
  unfold sendReq Attempts
  cases hr : vcInRange (l.mem.packet p).vcId l.down.outputVcs.length with
  | false => simp [hr]
  | true =>
    cases hvc : l.down.outputVcs[(l.mem.packet p).vcId.toNat]? with
    | none => simp [hr, hvc]
    | some vc =>
      cases hbuf : vc.buffer with
      | cons q rest =>
        simp [hr, hvc, hbuf, hstats]
      | nil =>
        -- the direct send has counted the packet, whether it is then buffered or not
        simp only [hr, hvc, if_true, hbuf, ne_eq, not_true_eq_false, if_false, List.isEmpty_nil,
          hmaster]
        cases (l.up.recv o.now p l.mem).1
        · exact ⟨hstats _ _ _, rfl⟩
        · exact ⟨rfl, rfl⟩

theorem trySend_attempt (o : Owners) (i : ℕ) :
    (l.down.buffer i = [] ∧ (l.trySend o i).2 = l) ∨
      ∃ p rest, l.down.buffer i = p :: rest ∧
        (l.trySend o i).2.wires = (l.sendReq o p).2.wires ∧
        (l.trySend o i).2.down.stats = (l.sendReq o p).2.down.stats ∧
        (l.trySend o i).2.up = (l.sendReq o p).2.up := by
  unfold trySend
  cases hvc : l.down.outputVcs[i]? with
  | none =>
    left
    exact ⟨by simp [DownstreamPort.buffer, hvc], rfl⟩
  | some vc =>
    have hbuffer := DownstreamPort.buffer_of_getElem? hvc
    cases hbuf : vc.buffer with
    | nil =>
      left
      exact ⟨hbuffer.trans hbuf, by simp only [hbuf]⟩
    | cons p rest =>
      right
      refine ⟨p, rest, hbuffer.trans hbuf, ?_⟩
      simp only [hbuf]
      split
      · rename_i l' hsend
        rw [hsend]
        exact ⟨rfl, rfl, rfl⟩
      · rename_i l' hsend
        rw [hsend]
        exact ⟨rfl, rfl, rfl⟩

theorem sendResp_eq (o : Owners) (p : PacketPtr) (hl : l.Bound) : (l.sendResp o p).2 = { l with
    up := { l.up with stats := SlavePort.countResponse l.mem p l.up.stats }
    mem := (MasterPort.updateStats o.now p l.mem l.down.stats).1
    down := { l.down with stats := (MasterPort.updateStats o.now p l.mem l.down.stats).2 } } := by
  unfold sendResp send
  rw [hl.up]
  rfl

theorem stats_recv (now : UInt64) (p : PacketPtr) (u : UpstreamPort) (m : Memory) :
    (u.recv now p m).2.1.stats = (SlavePort.updateStats now p m u.stats).2 := by
  obtain ⟨m', -, heq⟩ := u.recv_eq now p m
  rw [heq]
  split <;> rfl

def CountsAlike (l l' : Link) : Prop :=
  ∃ requests responses bytes, l.down.stats.Raised l'.down.stats requests responses bytes ∧
    l.up.stats.Raised l'.up.stats requests responses bytes

theorem CountsAlike.of_eq {l' : Link} (hdown : l'.down.stats = l.down.stats)
    (hup : l'.up.stats = l.up.stats) : CountsAlike l l' :=
  ⟨0, 0, 0, hdown ▸ .refl _, hup ▸ .refl _⟩

theorem sendReq_counts (o : Owners) (hl : l.Linked) (hp : (l.mem.packet p).type = .req) :
    CountsAlike l (l.sendReq o p).2 := by
  obtain ⟨-, hdown, hup⟩ := sendReq_attempt o p hl
  by_cases hattempt : l.Attempts p
  · rw [if_pos hattempt] at hdown hup
    refine ⟨1, 0, l.mem.dataLength p, ?_, ?_⟩
    · rw [hdown]
      exact MasterPort.raised_countSent hp _
    · rw [hup, stats_recv]
      exact SlavePort.raised_updateStats hp _ _
  · rw [if_neg hattempt] at hdown hup
    exact .of_eq hdown (congrArg _ hup)

theorem Bound.step (hl : l.Bound) {a : TrafficStep} (ha : l.Carries a) :
    (l.trafficStep a).Bound ∧ CountsAlike l (l.trafficStep a) := by
  have hkeep : ∀ l' : Link, l'.wires = l.wires → l'.Bound := by
    intro l' hwires
    exact ⟨hwires ▸ hl.down, hwires ▸ hl.up⟩
  cases a with
  | sendReq o p =>
    exact ⟨hkeep _ (sendReq_attempt o p hl.down).1, sendReq_counts o hl.down ha⟩
  | retry o i =>
    rcases trySend_attempt (l := l) o i with ⟨-, heq⟩ | ⟨p, rest, hfront, hwires, hdown, hup⟩
    · rw [trafficStep, heq]
      exact ⟨hl, .of_eq rfl rfl⟩
    · obtain ⟨n, k, b, hd, hu⟩ := sendReq_counts o hl.down (ha p rest hfront)
      refine ⟨hkeep _ (hwires.trans (sendReq_attempt o p hl.down).1), n, k, b, ?_, ?_⟩
      · rw [trafficStep, hdown]
        exact hd
      · rw [trafficStep, hup]
        exact hu
  | offer o k => exact ⟨hkeep _ rfl, .of_eq rfl rfl⟩
  | sendResp o p =>
    rw [trafficStep, sendResp_eq o p hl]
    exact ⟨hkeep _ rfl, 0, 1, l.mem.dataLength p, MasterPort.raised_updateStats ha _ _,
      SlavePort.raised_countResponse _ _ _⟩
  | outside m => exact ⟨hkeep _ rfl, .of_eq rfl rfl⟩

structure Level (l : Link) : Prop where
  requests : l.down.stats.reqCount = l.up.stats.reqCount
  responses : l.down.stats.respCount = l.up.stats.respCount
  bytes : l.down.stats.byteCount = l.up.stats.byteCount

theorem Level.of_alike {l' : Link} (h : l.Level) (halike : CountsAlike l l') : l'.Level := by
  obtain ⟨n, k, b, hdown, hup⟩ := halike
  constructor
  · rw [hdown.requests, hup.requests, h.requests]
  · rw [hdown.responses, hup.responses, h.responses]
  · rw [hdown.bytes, hup.bytes, h.bytes]

/-- Ports that were bound before any traffic agree in every state of a run. -/
theorem level_traffic (l : Link) (steps : List TrafficStep) (hwires : l.wires = pairedWires)
    (hdown : l.down.stats = {}) (hup : l.up.stats = {}) (hsteps : Along Carries l steps) :
    ∀ pre, pre <+: steps → (l.traffic pre).Level := by
  have key : ∀ (steps : List TrafficStep) (l : Link), l.Bound → l.Level → Along Carries l steps →
      ∀ pre, pre <+: steps → (l.traffic pre).Level := by
    intro steps
    induction steps with
    | nil =>
      intro l _ hlevel _ pre hpre
      rw [List.prefix_nil.mp hpre]
      exact hlevel
    | cons a steps ih =>
      intro l hbound hlevel hsteps pre hpre
      obtain ⟨hbound', halike⟩ := hbound.step hsteps.1
      rcases List.prefix_cons_iff.mp hpre with rfl | ⟨rest, rfl, hrest⟩
      · exact hlevel
      · exact ih _ hbound' (hlevel.of_alike halike) hsteps.2 rest hrest
  refine key steps l (bound_of_paired hwires) ?_ hsteps
  constructor
  · rw [hdown, hup]
  · rw [hdown, hup]
  · rw [hdown, hup]

def newPair : Link where
  wires := pairedWires
  down := .new 0 [1] [] ""
  up := .new 0 [1] [] ""
  mem := ⟨fun p => if p = 1 then { type := .resp } else {}, fun _ => ⟨0, 0⟩⟩

def takers : Owners := ⟨5, fun _ _ => true, fun _ => true⟩

theorem level_traffic_newPair :
    (newPair.traffic [.sendReq takers 0, .sendReq takers 2, .sendResp takers 1]).Level :=
  level_traffic newPair [.sendReq takers 0, .sendReq takers 2, .sendResp takers 1] rfl rfl rfl
    ⟨rfl, rfl, rfl, trivial⟩ _ (List.prefix_refl _)

end Link
end GemSc
