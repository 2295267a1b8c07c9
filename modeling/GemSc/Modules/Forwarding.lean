import GemSc.Modules.Inversion

/-! Runs of one `CacheSim` seen from below: which misses it handed to which downstream port. -/

namespace GemSc
open ExceptFold

structure Handover where
  port : ℕ
  packet : PacketPtr
  address : Except MemoryFault UInt64
  ports : ℕ

structure Forwarding where
  cache : CacheSim
  arena : Arena
  accepted : List PacketPtr
  handed : List Handover

/-- Each step has surroundings of its own, so the ports may answer differently every time. -/
inductive ForwardingStep
  | request (host : Host) (p : PacketPtr) (srcId : ℕ)
  | response (host : Host) (p : PacketPtr) (srcId : ℕ)
  | tick (host : Host)
  | scheduled (host : Host)
  | outside (a : Arena)

namespace Forwarding

def start (a : Arena) : Forwarding := ⟨{}, a, [], []⟩

def acceptedMiss (a : Arena) (p : PacketPtr) (ok : Bool) : List PacketPtr :=
  match a.heap.address p with
  | .ok addr => if ok ∧ ¬ CacheSim.isHit addr then [p] else []
  | .error _ => []

def handovers (host : Host) (a : Arena) (e : Effect CacheSim) : List Handover :=
  (e.calls.filterMap (·.taken host.sendReq)).map fun r =>
    ⟨r.1, r.2, a.heap.address r.2, host.downstreamPorts.length⟩

def forward (host : Host) (s : Forwarding) : Except MemoryFault Forwarding := do
  let e ← s.cache.tryForward host s.arena
  return { s with
    cache := e.state
    arena := e.arena
    handed := s.handed ++ handovers host s.arena e }

def step (s : Forwarding) : ForwardingStep → Except MemoryFault Forwarding
  | .request host p srcId => do
    let r ← s.cache.handleUpstreamRequest host p srcId s.arena
    return { s with
      cache := r.2.state
      arena := r.2.arena
      accepted := s.accepted ++ acceptedMiss s.arena p r.1
      handed := s.handed ++ handovers host s.arena r.2 }
  | .response host p srcId => do
    let r ← s.cache.handleDownstreamResponse host p srcId s.arena
    return { s with
      cache := r.2.state
      arena := r.2.arena
      handed := s.handed ++ handovers host s.arena r.2 }
  | .tick host => s.forward host
  | .scheduled host => s.forward host
  | .outside a => .ok { s with arena := a }

def run (s : Forwarding) (steps : List ForwardingStep) : Except MemoryFault Forwarding :=
  steps.foldlM step s

/-- What was accepted was handed on or waits, in the order of acceptance, and each request went
to the port that its address selects. -/
structure InOrder (s : Forwarding) : Prop where
  bounded : s.cache.reqBuffer.length ≤ 4
  conserved : s.handed.map (·.packet) ++ s.cache.reqBuffer = s.accepted
  routed : ∀ h ∈ s.handed, ∃ addr, h.address = .ok addr ∧ h.port = (addr >>> 8).toNat % h.ports

variable {host : Host} {s s' : Forwarding} {p : PacketPtr} {srcId : ℕ}

theorem inOrder_start (a : Arena) : (start a).InOrder :=
  ⟨Nat.zero_le 4, rfl, fun _ hh => absurd hh List.not_mem_nil⟩

theorem handovers_sendReq (a : Arena) {e : Effect CacheSim} {j : ℕ} (h : e.calls = [.sendReq j p]) :
    handovers host a e = if host.sendReq j p then
      [⟨j, p, a.heap.address p, host.downstreamPorts.length⟩] else [] := by
  rw [handovers, h, List.filterMap_cons]
  by_cases htook : host.sendReq j p
  · simp only [PortCall.taken, if_pos htook]
    rfl
  · simp only [PortCall.taken, if_neg htook]
    rfl

theorem handovers_nil (a : Arena) {e : Effect CacheSim} (h : e.calls = []) :
    handovers host a e = [] := by
  rw [handovers, h]
  rfl

theorem routeToDownstream_eq_ok {a : Arena} {j : ℕ}
    (h : CacheSim.routeToDownstream host p a = .ok (some j)) :
    ∃ addr, a.heap.address p = .ok addr ∧ j = (addr >>> 8).toNat % host.downstreamPorts.length := by
  unfold CacheSim.routeToDownstream at h
  split_ifs at h
  · cases h
  · obtain ⟨addr, haddr, hend⟩ := bind_pure_eq_ok.mp h
    exact ⟨addr, haddr, (Option.some.inj hend).symm⟩

theorem forward_eq_ok (h : s.forward host = .ok s') :
    s' = s ∨ ∃ x rest addr, s.cache.reqBuffer = x :: rest ∧ s.arena.heap.address x = .ok addr ∧
      s' = { s with
        cache := ⟨rest⟩
        handed := s.handed ++ [⟨(addr >>> 8).toNat % host.downstreamPorts.length, x, .ok addr,
          host.downstreamPorts.length⟩] } := by
  obtain ⟨e, he, rfl⟩ := bind_pure_eq_ok.mp h
  obtain ⟨harena, -, ⟨hstate, hcalls⟩ | ⟨x, rest, j, hbuf, hroute, hcalls, hstate⟩⟩ :=
    CacheSim.tryForward_eq_ok he
  · left
    rw [hstate, harena, handovers_nil _ hcalls, List.append_nil]
  · obtain ⟨addr, haddr, rfl⟩ := routeToDownstream_eq_ok hroute
    rw [hstate, harena, handovers_sendReq _ hcalls, haddr]
    split_ifs
    · exact .inr ⟨x, rest, addr, hbuf, haddr, rfl⟩
    · left
      rw [List.append_nil]

theorem InOrder.forward (hs : s.InOrder) (h : s.forward host = .ok s') : s'.InOrder := by
  rcases forward_eq_ok h with rfl | ⟨x, rest, addr, hbuf, -, rfl⟩
  · exact hs
  · have hlen := hs.bounded
    have hall := hs.conserved
    rw [hbuf] at hlen hall
    refine ⟨(Nat.le_succ _).trans hlen, ?_, ?_⟩
    · rw [← hall, List.map_append, List.append_assoc]
      rfl
    · intro g hg
      rcases List.mem_append.mp hg with hold | hnew
      · exact hs.routed g hold
      · obtain rfl := List.mem_singleton.mp hnew
        exact ⟨addr, rfl, rfl⟩

theorem request_eq_ok (h : s.step (.request host p srcId) = .ok s') :
    (∃ a, s' = { s with arena := a }) ∨
      (s.cache.reqBuffer.length < 4 ∧
        s' = { s with cache := ⟨s.cache.reqBuffer ++ [p]⟩, accepted := s.accepted ++ [p] }) := by
  obtain ⟨⟨ok, e⟩, he, rfl⟩ := bind_pure_eq_ok.mp h
  have hnone : acceptedMiss s.arena p false = [] := by
    unfold acceptedMiss
    split <;> rfl
  rcases CacheSim.handleUpstreamRequest_eq_ok he with
    ⟨-, rfl, -, heq⟩ | ⟨hroom, rfl, addr, haddr, ⟨hhit, r, -, -, heq⟩ | ⟨hmiss, heq⟩⟩
  · rw [handovers_nil _ (by rw [heq]), hnone, heq, List.append_nil, List.append_nil]
    exact .inl ⟨e.arena, rfl⟩
  · have hhitNone : acceptedMiss s.arena p true = [] := by simp [acceptedMiss, haddr, hhit]
    rw [handovers_nil _ (by rw [heq]), hhitNone, heq, List.append_nil, List.append_nil]
    exact .inl ⟨e.arena, rfl⟩
  · have hmissed : acceptedMiss s.arena p true = [p] := by simp [acceptedMiss, haddr, hmiss]
    rw [handovers_nil _ (by rw [heq]), hmissed, heq, List.append_nil]
    exact .inr ⟨hroom, rfl⟩

theorem InOrder.step {a : ForwardingStep} (hs : s.InOrder) (h : s.step a = .ok s') : s'.InOrder := by
  cases a with
  | request host p srcId =>
    rcases request_eq_ok h with ⟨a, rfl⟩ | ⟨hroom, rfl⟩
    · exact ⟨hs.bounded, hs.conserved, hs.routed⟩
    · refine ⟨?_, ?_, hs.routed⟩
      · rw [List.length_append]
        exact hroom
      · rw [← hs.conserved, List.append_assoc]
  | response host p srcId =>
    obtain ⟨⟨ok, e⟩, he, rfl⟩ := bind_pure_eq_ok.mp h
    obtain ⟨orig, r, -, -, -, heq⟩ := CacheSim.handleDownstreamResponse_eq_ok he
    rw [handovers_nil _ (by rw [heq]), heq, List.append_nil]
    exact ⟨hs.bounded, hs.conserved, hs.routed⟩
  | tick host => exact hs.forward h
  | scheduled host => exact hs.forward h
  | outside a =>
    obtain rfl := Except.ok.inj h
    exact ⟨hs.bounded, hs.conserved, hs.routed⟩

theorem accepts_miss_iff {c : CacheSim} {a : Arena} {addr : UInt64} (haddr : a.heap.address p = .ok addr)
    (hmiss : CacheSim.isHit addr = false) :
    (∃ e, c.handleUpstreamRequest host p srcId a = .ok (true, e)) ↔ c.reqBuffer.length < 4 := by
  constructor
  · rintro ⟨e, he⟩
    rcases CacheSim.handleUpstreamRequest_eq_ok he with ⟨-, hok, -⟩ | ⟨hroom, -⟩
    · cases hok
    · exact hroom
  · intro hroom
    have hnotFull : ¬ CacheSim.maxBuffer ≤ c.reqBuffer.length := not_le.mpr hroom
    refine ⟨⟨⟨c.reqBuffer ++ [p]⟩, a, [], [(.tryForward, 1)]⟩, ?_⟩
    rw [CacheSim.handleUpstreamRequest, if_neg hnotFull, haddr]
    simp only [bind, Except.bind, hmiss]
    rfl

/-- However requests, ticks and scheduled events follow each other, and whatever the ports
answer, the accepted misses are handed on once each and in order. -/
theorem misses_forwarded_in_order {a : Arena} {steps : List ForwardingStep}
    (h : (start a).run steps = .ok s) :
    s.InOrder ∧ ∀ host p srcId addr, s.arena.heap.address p = .ok addr → CacheSim.isHit addr = false →
      ((∃ e, s.cache.handleUpstreamRequest host p srcId s.arena = .ok (true, e)) ↔
        s.cache.reqBuffer.length < 4) := by
  constructor
  · exact foldlM_invariant InOrder h (inOrder_start a) fun _ _ _ _ hs hstep => hs.step hstep
  · intro host p srcId addr haddr hmiss
    exact accepts_miss_iff haddr hmiss

def twoMisses : Arena where
  heap := { Heap.empty with
    packet := fun p => { payload := some p }
    payload := fun q => ⟨if q = 0 then 0x101 else 0x203, 4⟩
    nextPacket := 2
    nextPayload := 2 }
  pool := {}
  live := {0, 1}

def threePorts (answer : Bool) : Host :=
  ⟨0, [], (List.range 3).map fun i => .new i [1] [] "", fun _ _ => answer, 0, 0⟩

def refusedOnce : List ForwardingStep :=
  [.request (threePorts true) 0 0, .tick (threePorts false), .request (threePorts true) 1 0,
    .scheduled (threePorts true)]

/-- The first miss is refused by its port once, and the event of the second sends the first. -/
theorem misses_forwarded_in_order_refused :
    ∃ s, (start twoMisses).run refusedOnce = .ok s ∧ s.handed.map (·.port) = [1] ∧ s.InOrder := by
  have hrun : ∃ s, (start twoMisses).run refusedOnce = .ok s ∧ s.handed.map (·.port) = [1] :=
    exists_ok_of_map rfl
  obtain ⟨s, hs, hport⟩ := hrun
  exact ⟨s, hs, hport, (misses_forwarded_in_order hs).1⟩

end Forwarding
end GemSc
