import GemSc.Link.Tick
import GemSc.Modules.Interconnects
import GemSc.Modules.Inversion

/-! The modules as `SimObject`s, and what one `tick` of an object does for its ports. -/

namespace GemSc
open ExceptFold

inductive Module
  | cpuSim (c : CPUSim)
  | cacheSim (c : CacheSim)
  | memorySim (m : MemorySim)
  | crossbar (x : Crossbar)
  | arbiter (x : Arbiter)
  | router (r : Router)
  | trafficGenerator (g : TrafficGenerator)

namespace Module

def tick (host : Host) (a : Arena) : Module → Except MemoryFault (Effect Module)
  | cpuSim c => (c.tick host a).map (·.map cpuSim)
  | cacheSim c => (c.tick host a).map (·.map cacheSim)
  | memorySim m => (m.tick a).map (·.map memorySim)
  | crossbar x => (x.tick host a).map (·.map crossbar)
  | arbiter x => (x.tick host a).map (·.map arbiter)
  | router r => (r.tick a).map (·.map router)
  | trafficGenerator g => (g.tick host a).map (·.map trafficGenerator)

end Module

namespace PortCall

def offers (host : Host) (answer : ℕ → PacketPtr → Bool) (i : ℕ) : PortCall → List Offer
  | upstreamTick j => if j = i then (host.upstreamPorts[i]?.map fun u => (u.tick answer).2).getD [] else []
  | downstreamTick _ => []
  | sendReq _ _ => []
  | sendResp _ _ => []

def attempts (host : Host) (j : ℕ) : PortCall → List ℕ
  | downstreamTick i => if i = j then (host.downstreamPorts[j]?.map fun d =>
      (List.range d.outputVcs.length).filter fun k => d.buffer k ≠ []).getD [] else []
  | upstreamTick _ => []
  | sendReq _ _ => []
  | sendResp _ _ => []

end PortCall

/-- The calls offer the head of each non-empty input VC and attempt each non-empty output VC. -/
structure Serviced (host : Host) (answer : ℕ → PacketPtr → Bool) (calls : List PortCall) : Prop where
  offered : ∀ i u k p, host.upstreamPorts[i]? = some u → (u.buffer k).head? = some p →
    ∃ f ∈ calls.flatMap (PortCall.offers host answer i), f.vc = k ∧ f.packet = p
  attempted : ∀ j d k, host.downstreamPorts[j]? = some d → d.buffer k ≠ [] →
    k ∈ calls.flatMap (PortCall.attempts host j)

structure Host.Idle (host : Host) : Prop where
  upstream : ∀ u ∈ host.upstreamPorts, ∀ k, u.buffer k = []
  downstream : ∀ d ∈ host.downstreamPorts, ∀ k, d.buffer k = []

variable {host : Host} {answer : ℕ → PacketPtr → Bool} {a : Arena}

theorem serviced_of_port_ticks {calls : List PortCall}
    (hup : ∀ i < host.upstreamPorts.length, .upstreamTick i ∈ calls)
    (hdown : ∀ j < host.downstreamPorts.length, .downstreamTick j ∈ calls) :
    Serviced host answer calls := by
  constructor
  · intro i u k p hu hp
    have hi := (List.getElem?_eq_some_iff.mp hu).1
    have hoffers := UpstreamPort.filter_offers_tickVcs answer 0 u.inputVcs k
    rw [Nat.zero_add] at hoffers
    have hhead : u.inputVcs[k]?.bind (·.buffer.head?) = some p := by
      rw [UpstreamPort.buffer] at hp
      cases hvc : u.inputVcs[k]? with
      | none => simp [hvc] at hp
      | some vc => simpa [hvc] using hp
    rw [hhead] at hoffers
    have hmem : (⟨k, p, answer k p⟩ : Offer) ∈ (u.tick answer).2 := by
      have hin : (⟨k, p, answer k p⟩ : Offer) ∈
          (UpstreamPort.tickVcs answer 0 u.inputVcs).2.filter (fun f => f.vc = k) := by
        rw [hoffers]
        exact List.mem_singleton_self _
      exact (List.mem_filter.mp hin).1
    refine ⟨⟨k, p, answer k p⟩, List.mem_flatMap.mpr ⟨_, hup i hi, ?_⟩, rfl, rfl⟩
    simpa [PortCall.offers, hu] using hmem
  · intro j d k hd hk
    have hj := (List.getElem?_eq_some_iff.mp hd).1
    have hlt : k < d.outputVcs.length := by
      by_contra hge
      have hnone : d.outputVcs[k]? = none := List.getElem?_eq_none (not_lt.mp hge)
      exact hk (by rw [DownstreamPort.buffer, hnone]; rfl)
    refine List.mem_flatMap.mpr ⟨_, hdown j hj, ?_⟩
    simpa [PortCall.attempts, hd, hlt] using hk

def SendsOnly (calls : List PortCall) : Prop := ∀ c ∈ calls, ∃ j p, c = .sendReq j p

theorem sendsOnly_nil : SendsOnly [] := fun _ h => nomatch h

theorem sendsOnly_singleton (j : ℕ) (p : PacketPtr) : SendsOnly [.sendReq j p] := by
  intro c hc
  exact ⟨j, p, List.mem_singleton.mp hc⟩

theorem CPUSim.sendsOnly_tick {c : CPUSim} {e : Effect CPUSim} (h : c.tick host a = .ok e) :
    SendsOnly e.calls := by
  rcases CPUSim.tick_eq_ok h with rfl | ⟨x, b, -, -, hcalls, -⟩
  · exact sendsOnly_nil
  · rw [hcalls]
    exact sendsOnly_singleton _ _

theorem TrafficGenerator.sendsOnly_tick {g : TrafficGenerator} {e : Effect TrafficGenerator}
    (h : g.tick host a = .ok e) : SendsOnly e.calls := by
  rcases TrafficGenerator.tick_eq_ok h with ⟨-, rfl⟩ | ⟨-, ⟨-, rfl⟩ | ⟨addr, b, -, -, heq, -⟩⟩
  · exact sendsOnly_nil
  · exact sendsOnly_nil
  · rw [heq]
    exact sendsOnly_singleton _ _

theorem CacheSim.sendsOnly_tick {c : CacheSim} {e : Effect CacheSim} (h : c.tick host a = .ok e) :
    SendsOnly e.calls := by
  obtain ⟨-, -, ⟨-, hcalls⟩ | ⟨x, rest, j, -, -, hcalls, -⟩⟩ := CacheSim.tryForward_eq_ok h
  · rw [hcalls]
    exact sendsOnly_nil
  · rw [hcalls]
    exact sendsOnly_singleton j x

theorem Crossbar.sendsOnly_tick {x : Crossbar} {e : Effect Crossbar} (h : x.tick host a = .ok e) :
    SendsOnly e.calls := by
  rcases Crossbar.tick_eq_ok h with
    ⟨-, rfl⟩ | ⟨pkt, src, rest, -, ⟨-, -, heq⟩ | ⟨-, addr, dst, -, -, rfl⟩⟩
  · exact sendsOnly_nil
  · rw [heq]
    exact sendsOnly_nil
  · exact sendsOnly_singleton _ _

theorem Arbiter.sendsOnly_tick {x : Arbiter} {e : Effect Arbiter} (h : x.tick host a = .ok e) :
    SendsOnly e.calls := by
  rcases Arbiter.tick_eq_ok h with ⟨-, rfl⟩ | ⟨pkt, src, rest, -, ⟨-, rfl⟩ | ⟨-, rfl⟩⟩
  · exact sendsOnly_nil
  · exact sendsOnly_nil
  · exact sendsOnly_singleton _ _

theorem map_eq_ok {σ τ : Type} {x : Except MemoryFault (Effect σ)} {f : σ → τ} {e : Effect τ}
    (h : x.map (·.map f) = .ok e) : ∃ e', x = .ok e' ∧ e.calls = e'.calls := by
  cases x with
  | error err => cases h
  | ok e' =>
    obtain rfl := Except.ok.inj h
    exact ⟨e', rfl, rfl⟩

/-- No module ticks a port: its `tick` makes no port call but direct sends. -/
theorem Module.sendsOnly_tick {m : Module} {e : Effect Module} (h : m.tick host a = .ok e) :
    SendsOnly e.calls := by
  cases m with
  | cpuSim c =>
    obtain ⟨e', he', hcalls⟩ := map_eq_ok h
    exact hcalls ▸ CPUSim.sendsOnly_tick he'
  | cacheSim c =>
    obtain ⟨e', he', hcalls⟩ := map_eq_ok h
    exact hcalls ▸ CacheSim.sendsOnly_tick he'
  | memorySim m =>
    obtain rfl := Except.ok.inj h
    exact sendsOnly_nil
  | crossbar x =>
    obtain ⟨e', he', hcalls⟩ := map_eq_ok h
    exact hcalls ▸ Crossbar.sendsOnly_tick he'
  | arbiter x =>
    obtain ⟨e', he', hcalls⟩ := map_eq_ok h
    exact hcalls ▸ Arbiter.sendsOnly_tick he'
  | router r =>
    obtain rfl := Except.ok.inj h
    exact sendsOnly_nil
  | trafficGenerator g =>
    obtain ⟨e', he', hcalls⟩ := map_eq_ok h
    exact hcalls ▸ TrafficGenerator.sendsOnly_tick he'

/-- One `tick` of an object that returned, with the ports as it found them. -/
structure TickCall where
  host : Host
  object : Module
  arena : Arena
  effect : Effect Module
  returns : object.tick host arena = .ok effect

theorem TickCall.offers_eq_nil (t : TickCall) (i : ℕ) :
    t.effect.calls.flatMap (PortCall.offers t.host answer i) = [] := by
  rw [List.flatMap_eq_nil_iff]
  intro c hc
  obtain ⟨j, p, rfl⟩ := Module.sendsOnly_tick t.returns c hc
  rfl

theorem TickCall.attempts_eq_nil (t : TickCall) (j : ℕ) :
    t.effect.calls.flatMap (PortCall.attempts t.host j) = [] := by
  rw [List.flatMap_eq_nil_iff]
  intro c hc
  obtain ⟨i, p, rfl⟩ := Module.sendsOnly_tick t.returns c hc
  rfl

/-- The ticks of a run service the ports exactly when there is never a packet in any VC. -/
theorem serviced_iff_idle (answer : ℕ → PacketPtr → Bool) (run : List TickCall) :
    (∀ t ∈ run, Serviced t.host answer t.effect.calls) ↔ ∀ t ∈ run, t.host.Idle := by
  refine forall₂_congr fun t _ => ?_
  constructor
  · intro h
    constructor
    · intro u hu k
      obtain ⟨i, hi⟩ := List.getElem?_of_mem hu
      cases hbuf : u.buffer k with
      | nil => rfl
      | cons p rest =>
        obtain ⟨f, hf, -⟩ := h.offered i u k p hi (by simp [hbuf])
        rw [t.offers_eq_nil] at hf
        cases hf
    · intro d hd k
      obtain ⟨j, hj⟩ := List.getElem?_of_mem hd
      by_contra hne
      have hk := h.attempted j d k hj hne
      rw [t.attempts_eq_nil] at hk
      cases hk
  · intro h
    constructor
    · intro i u k p hu hp
      rw [h.upstream u (List.mem_of_getElem? hu) k] at hp
      cases hp
    · intro j d k hd hk
      exact absurd (h.downstream d (List.mem_of_getElem? hd) k) hk

def waitingPort : UpstreamPort :=
  { UpstreamPort.new 0 [4] [] "" with
    inputVcs := [{ id := 0, priority := 0, buffer := [0], capacity := 4 }] }

def waitingTick : TickCall where
  host := ⟨0, [waitingPort], [], fun _ _ => false, 0, 0⟩
  object := .memorySim ⟨⟩
  arena := .empty
  effect := ⟨.memorySim ⟨⟩, .empty, [], []⟩
  returns := rfl

/-- A request waits in the VC of a `MemorySim`; the tick of the memory offers it to nobody. -/
theorem tick_offers_nothing : ¬ Serviced waitingTick.host (fun _ _ => true) waitingTick.effect.calls := by
  intro h
  obtain ⟨f, hf, -⟩ := h.offered 0 waitingPort 0 0 rfl rfl
  cases hf

end GemSc
