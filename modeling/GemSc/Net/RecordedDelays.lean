import GemSc.Core.AverageDelay
import GemSc.Core.EventRun
import GemSc.Modules.IssueCycles

/-! Networks of modules on one event queue: the delays that their ports record. What links pass on,
and when the VCs offer it, is left open, and so is what other code does with the pool. -/

namespace GemSc
open ExceptFold Function

/-- `Packet::getEnd2EndCycles` -/
def Memory.getEnd2EndCycles (m : Memory) (p : PacketPtr) : UInt64 :=
  match (m.packet p).originalReq with
  | none => (m.packet p).getDelayCycles
  | some q => (m.packet p).dstCycle - (m.packet q).srcCycle

/-- The events that modules schedule: `TickEvent`s and the `LambdaEvent`s of a module. -/
inductive ModuleEvent
  | tick (i : ℕ)
  | task (i : ℕ) (t : Task)
  | other

/-- What happens to the module of number `i` and to its ports. Each call has a host of its own, that
sees the current cycle. -/
inductive ModuleAction
  | tick (i : ℕ) (host : Host)
  | request (i port : ℕ) (p : PacketPtr) (host : Host)
  /-- `recv` of a downstream port, which hands the packet to its owner. -/
  | deliver (i port : ℕ) (p : PacketPtr) (host : Host)
  /-- `recv` of an upstream port. -/
  | receive (i port : ℕ) (p : PacketPtr)
  /-- `send` of a downstream port or `sendResp` of an upstream port. -/
  | count (k : PortKind) (i port : ℕ) (p : PacketPtr)
  | acquire
  | release (p : PacketPtr)
  | schedule (ev : ModuleEvent) (delay : UInt64)

/-- What an event meets: the host of its own call, and what else happens in it. -/
structure Turn where
  host : Host
  actions : List ModuleAction

/-- A packet that a downstream port received, with the memory as it was before. -/
structure Delivery where
  cycle : UInt64
  memory : Memory
  packet : PacketPtr

/-- A fault ends the run. -/
structure ModuleWorld where
  arena : Arena
  modules : ℕ → Module
  stats : PortKind → ℕ → ℕ → PortStats
  script : ℕ → Turn
  deliveries : List Delivery
  fault : Option MemoryFault

namespace ModuleWorld

def updatePort (k : PortKind) (i port : ℕ) (u : PortUpdate) (w : ModuleWorld) : ModuleWorld :=
  let r := u.act k w.arena.heap.toMemory (w.stats k i port)
  { w with
    arena := { w.arena with heap := { w.arena.heap with toMemory := r.1 } }
    stats := update w.stats k (update (w.stats k) i (update (w.stats k i) port r.2)) }

def log (now : UInt64) (p : PacketPtr) (w : ModuleWorld) : ModuleWorld :=
  { w with deliveries := w.deliveries ++ [⟨now, w.arena.heap.toMemory, p⟩] }

def absorb (i : ℕ) (r : Except MemoryFault (Effect Module)) (w : ModuleWorld) :
    ModuleWorld × List (ModuleEvent × UInt64) :=
  match r with
  | .error f => ({ w with fault := some f }, [])
  | .ok e => ({ w with arena := e.arena, modules := update w.modules i e.state },
      e.scheduled.map fun t => (.task i t.1, t.2))

def pool (r : Except MemoryFault Arena) (w : ModuleWorld) : ModuleWorld :=
  match r with
  | .error f => { w with fault := some f }
  | .ok a => { w with arena := a }

def act (now : UInt64) (w : ModuleWorld) : ModuleAction → ModuleWorld × List (ModuleEvent × UInt64)
  | .tick i host => w.absorb i ((w.modules i).tick { host with now } w.arena)
  | .request i port p host =>
    w.absorb i (((w.modules i).handleUpstreamRequest { host with now } p port w.arena).map (·.2))
  | .deliver i port p host =>
    let w := (w.log now p).updatePort .master i port (.recv now p)
    w.absorb i (((w.modules i).handleDownstreamResponse { host with now } p port w.arena).map (·.2))
  | .receive i port p => (w.updatePort .slave i port (.recv now p), [])
  | .count k i port p => (w.updatePort k i port (.send p), [])
  | .acquire => (w.pool (w.arena.acquire.map (·.2)), [])
  | .release p => (w.pool (w.arena.release p), [])
  | .schedule ev delay => (w, [(ev, delay)])

def perform (now : UInt64) (w : ModuleWorld) :
    List ModuleAction → ModuleWorld × List (ModuleEvent × UInt64)
  | [] => (w, [])
  | x :: xs =>
    if w.fault.isSome then (w, [])
    else
      let r := w.act now x
      let rest := r.1.perform now xs
      (rest.1, r.2 ++ rest.2)

end ModuleWorld

/-- The body of an event. `pair` leads from the upstream port of a module to the downstream port
that it is bound to. -/
def ModuleEvent.actions (pair : ℕ → ℕ → Option (ℕ × ℕ)) (host : Host) :
    ModuleEvent → List ModuleAction
  | .tick i => [.tick i host, .schedule (.tick i) 1]
  | .task i .tryForward => [.tick i host]
  | .task i (.sendResp port p) =>
    .count .slave i port p :: ((pair i port).map fun d => .deliver d.1 d.2 p host).toList
  | .other => []

namespace ModuleWorld
variable (pair : ℕ → ℕ → Option (ℕ × ℕ))

def process : Process ModuleEvent ModuleWorld := fun ev now w =>
  let turn := w.script 0
  { w with script := fun n => w.script (n + 1) }.perform now
    (ev.actions pair turn.host ++ turn.actions)

/-- What a program reaches from an empty pool by acting between the runs of the queue and in them,
with no cycle sum reaching `2 ^ 64`. -/
inductive Reached : Sim ModuleEvent ModuleWorld → Prop
  | start (modules : ℕ → Module) (script : ℕ → Turn) :
      Reached ⟨.new, ⟨.empty, modules, fun _ _ _ => {}, script, [], none⟩⟩
  | act {s : Sim ModuleEvent ModuleWorld} (xs : List ModuleAction) : Reached s →
      (∀ r ∈ (s.state.perform s.queue.curCycle xs).2,
        s.queue.curCycle.toNat + r.2.toNat < 2 ^ 64) →
      Reached ⟨s.queue.scheduleAll (s.state.perform s.queue.curCycle xs).2,
        (s.state.perform s.queue.curCycle xs).1⟩
  | run {s t : Sim ModuleEvent ModuleWorld} {n : UInt64} {fuel : ℕ}
      {trace : List (Processed ModuleEvent)} : Reached s →
      s.queue.curCycle.toNat + n.toNat < 2 ^ 64 →
      Sim.run (process pair) n fuel s = some (t, trace) → (∀ p ∈ trace, p.NoWrap) → Reached t

end ModuleWorld

/-- A response is delivered no earlier than its request was issued, and the cycles between are the
delay that the port records and that `getEnd2EndCycles` returns. -/
structure Delivery.Exact (d : Delivery) (q : PacketPtr) : Prop where
  issued : (d.memory.packet q).srcCycle ≤ d.cycle
  recorded : ∃ delay, delay.toNat = d.cycle.toNat - (d.memory.packet q).srcCycle.toNat ∧
    delay ≤ d.cycle ∧ (d.memory.setDstCycle d.packet d.cycle).getEnd2EndCycles d.packet = delay ∧
      ∀ s, (MasterPort.updateStats d.cycle d.packet d.memory s).2 =
        { s with
          respCount := s.respCount + 1
          byteCount := s.byteCount + d.memory.dataLength d.packet }.recordDelay delay

/-- No packet was issued in the future, each response that was delivered up to now had an exact
delay, and no port recorded a delay above the current cycle. -/
structure ModuleWorld.Punctual (now : UInt64) (w : ModuleWorld) : Prop where
  issued : ∀ p, (w.arena.heap.packet p).srcCycle ≤ now
  delivered : ∀ d ∈ w.deliveries, d.cycle ≤ now ∧ ∀ q, (d.memory.packet d.packet).type = .resp →
    (d.memory.packet d.packet).originalReq = some q → d.Exact q
  recorded : ∀ k i port, (w.stats k i port).maxDelay ≤ now

variable {now : UInt64} {m : Memory} {p q : PacketPtr}

theorem Memory.srcCycle_setDstCycle (m : Memory) (p : PacketPtr) (cycle : UInt64) (x : PacketPtr) :
    ((m.setDstCycle p cycle).packet x).srcCycle = (m.packet x).srcCycle := by
  rw [packet_setDstCycle]
  split_ifs with h
  · rw [h]
  · rfl

theorem sub_le_self_of_le {a b : UInt64} (h : b ≤ a) : a - b ≤ a := by
  rw [UInt64.le_iff_toNat_le, UInt64.toNat_sub_of_le _ _ h]
  exact Nat.sub_le _ _

namespace PortUpdate

theorem sample_le (hissued : ∀ q, (m.packet q).srcCycle ≤ now) {k : PortKind} {delay : UInt64}
    (h : sample k (.recv now p) m = some delay) : delay ≤ now := by
  cases k with
  | master =>
    rw [sample] at h
    split at h
    · obtain ⟨q, -, rfl⟩ := Option.map_eq_some_iff.mp h
      exact sub_le_self_of_le (hissued q)
    · cases h
  | slave =>
    rw [sample] at h
    split at h
    · obtain rfl := Option.some.inj h
      have hdelay : ({ m.packet p with dstCycle := now } : Packet).getDelayCycles =
          now - (m.packet p).srcCycle := if_pos (hissued p)
      rw [hdelay]
      exact sub_le_self_of_le (hissued p)
    · cases h

theorem maxDelay_act {k : PortKind} {u : PortUpdate} {s : PortStats} (hs : s.maxDelay ≤ now)
    (hsample : ∀ delay, u.sample k m = some delay → delay ≤ now) :
    (u.act k m s).2.maxDelay ≤ now := by
  have hshare : (u.share k m).maxDelay.toNat =
      (((u.sample k m).toList ++ []).map UInt64.toNat).foldr max 0 :=
    (tallies_act k u m PortStats.tallies_fresh).upper
  have hmerge : (u.act k m s).2 = s.merge (u.share k m) := congrArg Prod.snd (act_eq k u m s)
  rw [hmerge, UInt64.le_iff_toNat_le, PortStats.toNat_maxDelay_merge, hshare]
  refine max_le (UInt64.le_iff_toNat_le.mp hs) ?_
  cases hdelay : u.sample k m with
  | none => exact Nat.zero_le _
  | some delay => exact max_le (UInt64.le_iff_toNat_le.mp (hsample delay hdelay)) (Nat.zero_le _)

end PortUpdate

theorem Delivery.exact_of_issued (hissued : ∀ q, (m.packet q).srcCycle ≤ now)
    (htype : (m.packet p).type = .resp) (horig : (m.packet p).originalReq = some q) :
    Exact ⟨now, m, p⟩ q := by
  have hself : (m.setDstCycle p now).packet p = { m.packet p with dstCycle := now } := by
    rw [Memory.packet_setDstCycle, if_pos rfl]
  refine ⟨hissued q, now - (m.packet q).srcCycle, ?_, ?_, ?_, ?_⟩
  · exact UInt64.toNat_sub_of_le _ _ (hissued q)
  · exact sub_le_self_of_le (hissued q)
  · unfold Memory.getEnd2EndCycles
    rw [hself]
    simp only [horig]
    rw [Memory.srcCycle_setDstCycle]
  · exact MasterPort.updateStats_response htype horig now

namespace ModuleWorld
variable {pair : ℕ → ℕ → Option (ℕ × ℕ)} {w : ModuleWorld}

theorem Punctual.mono {now' : UInt64} (h : w.Punctual now) (hle : now ≤ now') : w.Punctual now' :=
  ⟨fun p => UInt64.le_trans (h.issued p) hle,
    fun d hd => ⟨UInt64.le_trans (h.delivered d hd).1 hle, (h.delivered d hd).2⟩,
    fun k i port => UInt64.le_trans (h.recorded k i port) hle⟩

theorem Punctual.log (h : w.Punctual now) (p : PacketPtr) : (w.log now p).Punctual now := by
  refine ⟨h.issued, ?_, h.recorded⟩
  change ∀ d ∈ w.deliveries ++ [⟨now, w.arena.heap.toMemory, p⟩], _
  rw [List.forall_mem_append, List.forall_mem_singleton]
  refine ⟨h.delivered, UInt64.le_refl _, fun q htype horig => ?_⟩
  exact Delivery.exact_of_issued h.issued htype horig

theorem Punctual.updatePort (h : w.Punctual now) (k : PortKind) (i port : ℕ) {u : PortUpdate}
    (hu : ∀ delay, u.sample k w.arena.heap.toMemory = some delay → delay ≤ now) :
    (w.updatePort k i port u).Punctual now := by
  refine ⟨fun p => ?_, h.delivered, ?_⟩
  · have hmem : (w.updatePort k i port u).arena.heap.toMemory = u.memory w.arena.heap.toMemory := by
      change (u.act k w.arena.heap.toMemory (w.stats k i port)).1 = _
      rw [PortUpdate.act_eq]
    rw [hmem]
    cases u with
    | recv cycle x =>
      change ((w.arena.heap.toMemory.setDstCycle x cycle).packet p).srcCycle ≤ now
      rw [Memory.srcCycle_setDstCycle]
      exact h.issued p
    | send x => exact h.issued p
  · let r := u.act k w.arena.heap.toMemory (w.stats k i port)
    have hact : r.2.maxDelay ≤ now := PortUpdate.maxDelay_act (h.recorded k i port) hu
    have hport : ∀ x, (update (w.stats k i) port r.2 x).maxDelay ≤ now :=
      (forall_update_iff _ fun _ (s : PortStats) => s.maxDelay ≤ now).mpr
        ⟨hact, fun x _ => h.recorded k i x⟩
    have hmodule : ∀ j x, (update (w.stats k) i (update (w.stats k i) port r.2) j x).maxDelay ≤ now :=
      (forall_update_iff _ fun _ (f : ℕ → PortStats) => ∀ x, (f x).maxDelay ≤ now).mpr
        ⟨hport, fun j _ => h.recorded k j⟩
    exact (forall_update_iff _ fun _ (f : ℕ → ℕ → PortStats) => ∀ j x, (f j x).maxDelay ≤ now).mpr
      ⟨hmodule, fun k' _ => h.recorded k'⟩

theorem Punctual.reissued {a : Arena} (h : w.Punctual now) (ha : w.arena.Reissued now a)
    (modules : ℕ → Module) : Punctual now { w with arena := a, modules := modules } := by
  refine ⟨fun p => ?_, h.delivered, h.recorded⟩
  rcases ha p with hsame | hnow | hzero
  · exact UInt64.le_trans (UInt64.le_of_eq hsame) (h.issued p)
  · exact UInt64.le_of_eq hnow
  · rw [hzero]
    exact UInt64.le_iff_toNat_le.mpr (Nat.zero_le _)

theorem Punctual.faulted (h : w.Punctual now) (f : MemoryFault) :
    Punctual now { w with fault := some f } := ⟨h.issued, h.delivered, h.recorded⟩

theorem Punctual.absorb {i : ℕ} {r : Except MemoryFault (Effect Module)} (h : w.Punctual now)
    (hr : ∀ e, r = .ok e → w.arena.Reissued now e.arena) : (w.absorb i r).1.Punctual now := by
  cases r with
  | error f => exact h.faulted f
  | ok e => exact h.reissued (hr e rfl) _

theorem Punctual.pool {r : Except MemoryFault Arena} (h : w.Punctual now)
    (hr : ∀ a, r = .ok a → w.arena.Reissued now a) : (w.pool r).Punctual now := by
  cases r with
  | error f => exact h.faulted f
  | ok a => exact h.reissued (hr a rfl) w.modules

theorem map_snd_eq_ok {α β : Type} {r : Except MemoryFault (α × β)} {y : β}
    (h : r.map (·.2) = .ok y) : ∃ x, r = .ok (x, y) := by
  cases r with
  | error f => cases h
  | ok x =>
    obtain rfl := Except.ok.inj h
    exact ⟨x.1, rfl⟩

theorem Punctual.act (h : w.Punctual now) (x : ModuleAction) : (w.act now x).1.Punctual now := by
  cases x with
  | tick i host => exact h.absorb fun e he => Module.reissued_tick he
  | request i port p host =>
    refine h.absorb fun e he => ?_
    obtain ⟨ok, hcall⟩ := map_snd_eq_ok he
    exact Module.reissued_request hcall
  | deliver i port p host =>
    have hrecv : ((w.log now p).updatePort .master i port (.recv now p)).Punctual now :=
      (h.log p).updatePort .master i port fun delay hdelay => PortUpdate.sample_le h.issued hdelay
    refine hrecv.absorb fun e he => ?_
    obtain ⟨ok, hcall⟩ := map_snd_eq_ok he
    exact Module.reissued_response hcall
  | receive i port p =>
    exact h.updatePort .slave i port fun delay hdelay => PortUpdate.sample_le h.issued hdelay
  | count k i port p =>
    refine h.updatePort k i port fun delay hdelay => ?_
    cases k <;> cases hdelay
  | acquire =>
    refine h.pool fun a ha => ?_
    obtain ⟨x, hcall⟩ := map_snd_eq_ok ha
    exact (Arena.acquired hcall).reissued
  | release p => exact h.pool fun a ha => Arena.reissued_release ha
  | schedule ev delay => exact h

theorem Punctual.perform (h : w.Punctual now) (xs : List ModuleAction) :
    (w.perform now xs).1.Punctual now := by
  induction xs generalizing w with
  | nil => exact h
  | cons x xs ih =>
    rw [ModuleWorld.perform]
    split
    · exact h
    · exact ih (h.act x)

theorem Punctual.process (h : w.Punctual now) (body : ModuleEvent) :
    (ModuleWorld.process pair body now w).1.Punctual now := by
  have hscript : Punctual now { w with script := fun n => w.script (n + 1) } :=
    ⟨h.issued, h.delivered, h.recorded⟩
  exact hscript.perform _

theorem Reached.punctual {s : Sim ModuleEvent ModuleWorld} (h : Reached pair s) :
    s.queue.Pending ∧ s.state.Punctual s.queue.curCycle := by
  induction h with
  | start modules script =>
    exact ⟨EventQueue.pending_new, fun p => UInt64.le_refl 0,
      fun d hd => absurd hd List.not_mem_nil, fun k i port => UInt64.le_refl 0⟩
  | act xs _ hwrap ih =>
    refine ⟨ih.1.scheduleAll _ hwrap, ?_⟩
    rw [EventQueue.scheduleAll_curCycle]
    exact ih.2.perform xs
  | run _ hn hrun hwrap ih =>
    refine ⟨Sim.pending_run ih.1 hrun hwrap, ?_⟩
    exact Sim.run_invariant (P := fun now w => Punctual now w) (fun _ _ _ hle hw => hw.mono hle)
      (fun body _ _ hw => hw.process body) ih.1 ih.2 hn hrun hwrap

/-- In every network of the modules the delay of each response that is delivered is the number of
cycles since its original request was issued, and no recorded delay exceeds the current cycle. -/
theorem delays_punctual {s : Sim ModuleEvent ModuleWorld} (h : Reached pair s) :
    s.state.Punctual s.queue.curCycle := h.punctual.2

def cpuAndMemory : ℕ → Module := fun i => if i = 0 then .cpuSim {} else .memorySim ⟨⟩

def oneLink : Host := ⟨0, [UpstreamPort.new 0 [4] [] "up"], [DownstreamPort.new 0 [4] [] "down"],
  fun _ _ => true, 0, 0⟩

def issueAndAnswer : ℕ → Turn := fun n =>
  if n = 0 then ⟨oneLink, [.tick 0 oneLink, .request 1 0 0 oneLink]⟩ else ⟨oneLink, []⟩

def afterFive : Sim ModuleEvent ModuleWorld :=
  ⟨EventQueue.new.scheduleAll [(.other, 5)],
    ⟨.empty, cpuAndMemory, fun _ _ _ => {}, issueAndAnswer, [], none⟩⟩

theorem delays_punctual_answered :
    ∃ r, Sim.run (process fun _ _ => some (0, 0)) 200 9 afterFive = some r ∧
      r.1.state.fault = none ∧ r.1.state.Punctual 200 ∧
      r.1.state.deliveries.map (fun d => (d.cycle, d.packet)) = [(105, 1)] ∧
      (r.1.state.stats .master 0 0).maxDelay = 100 := by
  have hreach : Reached (fun _ _ => some (0, 0)) afterFive :=
    .act [.schedule .other 5] (.start cpuAndMemory issueAndAnswer) (by decide)
  have hrun : Sim.run (process fun _ _ => some (0, 0)) 200 9 afterFive = some _ := rfl
  have hpunctual := delays_punctual (hreach.run (by decide) hrun (by decide))
  exact ⟨_, hrun, rfl, hpunctual, rfl, rfl⟩

end ModuleWorld
end GemSc
