import GemSc.Core.EventRun

/-! `TickEvent`: a tick of an object schedules the next one, so every object that was
started is ticked once in each cycle. -/

namespace GemSc
open scoped List

/-- The events of a simulation: ticks of the objects `P`, and whatever else they schedule. -/
inductive SimEvent (P L : Type*)
  | tick (obj : P)
  | other (ev : L)

/-- The bodies of `tick()` and of the other events; they schedule no ticks themselves. -/
structure Bodies (P L σ : Type*) where
  tick : P → UInt64 → σ → σ × List (L × UInt64)
  other : L → UInt64 → σ → σ × List (L × UInt64)

variable {P L σ : Type*}

def SimEvent.requests (reqs : List (L × UInt64)) : List (SimEvent P L × UInt64) :=
  reqs.map fun r => (.other r.1, r.2)

/-- `TickEvent::process` is `obj->tick()`, then `obj->initiate_tick()`. -/
def Bodies.process (b : Bodies P L σ) : Process (SimEvent P L) σ
  | .tick p, cycle, s =>
    ((b.tick p cycle s).1, SimEvent.requests (b.tick p cycle s).2 ++ [(.tick p, 1)])
  | .other ev, cycle, s => ((b.other ev cycle s).1, SimEvent.requests (b.other ev cycle s).2)

def EventQueue.initiateTick (q : EventQueue (SimEvent P L)) (p : P) : EventQueue (SimEvent P L) :=
  q.schedule (.tick p) 1

theorem events_initiateTicks (ps : List P) (q : EventQueue (SimEvent P L)) :
    (ps.foldl EventQueue.initiateTick q).events ~
      Event.ofRequests q.curCycle (ps.map fun p => (.tick p, 1)) ++ q.events := by
  have h := EventQueue.events_scheduleAll q (ps.map fun p => (SimEvent.tick p, (1 : UInt64)))
  rwa [EventQueue.scheduleAll, List.foldl_map] at h

theorem curCycle_initiateTicks (ps : List P) (q : EventQueue (SimEvent P L)) :
    (ps.foldl EventQueue.initiateTick q).curCycle = q.curCycle := by
  induction ps generalizing q with
  | nil => rfl
  | cons p ps ih => exact ih (q.initiateTick p)

section Ticks
variable [DecidableEq P] {p : P} {b : Bodies P L σ} {s t : Sim (SimEvent P L) σ}
variable {trace : List (Processed (SimEvent P L))}

def SimEvent.isTick (p : P) : SimEvent P L → Bool
  | .tick q => q == p
  | .other _ => false

def tickTimes (p : P) (evs : List (Event (SimEvent P L))) : List ℕ :=
  (evs.filter fun ev => ev.body.isTick p).map Event.key

def tickCycles (p : P) (trace : List (Processed (SimEvent P L))) : List ℕ :=
  (trace.filter fun x => x.event.body.isTick p).map fun x => x.cycle.toNat

theorem tickTimes_append (l l' : List (Event (SimEvent P L))) :
    tickTimes p (l ++ l') = tickTimes p l ++ tickTimes p l' := by
  simp [tickTimes]

theorem tickTimes_perm {l l' : List (Event (SimEvent P L))} (h : l ~ l') :
    tickTimes p l ~ tickTimes p l' := (h.filter _).map _

theorem tickTimes_others (cycle : UInt64) (reqs : List (L × UInt64)) :
    tickTimes p (Event.ofRequests cycle (SimEvent.requests reqs)) = [] := by
  rw [tickTimes, List.map_eq_nil_iff, List.filter_eq_nil_iff]
  intro ev hev
  obtain ⟨r, hr, rfl⟩ := List.mem_map.mp hev
  obtain ⟨r', -, rfl⟩ := List.mem_map.mp hr
  exact Bool.false_ne_true

theorem tickTimes_start (ps : List P) (hps : ps.Nodup) (hp : p ∈ ps) :
    tickTimes p (Event.ofRequests 0 (ps.map fun q => ((.tick q : SimEvent P L), (1 : UInt64)))) =
      [1] := by
  have hfilter : ps.filter (fun q => q == p) = [p] := by
    rw [List.filter_beq, hps.count, if_pos hp, List.replicate_one]
  simp only [tickTimes, Event.ofRequests, List.map_map, List.filter_map, Function.comp_def,
    SimEvent.isTick, hfilter]
  rfl

theorem tickTimes_singleton (ev : Event (SimEvent P L)) :
    tickTimes p [ev] = if ev.body.isTick p then [ev.key] else [] := by
  by_cases h : ev.body.isTick p <;> simp [tickTimes, h]

theorem tickTimes_scheduled {ev : Event (SimEvent P L)} (hw : ev.key + 1 < 2 ^ 64) :
    tickTimes p (Sim.fire b.process s ev).2.scheduled = (tickTimes p [ev]).map (· + 1) := by
  obtain ⟨cycle, body⟩ := ev
  cases body with
  | other ev => exact tickTimes_others cycle (b.other ev cycle s.state).2
  | tick q =>
    have hnext : (cycle + 1).toNat = cycle.toNat + 1 := by
      rw [UInt64.toNat_add]
      exact Nat.mod_eq_of_lt hw
    have hsplit : (Sim.fire b.process s ⟨cycle, .tick q⟩).2.scheduled =
        Event.ofRequests cycle (SimEvent.requests (b.tick q cycle s.state).2) ++
          [⟨cycle + 1, .tick q⟩] := List.map_append
    rw [hsplit, tickTimes_append, tickTimes_others, List.nil_append, tickTimes_singleton,
      tickTimes_singleton]
    by_cases hq : q = p
    · simp [SimEvent.isTick, Event.key, hq, hnext]
    · simp [SimEvent.isTick, hq]

theorem tickTimes_fire {e : UInt64} {T : ℕ} {ev : Event (SimEvent P L)}
    (htop : s.queue.eventQueue.top? = some ev) (hlt : ev.fireTime < e)
    (hone : tickTimes p s.queue.events = [T]) :
    tickTimes p [ev] ++ tickTimes p (Sim.fire b.process s ev).1.queue.events ~
      [T] ++ (tickTimes p [ev]).map (· + 1) := by
  have hwrap : ev.key + 1 < 2 ^ 64 :=
    lt_of_le_of_lt (UInt64.lt_iff_toNat_lt.mp hlt) e.toNat_lt
  have hfire : ev :: (Sim.fire b.process s ev).1.queue.events ~
      s.queue.events ++ (Sim.fire b.process s ev).2.scheduled := Sim.events_fire htop
  have htimes := tickTimes_perm (p := p) hfire
  rw [tickTimes_append, hone, tickTimes_scheduled hwrap] at htimes
  rwa [← tickTimes_append]

theorem tickCycles_fire (ev : Event (SimEvent P L)) :
    tickCycles p ((Sim.fire b.process s ev).2 :: trace) =
      tickTimes p [ev] ++ tickCycles p trace := by
  by_cases htick : ev.body.isTick p <;>
    simp [tickCycles, tickTimes, Sim.fire, htick, Event.key]

theorem loop_ticks {e : UInt64} {fuel T : ℕ} (hone : tickTimes p s.queue.events = [T])
    (h : Sim.loop b.process e fuel s = some (t, trace)) :
    tickCycles p trace = List.range' T (e.toNat - T) ∧
      tickTimes p t.queue.events = [max T e.toNat] := by
  suffices hall : ∀ T, tickTimes p s.queue.events = [T] →
      tickCycles p trace = List.range' T (e.toNat - T) ∧
        tickTimes p t.queue.events = [max T e.toNat] from hall T hone
  apply Sim.loop_induction (motive := fun s t trace => ∀ T, tickTimes p s.queue.events = [T] →
    tickCycles p trace = List.range' T (e.toNat - T) ∧
      tickTimes p t.queue.events = [max T e.toNat]) ?stop ?fired h
  case stop =>
    intro s hleft T hone
    have hT : T ∈ tickTimes p s.queue.events := by simp [hone]
    obtain ⟨x, hx, rfl⟩ := List.mem_map.mp hT
    have hend : e.toNat ≤ x.key :=
      UInt64.le_iff_toNat_le.mp (hleft x (List.mem_filter.mp hx).1)
    rw [hone, max_eq_left hend, Nat.sub_eq_zero_of_le hend]
    exact ⟨rfl, rfl⟩
  case fired =>
    intro s ev t trace htop hlt ih T hone
    have hlt' : ev.key < e.toNat := UInt64.lt_iff_toNat_lt.mp hlt
    have hperm := tickTimes_fire (b := b) htop hlt hone
    rw [tickCycles_fire]
    by_cases htick : ev.body.isTick p
    · -- the pending tick itself: the next one takes its place
      have hmem : ev ∈ s.queue.events :=
        (KeyedHeap.PriorityQueue.toList_pop htop).subset (List.mem_cons_self ..)
      have hkey : ev.key ∈ tickTimes p s.queue.events :=
        List.mem_map.mpr ⟨ev, List.mem_filter.mpr ⟨hmem, htick⟩, rfl⟩
      rw [hone, List.mem_singleton] at hkey
      rw [tickTimes_singleton, if_pos htick, hkey] at hperm ⊢
      have hnext : tickTimes p (Sim.fire b.process s ev).1.queue.events = [T + 1] :=
        List.perm_singleton.mp ((List.perm_cons T).mp hperm)
      obtain ⟨hcycles, hend⟩ := ih (T + 1) hnext
      rw [hkey] at hlt'
      refine ⟨?_, hend.trans ?_⟩
      · have hlen : e.toNat - T = (e.toNat - (T + 1)) + 1 := by omega
        rw [hcycles, hlen, List.range'_succ]
        rfl
      · have hmax : max (T + 1) e.toNat = max T e.toNat := by omega
        rw [hmax]
    · rw [tickTimes_singleton, if_neg htick] at hperm ⊢
      exact ih T (List.perm_singleton.mp hperm)

theorem run_ticks {n : UInt64} {fuel T : ℕ} (hone : tickTimes p s.queue.events = [T])
    (hn : s.queue.curCycle.toNat + n.toNat < 2 ^ 64)
    (h : Sim.run b.process n fuel s = some (t, trace)) :
    t.queue.curCycle.toNat = s.queue.curCycle.toNat + n.toNat ∧
      tickCycles p trace = List.range' T (s.queue.curCycle.toNat + n.toNat - T) ∧
      tickTimes p t.queue.events = [max T (s.queue.curCycle.toNat + n.toNat)] := by
  obtain ⟨u, hloop, rfl⟩ := Sim.run_eq_some h
  have hend : (s.queue.curCycle + n).toNat = s.queue.curCycle.toNat + n.toNat := by
    rw [UInt64.toNat_add, Nat.mod_eq_of_lt hn]
  obtain ⟨hcycles, hleft⟩ := loop_ticks hone hloop
  rw [hend] at hcycles hleft
  exact ⟨hend, hcycles, hleft⟩

theorem ticks_every_cycle {ps : List P} {n : UInt64} {fuel : ℕ} {s : σ} (hps : ps.Nodup) (hp : p ∈ ps)
    (hrun : Sim.run b.process n fuel ⟨ps.foldl EventQueue.initiateTick .new, s⟩ = some (t, trace)) :
    tickCycles p trace = List.range' 1 (n.toNat - 1) := by
  have hcur : (ps.foldl EventQueue.initiateTick (.new : EventQueue (SimEvent P L))).curCycle.toNat =
      0 := congrArg UInt64.toNat (curCycle_initiateTicks ps .new)
  have hone : tickTimes p
      (ps.foldl EventQueue.initiateTick (.new : EventQueue (SimEvent P L))).events = [1] := by
    have hperm := tickTimes_perm (p := p) (events_initiateTicks (L := L) ps .new)
    rw [tickTimes_append] at hperm
    exact List.perm_singleton.mp
      (hperm.trans (List.Perm.of_eq (congrArg (· ++ []) (tickTimes_start ps hps hp))))
  have hn : 0 + n.toNat < 2 ^ 64 := by
    rw [Nat.zero_add]
    exact n.toNat_lt
  obtain ⟨-, hcycles, -⟩ := run_ticks hone (by rwa [hcur]) hrun
  rw [hcycles, hcur, Nat.zero_add]

end Ticks
end GemSc
