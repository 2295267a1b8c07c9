import GemSc.Core.Ticks

/-! Consecutive runs of one event queue. The invariant for an object that was started is that
exactly one of its tick events is queued. -/

namespace GemSc
open scoped List

variable {P L σ ε : Type*}

namespace Sim

def runAll (process : Process ε σ) : List (UInt64 × ℕ) → Sim ε σ → Option (Sim ε σ × List (Processed ε))
  | [], s => some (s, [])
  | (n, fuel) :: rest, s =>
    (run process n fuel s).bind fun r => (runAll process rest r.1).map fun r' => (r'.1, r.2 ++ r'.2)

def cycles (runs : List (UInt64 × ℕ)) : ℕ := (runs.map fun r => r.1.toNat).sum

variable {process : Process ε σ}

theorem runAll_cons {n : UInt64} {fuel : ℕ} {rest : List (UInt64 × ℕ)} {s u : Sim ε σ}
    {trace : List (Processed ε)} (h : runAll process ((n, fuel) :: rest) s = some (u, trace)) :
    ∃ t first later, run process n fuel s = some (t, first) ∧
      runAll process rest t = some (u, later) ∧ trace = first ++ later := by
  obtain ⟨⟨t, first⟩, hrun, h⟩ := Option.bind_eq_some_iff.mp h
  obtain ⟨⟨v, later⟩, hall, heq⟩ := Option.map_eq_some_iff.mp h
  obtain ⟨rfl, rfl⟩ := Prod.mk.inj heq
  exact ⟨t, first, later, hrun, hall, rfl⟩

theorem runAll_prefix {pre runs : List (UInt64 × ℕ)} {s u : Sim ε σ} {trace : List (Processed ε)}
    (hpre : pre <+: runs) (h : runAll process runs s = some (u, trace)) :
    ∃ t first, runAll process pre s = some (t, first) := by
  induction pre generalizing runs s trace with
  | nil => exact ⟨s, [], rfl⟩
  | cons r pre ih =>
    obtain ⟨n, fuel⟩ := r
    obtain ⟨rest, rfl⟩ := hpre
    obtain ⟨t, first, later, hrun, hall, -⟩ := runAll_cons h
    obtain ⟨v, middle, hmiddle⟩ := ih (List.prefix_append _ _) hall
    exact ⟨v, first ++ middle, by simp [runAll, hrun, hmiddle]⟩

end Sim

section Ticks
variable [DecidableEq P] {p : P} {b : Bodies P L σ} {s t : Sim (SimEvent P L) σ}
variable {trace : List (Processed (SimEvent P L))}

theorem range'_append_max {T d e : ℕ} (h : d ≤ e) :
    List.range' T (d - T) ++ List.range' (max T d) (e - max T d) = List.range' T (e - T) := by
  have hstart : max T d = T + 1 * (d - T) := by omega
  have hlen : e - T = (d - T) + (e - max T d) := by omega
  rw [hlen, ← List.range'_append, ← hstart]

theorem runAll_ticks {runs : List (UInt64 × ℕ)} {T : ℕ} (hone : tickTimes p s.queue.events = [T])
    (hT : s.queue.curCycle.toNat ≤ T)
    (hn : s.queue.curCycle.toNat + Sim.cycles runs < 2 ^ 64)
    (h : Sim.runAll b.process runs s = some (t, trace)) :
    tickCycles p trace = List.range' T (s.queue.curCycle.toNat + Sim.cycles runs - T) ∧
      tickTimes p t.queue.events = [max T (s.queue.curCycle.toNat + Sim.cycles runs)] := by
  induction runs generalizing s T trace with
  | nil =>
    cases h
    have hzero : t.queue.curCycle.toNat + Sim.cycles [] - T = 0 := Nat.sub_eq_zero_of_le hT
    have hmax : max T (t.queue.curCycle.toNat + Sim.cycles []) = T := max_eq_left hT
    rw [hzero, hone, hmax]
    exact ⟨rfl, rfl⟩
  | cons r runs ih =>
    obtain ⟨n, fuel⟩ := r
    obtain ⟨u, first, later, hrun, hall, rfl⟩ := Sim.runAll_cons h
    have htotal : Sim.cycles ((n, fuel) :: runs) = n.toNat + Sim.cycles runs := List.sum_cons
    rw [htotal, ← add_assoc] at hn ⊢
    obtain ⟨hcur, hfirst, hmid⟩ := run_ticks hone (lt_of_le_of_lt (Nat.le_add_right _ _) hn) hrun
    rw [← hcur] at hfirst hmid hn ⊢
    obtain ⟨hlater, hend⟩ := ih hmid (le_max_right _ _) hn hall
    have happend : tickCycles p (first ++ later) = tickCycles p first ++ tickCycles p later := by
      simp [tickCycles]
    rw [happend, hfirst, hlater, range'_append_max (Nat.le_add_right _ _), hend, max_assoc,
      max_eq_right (Nat.le_add_right u.queue.curCycle.toNat _)]
    exact ⟨rfl, rfl⟩

end Ticks

/-- A call made before the first run: `initiate_tick()` of an object, or `schedule`. -/
inductive StartCall (P L : Type*)
  | initiateTick (obj : P)
  | schedule (ev : L) (delay : UInt64)

namespace StartCall

def apply (q : EventQueue (SimEvent P L)) : StartCall P L → EventQueue (SimEvent P L)
  | initiateTick p => q.initiateTick p
  | schedule ev delay => q.schedule (.other ev) delay

def request : StartCall P L → SimEvent P L × UInt64
  | initiateTick p => (.tick p, 1)
  | schedule ev delay => (.other ev, delay)

def started : StartCall P L → Option P
  | initiateTick p => some p
  | schedule _ _ => none

def applyAll (q : EventQueue (SimEvent P L)) (calls : List (StartCall P L)) :
    EventQueue (SimEvent P L) := calls.foldl apply q

theorem applyAll_eq (q : EventQueue (SimEvent P L)) (calls : List (StartCall P L)) :
    applyAll q calls = q.scheduleAll (calls.map request) := by
  rw [EventQueue.scheduleAll, List.foldl_map, applyAll]
  congr 1
  funext q call
  cases call <;> rfl

variable [DecidableEq P] {p : P}

theorem tickTimes_requests (cycle : UInt64) (calls : List (StartCall P L)) :
    tickTimes p (Event.ofRequests cycle (calls.map request)) =
      List.replicate ((calls.filterMap started).count p) (cycle + 1).toNat := by
  induction calls with
  | nil => rfl
  | cons call calls ih =>
    have hsplit : tickTimes p (Event.ofRequests cycle ((call :: calls).map request)) =
        tickTimes p [⟨cycle + call.request.2, call.request.1⟩] ++
          tickTimes p (Event.ofRequests cycle (calls.map request)) := tickTimes_append [_] _
    rw [hsplit, ih, tickTimes_singleton]
    cases call with
    | schedule ev delay => rfl
    | initiateTick q =>
      by_cases hq : q = p
      · subst hq
        simp [request, started, SimEvent.isTick, Event.key, List.replicate_succ]
      · simp [request, started, SimEvent.isTick, hq]

end StartCall

section Ticks
variable [DecidableEq P] {p : P} {b : Bodies P L σ}

/-- However a simulation is split into runs, after each of them an object that was started once
has been ticked exactly once in each cycle so far, and one tick event of it is queued. -/
theorem ticks_over_runs {q : EventQueue (SimEvent P L)} {calls : List (StartCall P L)} {s : σ}
    {runs : List (UInt64 × ℕ)} {u : Sim (SimEvent P L) σ} {trace : List (Processed (SimEvent P L))}
    (hnew : tickTimes p q.events = []) (honce : (calls.filterMap StartCall.started).count p = 1)
    (hstart : q.curCycle.toNat + 1 < 2 ^ 64)
    (hend : q.curCycle.toNat + Sim.cycles runs < 2 ^ 64)
    (hruns : Sim.runAll b.process runs ⟨StartCall.applyAll q calls, s⟩ = some (u, trace)) :
    ∀ pre, pre <+: runs → ∃ t first,
      Sim.runAll b.process pre ⟨StartCall.applyAll q calls, s⟩ = some (t, first) ∧
      tickCycles p first = List.range' (q.curCycle.toNat + 1) (Sim.cycles pre - 1) ∧
      (t.queue.events.filter fun ev => ev.body.isTick p).length = 1 := by
  intro pre hpre
  obtain ⟨t, first, hrun⟩ := Sim.runAll_prefix hpre hruns
  have hcur : (StartCall.applyAll q calls).curCycle = q.curCycle := by
    rw [StartCall.applyAll_eq, EventQueue.scheduleAll_curCycle]
  have hone : tickTimes p (StartCall.applyAll q calls).events = [q.curCycle.toNat + 1] := by
    have hperm := tickTimes_perm (p := p) (EventQueue.events_scheduleAll q (calls.map StartCall.request))
    have hnext : (q.curCycle + 1).toNat = q.curCycle.toNat + 1 := by
      rw [UInt64.toNat_add]
      exact Nat.mod_eq_of_lt hstart
    rw [tickTimes_append, StartCall.tickTimes_requests, honce, hnew, List.append_nil, hnext,
      List.replicate_one] at hperm
    rw [StartCall.applyAll_eq]
    exact List.perm_singleton.mp hperm
  have hle : Sim.cycles pre ≤ Sim.cycles runs := by
    obtain ⟨post, rfl⟩ := hpre
    rw [Sim.cycles, Sim.cycles, List.map_append, List.sum_append]
    exact Nat.le_add_right _ _
  have hspec := runAll_ticks hone (by simp only [hcur]; omega) (by simp only [hcur]; omega) hrun
  simp only [hcur] at hspec
  refine ⟨t, first, hrun, ?_, ?_⟩
  · rw [hspec.1]
    congr 1
    omega
  · have hlen := congrArg List.length hspec.2
    rwa [tickTimes, List.length_map] at hlen

end Ticks

def idleBodies : Bodies Unit Unit Unit := ⟨fun _ _ s => (s, []), fun _ _ s => (s, [])⟩

theorem ticks_over_runs_demo : ∃ t first,
    Sim.runAll idleBodies.process [(2, 3), (3, 5)]
      ⟨StartCall.applyAll .new [.schedule () 0, .initiateTick ()], ()⟩ = some (t, first) ∧
    tickCycles () first = [1, 2, 3, 4] := by
  have hruns : Sim.runAll idleBodies.process [(2, 3), (3, 5)]
      ⟨StartCall.applyAll .new [.schedule () 0, .initiateTick ()], ()⟩ = some _ := rfl
  obtain ⟨t, first, hrun, hticks, -⟩ := ticks_over_runs (p := ()) rfl (by decide) (by decide)
    (by decide) hruns [(2, 3), (3, 5)] (List.prefix_refl _)
  exact ⟨t, first, hrun, hticks⟩

/-- The sum of the current cycle and the length of the second run is `2 ^ 64`: its end wraps to
cycle 0, and the run returns with no tick called. -/
theorem wrapped_run_ticks_nothing : ∃ t,
    Sim.runAll idleBodies.process [(1, 1), (18446744073709551615, 1)]
      ⟨StartCall.applyAll .new [.initiateTick ()], ()⟩ = some (t, []) ∧
    tickCycles () ([] : List (Processed (SimEvent Unit Unit))) ≠
      List.range' 1 (Sim.cycles [(1, 1), (18446744073709551615, 1)] - 1) := by
  refine ⟨_, rfl, fun h => ?_⟩
  have hlen := congrArg List.length h
  rw [List.length_range'] at hlen
  cases hlen

end GemSc
