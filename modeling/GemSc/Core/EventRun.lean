import GemSc.Core.EventQueue

/-! What a run of the event queue does. The invariant is that no pending event lies
in the past; one pass of the loop keeps it and accounts for every event. -/

namespace GemSc
open scoped List

variable {ε σ : Type*} {process : Process ε σ}

namespace EventQueue

def Pending (q : EventQueue ε) : Prop := ∀ ev ∈ q.events, q.curCycle ≤ ev.fireTime

theorem events_schedule (q : EventQueue ε) (ev : ε) (delay : UInt64) :
    (q.schedule ev delay).events ~ ⟨q.curCycle + delay, ev⟩ :: q.events :=
  KeyedHeap.PriorityQueue.toList_push _ _

theorem events_scheduleAll (q : EventQueue ε) (reqs : List (ε × UInt64)) :
    (q.scheduleAll reqs).events ~ Event.ofRequests q.curCycle reqs ++ q.events := by
  induction reqs generalizing q with
  | nil => exact List.Perm.refl _
  | cons r rs ih =>
    calc (q.scheduleAll (r :: rs)).events
      _ ~ Event.ofRequests q.curCycle rs ++ (q.schedule r.1 r.2).events := ih (q.schedule r.1 r.2)
      _ ~ Event.ofRequests q.curCycle rs ++ (⟨q.curCycle + r.2, r.1⟩ :: q.events) :=
        (events_schedule q r.1 r.2).append_left _
      _ ~ _ := List.perm_middle

theorem pending_new : (new : EventQueue ε).Pending := fun _ hev => absurd hev (by simp [events, new])

theorem le_add_of_noWrap {c d : UInt64} (h : c.toNat + d.toNat < 2 ^ 64) : c ≤ c + d := by
  rw [UInt64.le_iff_toNat_le, UInt64.toNat_add, Nat.mod_eq_of_lt h]
  omega

theorem Pending.schedule {q : EventQueue ε} (h : q.Pending) (ev : ε) {delay : UInt64}
    (hw : q.curCycle.toNat + delay.toNat < 2 ^ 64) : (q.schedule ev delay).Pending := by
  intro e he
  rcases List.mem_cons.mp ((events_schedule q ev delay).mem_iff.mp he) with rfl | he
  · exact le_add_of_noWrap hw
  · exact h e he

theorem Pending.scheduleAll {q : EventQueue ε} (h : q.Pending) (reqs : List (ε × UInt64))
    (hw : ∀ r ∈ reqs, q.curCycle.toNat + r.2.toNat < 2 ^ 64) : (q.scheduleAll reqs).Pending := by
  induction reqs generalizing q with
  | nil => exact h
  | cons r rs ih =>
    exact ih (h.schedule r.1 (hw r (List.mem_cons_self ..)))
      fun x hx => hw x (List.mem_cons_of_mem _ hx)

end EventQueue

/-- No sum of the current cycle and a delay reaches `2 ^ 64` in this pass. -/
def Processed.NoWrap (p : Processed ε) : Prop :=
  ∀ r ∈ p.requests, p.cycle.toNat + r.2.toNat < 2 ^ 64

instance (p : Processed ε) : Decidable p.NoWrap :=
  inferInstanceAs (Decidable (∀ r ∈ p.requests, p.cycle.toNat + r.2.toNat < 2 ^ 64))

namespace Sim

section Fire
variable {s : Sim ε σ} {ev : Event ε}

theorem fire_curCycle : (fire process s ev).1.queue.curCycle = ev.fireTime := by
  simp [fire]

theorem events_fire (h : s.queue.eventQueue.top? = some ev) :
    ev :: (fire process s ev).1.queue.events ~
      s.queue.events ++ (fire process s ev).2.scheduled := by
  have hpop := KeyedHeap.PriorityQueue.toList_pop h
  have hall := EventQueue.events_scheduleAll ⟨s.queue.eventQueue.pop, ev.fireTime⟩
    (fire process s ev).2.requests
  calc ev :: (fire process s ev).1.queue.events
    _ ~ ev :: ((fire process s ev).2.scheduled ++ s.queue.eventQueue.pop.toList) := hall.cons _
    _ ~ (fire process s ev).2.scheduled ++ (ev :: s.queue.eventQueue.pop.toList) :=
      List.perm_middle.symm
    _ ~ (fire process s ev).2.scheduled ++ s.queue.events := hpop.append_left _
    _ ~ s.queue.events ++ (fire process s ev).2.scheduled := List.perm_append_comm

theorem pending_fire (h : s.queue.eventQueue.top? = some ev)
    (hw : (fire process s ev).2.NoWrap) : (fire process s ev).1.queue.Pending := by
  refine EventQueue.Pending.scheduleAll ?_ _ hw
  intro e he
  have hmem : e ∈ s.queue.eventQueue.toList :=
    (KeyedHeap.PriorityQueue.toList_pop h).subset (List.mem_cons_of_mem _ he)
  exact UInt64.le_iff_toNat_le.mpr (KeyedHeap.PriorityQueue.top?_le h e hmem)

theorem curCycle_le_top (hs : s.queue.Pending) (h : s.queue.eventQueue.top? = some ev) :
    s.queue.curCycle ≤ ev.fireTime :=
  hs ev ((KeyedHeap.PriorityQueue.toList_pop h).subset (List.mem_cons_self ..))

end Fire

/-- What the loop has done when it leaves with state `t` and record `trace`. -/
structure LoopSpec (endCycle : UInt64) (s t : Sim ε σ) (trace : List (Processed ε)) : Prop where
  pending : t.queue.Pending
  account : trace.map (·.event) ++ t.queue.events ~
    s.queue.events ++ trace.flatMap Processed.scheduled
  atFireTime : ∀ p ∈ trace, p.cycle = p.event.fireTime
  sorted : (s.queue.curCycle :: trace.map (·.event.fireTime)).Pairwise (· ≤ ·)
  due : ∀ p ∈ trace, p.event.fireTime < endCycle
  left : ∀ ev ∈ t.queue.events, endCycle ≤ ev.fireTime

theorem LoopSpec.stop {endCycle : UInt64} {s : Sim ε σ} (hs : s.queue.Pending)
    (h : ∀ ev ∈ s.queue.events, endCycle ≤ ev.fireTime) : LoopSpec endCycle s s [] :=
  ⟨hs, by simp, by simp, by simp, by simp, h⟩

theorem LoopSpec.fire {endCycle : UInt64} {s t : Sim ε σ} {ev : Event ε}
    {trace : List (Processed ε)} (hs : s.queue.Pending)
    (htop : s.queue.eventQueue.top? = some ev) (hlt : ev.fireTime < endCycle)
    (h : LoopSpec endCycle (Sim.fire process s ev).1 t trace) :
    LoopSpec endCycle s t ((Sim.fire process s ev).2 :: trace) := by
  have hle := curCycle_le_top hs htop
  have hsorted := h.sorted
  rw [fire_curCycle] at hsorted
  refine ⟨h.pending, ?_, ?_, ?_, ?_, h.left⟩
  · rw [List.map_cons, List.cons_append, List.flatMap_cons]
    calc ev :: (trace.map (·.event) ++ t.queue.events)
      _ ~ ev :: ((Sim.fire process s ev).1.queue.events ++ trace.flatMap Processed.scheduled) :=
        h.account.cons _
      _ ~ s.queue.events ++ (Sim.fire process s ev).2.scheduled ++
            trace.flatMap Processed.scheduled := (events_fire htop).append_right _
      _ ~ _ := List.Perm.of_eq (List.append_assoc _ _ _)
  · exact List.forall_mem_cons.mpr ⟨rfl, h.atFireTime⟩
  · refine List.pairwise_cons.mpr ⟨?_, hsorted⟩
    intro c hc
    rcases List.mem_cons.mp hc with rfl | hc
    · exact hle
    · exact UInt64.le_trans hle ((List.pairwise_cons.mp hsorted).1 c hc)
  · exact List.forall_mem_cons.mpr ⟨hlt, h.due⟩

/-- What holds where the loop stops, and over each event that it fires before the rest of the
loop, holds between its two ends. -/
theorem loop_induction {endCycle : UInt64} {motive : Sim ε σ → Sim ε σ → List (Processed ε) → Prop}
    (stop : ∀ s : Sim ε σ, (∀ ev ∈ s.queue.events, endCycle ≤ ev.fireTime) → motive s s [])
    (fired : ∀ s ev t trace, s.queue.eventQueue.top? = some ev → ev.fireTime < endCycle →
      motive (Sim.fire process s ev).1 t trace → motive s t ((Sim.fire process s ev).2 :: trace))
    {fuel : ℕ} {s t : Sim ε σ} {trace : List (Processed ε)}
    (h : loop process endCycle fuel s = some (t, trace)) : motive s t trace := by
  induction fuel generalizing s trace with
  | zero => simp [loop] at h
  | succ fuel ih =>
    rw [loop] at h
    cases htop : s.queue.eventQueue.top? with
    | none =>
      simp only [htop, Option.some.injEq, Prod.mk.injEq] at h
      obtain ⟨rfl, rfl⟩ := h
      have hnil : s.queue.events = [] := KeyedHeap.PriorityQueue.toList_eq_nil_of_top? htop
      apply stop
      simp [hnil]
    | some ev =>
      simp only [htop] at h
      split_ifs at h with hlt
      · obtain ⟨⟨t', rest⟩, hloop, heq⟩ := Option.map_eq_some_iff.mp h
        obtain ⟨rfl, rfl⟩ := Prod.mk.inj heq
        exact fired s ev t' rest htop hlt (ih hloop)
      · simp only [Option.some.injEq, Prod.mk.injEq] at h
        obtain ⟨rfl, rfl⟩ := h
        apply stop
        intro e he
        have hkey := KeyedHeap.PriorityQueue.top?_le htop e he
        exact UInt64.le_trans (UInt64.not_lt.mp hlt) (UInt64.le_iff_toNat_le.mpr hkey)

theorem loop_spec {endCycle : UInt64} {fuel : ℕ} {s t : Sim ε σ} {trace : List (Processed ε)}
    (hs : s.queue.Pending) (h : loop process endCycle fuel s = some (t, trace))
    (hw : ∀ p ∈ trace, p.NoWrap) : LoopSpec endCycle s t trace := by
  revert hs hw
  apply loop_induction (motive := fun s t trace =>
    s.queue.Pending → (∀ p ∈ trace, p.NoWrap) → LoopSpec endCycle s t trace) ?stop ?fired h
  case stop =>
    intro s hleft hs _
    exact .stop hs hleft
  case fired =>
    intro s ev t trace htop hlt ih hs hw
    obtain ⟨hw0, hws⟩ := List.forall_mem_cons.mp hw
    exact .fire hs htop hlt (ih (pending_fire htop hw0) hws)

theorem run_eq_some {n : UInt64} {fuel : ℕ} {s t : Sim ε σ} {trace : List (Processed ε)}
    (h : run process n fuel s = some (t, trace)) :
    ∃ u, loop process (s.queue.curCycle + n) fuel s = some (u, trace) ∧
      t = ⟨⟨u.queue.eventQueue, s.queue.curCycle + n⟩, u.state⟩ := by
  obtain ⟨⟨u, tr⟩, hloop, heq⟩ := Option.map_eq_some_iff.mp h
  obtain ⟨rfl, rfl⟩ := Prod.mk.inj heq
  exact ⟨u, hloop, rfl⟩

/-- What the passage of time and the body of each event keep, a run keeps. -/
theorem run_invariant {P : UInt64 → σ → Prop} (hmono : ∀ c d x, c ≤ d → P c x → P d x)
    (hbody : ∀ body c x, P c x → P c (process body c x).1) {n : UInt64} {fuel : ℕ} {s t : Sim ε σ}
    {trace : List (Processed ε)} (hs : s.queue.Pending) (hstart : P s.queue.curCycle s.state)
    (hn : s.queue.curCycle.toNat + n.toNat < 2 ^ 64)
    (h : run process n fuel s = some (t, trace)) (hw : ∀ p ∈ trace, p.NoWrap) :
    P t.queue.curCycle t.state := by
  obtain ⟨u, hloop, rfl⟩ := run_eq_some h
  have hend : s.queue.curCycle ≤ s.queue.curCycle + n := EventQueue.le_add_of_noWrap hn
  revert hs hstart hw hend
  generalize s.queue.curCycle + n = endCycle at hloop ⊢
  apply loop_induction (motive := fun s t trace => s.queue.Pending → P s.queue.curCycle s.state →
    (∀ p ∈ trace, p.NoWrap) → s.queue.curCycle ≤ endCycle → P endCycle t.state) ?stop ?fired hloop
  case stop =>
    intro s _ _ hP _ hle
    exact hmono _ _ _ hle hP
  case fired =>
    intro s ev t trace htop hlt ih hs hP hw _
    obtain ⟨hhere, hlater⟩ := List.forall_mem_cons.mp hw
    have hnow : P ev.fireTime s.state := hmono _ _ _ (curCycle_le_top hs htop) hP
    refine ih (pending_fire htop hhere) ?_ hlater ?_
    · rw [fire_curCycle]
      exact hbody ev.body ev.fireTime s.state hnow
    · rw [fire_curCycle]
      exact UInt64.le_of_lt hlt

theorem pending_run {n : UInt64} {fuel : ℕ} {s t : Sim ε σ} {trace : List (Processed ε)}
    (hs : s.queue.Pending) (h : run process n fuel s = some (t, trace))
    (hw : ∀ p ∈ trace, p.NoWrap) : t.queue.Pending := by
  obtain ⟨u, hloop, rfl⟩ := run_eq_some h
  exact (loop_spec hs hloop hw).left

end Sim

/-- The queues a program can reach by scheduling and running, with no cycle sum
reaching `2 ^ 64`. -/
inductive EventQueue.Reachable : EventQueue ε → Prop
  | new : Reachable .new
  | schedule {q : EventQueue ε} (ev : ε) (delay : UInt64) : Reachable q →
      q.curCycle.toNat + delay.toNat < 2 ^ 64 → Reachable (q.schedule ev delay)
  | run {σ : Type} {process : Process ε σ} {n : UInt64} {fuel : ℕ} {s t : Sim ε σ}
      {trace : List (Processed ε)} : Reachable s.queue →
      Sim.run process n fuel s = some (t, trace) → (∀ p ∈ trace, p.NoWrap) → Reachable t.queue

theorem EventQueue.Reachable.pending {q : EventQueue ε} (h : q.Reachable) : q.Pending := by
  induction h with
  | new => exact pending_new
  | schedule ev delay _ hw ih => exact ih.schedule ev hw
  | run _ hrun hw ih => exact Sim.pending_run ih hrun hw

section Due
variable {α : Type*} {p q : α → Prop} [DecidablePred p] [DecidablePred q]

theorem perm_filter_of_split {l a b : List α} (h : a ++ b ~ l) (ha : ∀ x ∈ a, p x)
    (hb : ∀ x ∈ b, ¬ p x) (hq : ∀ x, q x ↔ ¬ p x) :
    a ~ l.filter (fun x => p x) ∧ b ~ l.filter (fun x => q x) := by
  have hp := h.filter (fun x => decide (p x))
  have hn := h.filter (fun x => decide (q x))
  have hpa : a.filter (fun x => p x) = a := List.filter_eq_self.mpr (by simpa using ha)
  have hpb : b.filter (fun x => p x) = [] := List.filter_eq_nil_iff.mpr (by simpa using hb)
  have hqa : a.filter (fun x => q x) = [] := List.filter_eq_nil_iff.mpr (by simpa [hq] using ha)
  have hqb : b.filter (fun x => q x) = b := List.filter_eq_self.mpr (by simpa [hq] using hb)
  rw [List.filter_append, hpa, hpb, List.append_nil] at hp
  rw [List.filter_append, hqa, hqb, List.nil_append] at hn
  exact ⟨hp, hn⟩

end Due

/-- A run that returns has processed exactly the events due before its end, each once
and at its fire time, in time order; the others are still queued. -/
theorem run_processes_due {n : UInt64} {fuel : ℕ} {s t : Sim ε σ} {trace : List (Processed ε)}
    (hq : s.queue.Reachable) (hn : s.queue.curCycle.toNat + n.toNat < 2 ^ 64)
    (hrun : Sim.run process n fuel s = some (t, trace)) (hw : ∀ p ∈ trace, p.NoWrap) :
    (trace.map (·.event.fireTime)).Pairwise (· ≤ ·) ∧
    (∀ p ∈ trace, p.cycle = p.event.fireTime) ∧
    trace.map (·.event) ~ (s.queue.events ++ trace.flatMap Processed.scheduled).filter
      (fun ev => ev.fireTime < s.queue.curCycle + n) ∧
    t.queue.events ~ (s.queue.events ++ trace.flatMap Processed.scheduled).filter
      (fun ev => s.queue.curCycle + n ≤ ev.fireTime) ∧
    (s.queue.curCycle :: trace.map (·.cycle) ++ [t.queue.curCycle]).Pairwise (· ≤ ·) ∧
    t.queue.curCycle.toNat = s.queue.curCycle.toNat + n.toNat := by
  obtain ⟨u, hloop, rfl⟩ := Sim.run_eq_some hrun
  have hspec := Sim.loop_spec hq.pending hloop hw
  obtain ⟨hdue, hleft⟩ := perm_filter_of_split
    (p := fun ev : Event ε => ev.fireTime < s.queue.curCycle + n)
    (q := fun ev : Event ε => s.queue.curCycle + n ≤ ev.fireTime) hspec.account
    (by simpa using hspec.due) (fun ev hev => UInt64.not_lt.mpr (hspec.left ev hev))
    (fun ev => UInt64.not_lt.symm)
  have hcycles : trace.map (·.cycle) = trace.map (·.event.fireTime) :=
    List.map_congr_left hspec.atFireTime
  refine ⟨(List.pairwise_cons.mp hspec.sorted).2, hspec.atFireTime, hdue, hleft, ?_, ?_⟩
  · rw [hcycles, List.pairwise_append]
    refine ⟨hspec.sorted, List.pairwise_singleton _ _, ?_⟩
    intro c hc d hd
    obtain rfl := List.mem_singleton.mp hd
    rcases List.mem_cons.mp hc with rfl | hc
    · exact EventQueue.le_add_of_noWrap hn
    · obtain ⟨p, hp, rfl⟩ := List.mem_map.mp hc
      exact UInt64.le_of_lt (hspec.due p hp)
  · simp only [UInt64.toNat_add]
    exact Nat.mod_eq_of_lt hn

def demoProcess : Process ℕ ℕ := fun b _ n => (n + 1, if b = 0 then [(1, 0), (2, 3), (3, 9)] else [])

def demoSim : Sim ℕ ℕ := ⟨(EventQueue.new.schedule 0 1).schedule 5 2, 0⟩

theorem run_processes_due_demo : ∃ r, Sim.run demoProcess 5 9 demoSim = some r ∧
    r.2.map (·.event.body) = [0, 1, 5, 2] ∧
    (r.2.map (·.event.fireTime)).Pairwise (· ≤ ·) ∧ r.1.queue.curCycle.toNat = 5 := by
  have hreach : demoSim.queue.Reachable := .schedule 5 2 (.schedule 0 1 .new (by decide)) (by decide)
  have hrun : Sim.run demoProcess 5 9 demoSim = some _ := rfl
  have hspec := run_processes_due hreach (by decide) hrun (by decide)
  exact ⟨_, hrun, rfl, hspec.1, hspec.2.2.2.2.2⟩

end GemSc
