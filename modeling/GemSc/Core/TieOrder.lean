import GemSc.Core.Composition
import GemSc.Core.Ticks
import GemSc.Lib.HeapTies

/-! The order in which events of one cycle are processed. The schedule calls are numbered; the
numbers are not seen by the queue, so forgetting them gives the run of the program. -/

namespace GemSc
open scoped List
open KeyedHeap

variable {ε σ : Type*}

abbrev Numbered (ε : Type*) := ε × ℕ

abbrev Event.number (ev : Event (Numbered ε)) : ℕ := ev.body.2

def numberFrom : ℕ → List (ε × UInt64) → List (Numbered ε × UInt64)
  | _, [] => []
  | n, r :: rs => ((r.1, n), r.2) :: numberFrom (n + 1) rs

def numbered (process : Process ε σ) : Process (Numbered ε) (σ × ℕ) := fun body cycle s =>
  let r := process body.1 cycle s.1
  ((r.1, s.2 + r.2.length), numberFrom s.2 r.2)

namespace Sim

def scheduleNext (s : Sim (Numbered ε) (σ × ℕ)) (ev : ε) (delay : UInt64) :
    Sim (Numbered ε) (σ × ℕ) :=
  ⟨s.queue.schedule (ev, s.state.2) delay, (s.state.1, s.state.2 + 1)⟩

def poppedFrom (process : Process ε σ) (endCycle : UInt64) : ℕ → Sim ε σ → List (EventQueue ε)
  | 0, _ => []
  | fuel + 1, s =>
    match s.queue.eventQueue.top? with
    | none => []
    | some ev =>
      if ev.fireTime < endCycle then
        s.queue :: poppedFrom process endCycle fuel (fire process s ev).1
      else []

end Sim

/-- What a program does with its queue, in which every queue that an event is taken from meets
`ok`: the state that is reached, and what has been processed so far. -/
inductive Course (process : Process ε σ) (ok : EventQueue (Numbered ε) → Prop) :
    Sim (Numbered ε) (σ × ℕ) → List (Processed (Numbered ε)) → Prop
  | start (x : σ) : Course process ok ⟨.new, (x, 0)⟩ []
  | assign {s : Sim (Numbered ε) (σ × ℕ)} {trace : List (Processed (Numbered ε))} (x : σ) :
      Course process ok s trace → Course process ok ⟨s.queue, (x, s.state.2)⟩ trace
  | schedule {s : Sim (Numbered ε) (σ × ℕ)} {trace : List (Processed (Numbered ε))} (ev : ε)
      (delay : UInt64) : Course process ok s trace → Course process ok (s.scheduleNext ev delay) trace
  | run {s t : Sim (Numbered ε) (σ × ℕ)} {trace new : List (Processed (Numbered ε))} {n : UInt64}
      {fuel : ℕ} : Course process ok s trace →
      Sim.run (numbered process) n fuel s = some (t, new) →
      (∀ q ∈ Sim.poppedFrom (numbered process) (s.queue.curCycle + n) fuel s, ok q) →
      Course process ok t (trace ++ new)

/-- Of two events with the same fire time, the one scheduled first was processed first. -/
def InScheduleOrder (trace : List (Processed (Numbered ε))) : Prop :=
  trace.Pairwise fun p q =>
    p.event.fireTime = q.event.fireTime → p.event.number < q.event.number

instance (trace : List (Processed (Numbered ε))) : Decidable (InScheduleOrder trace) :=
  inferInstanceAs (Decidable (trace.Pairwise fun p q =>
    p.event.fireTime = q.event.fireTime → p.event.number < q.event.number))

/-- On the way down that the last entry of the queue takes when the front is taken out, every
entry that moves up comes, by fire time and then by number, before its sibling and before that
last entry. -/
def TakesFairly (q : EventQueue (Numbered ε)) : Prop :=
  FairPop Event.key Event.number q.eventQueue.arr

instance (q : EventQueue (Numbered ε)) : Decidable (TakesFairly q) :=
  inferInstanceAs (Decidable (FairPop Event.key Event.number q.eventQueue.arr))

section Forget

def Event.forget (ev : Event (Numbered ε)) : Event ε := ⟨ev.fireTime, ev.body.1⟩

theorem Event.key_forget (ev : Event (Numbered ε)) : ev.forget.key = ev.key := rfl

def EventQueue.forget (q : EventQueue (Numbered ε)) : EventQueue ε :=
  ⟨q.eventQueue.map Event.forget Event.key_forget, q.curCycle⟩

def Sim.forget (s : Sim (Numbered ε) (σ × ℕ)) : Sim ε σ := ⟨s.queue.forget, s.state.1⟩

def Processed.forget (p : Processed (Numbered ε)) : Processed ε :=
  ⟨p.event.forget, p.cycle, p.requests.map fun r => (r.1.1, r.2)⟩

theorem EventQueue.forget_schedule (q : EventQueue (Numbered ε)) (ev : ε) (n : ℕ)
    (delay : UInt64) : (q.schedule (ev, n) delay).forget = q.forget.schedule ev delay :=
  congrArg (fun heap => (⟨heap, q.curCycle⟩ : EventQueue ε))
    (PriorityQueue.map_push Event.key_forget q.eventQueue ⟨q.curCycle + delay, (ev, n)⟩).symm

theorem EventQueue.forget_scheduleAll (q : EventQueue (Numbered ε)) (n : ℕ)
    (reqs : List (ε × UInt64)) :
    (q.scheduleAll (numberFrom n reqs)).forget = q.forget.scheduleAll reqs := by
  induction reqs generalizing q n with
  | nil => rfl
  | cons r rs ih =>
    have hrest := ih (q.schedule (r.1, n) r.2) (n + 1)
    rwa [forget_schedule] at hrest

theorem forget_numberFrom (n : ℕ) (reqs : List (ε × UInt64)) :
    (numberFrom n reqs).map (fun r => (r.1.1, r.2)) = reqs := by
  induction reqs generalizing n with
  | nil => rfl
  | cons r rs ih => exact congrArg (r :: ·) (ih (n + 1))

variable (process : Process ε σ) (s : Sim (Numbered ε) (σ × ℕ))

theorem Sim.forget_fire (ev : Event (Numbered ε)) : fire process s.forget ev.forget =
    ((fire (numbered process) s ev).1.forget, (fire (numbered process) s ev).2.forget) := by
  have hqueue := EventQueue.forget_scheduleAll ⟨s.queue.eventQueue.pop, ev.fireTime⟩ s.state.2
    (process ev.body.1 ev.fireTime s.state.1).2
  have hreqs := forget_numberFrom s.state.2 (process ev.body.1 ev.fireTime s.state.1).2
  have hpop : s.forget.queue.eventQueue.pop =
      s.queue.eventQueue.pop.map Event.forget Event.key_forget :=
    PriorityQueue.map_pop Event.key_forget s.queue.eventQueue
  apply Prod.ext
  · simp only [fire, hpop]
    exact congrArg (fun q => (⟨q, _⟩ : Sim ε σ)) hqueue.symm
  · exact congrArg (Processed.mk ev.forget ev.fireTime) hreqs.symm

theorem Sim.forget_loop (e : UInt64) (fuel : ℕ) : loop process e fuel s.forget =
    (loop (numbered process) e fuel s).map fun r => (r.1.forget, r.2.map Processed.forget) := by
  induction fuel generalizing s with
  | zero => rfl
  | succ fuel ih =>
    have htop : s.forget.queue.eventQueue.top? = s.queue.eventQueue.top?.map Event.forget :=
      PriorityQueue.top?_map Event.key_forget s.queue.eventQueue
    cases hev : s.queue.eventQueue.top? with
    | none =>
      rw [hev, Option.map_none] at htop
      simp only [loop, htop, hev]
      rfl
    | some ev =>
      rw [hev, Option.map_some] at htop
      by_cases hlt : ev.fireTime < e
      · rw [loop_fire htop hlt, loop_fire hev hlt, forget_fire, ih, Option.map_map, Option.map_map]
        rfl
      · have hlt' : ¬ ev.forget.fireTime < e := hlt
        simp only [loop, htop, hev, if_neg hlt, if_neg hlt']
        rfl

/-- Without the numbers, a run of the numbered bodies is the run of the program. -/
theorem Sim.forget_run (n : UInt64) (fuel : ℕ) : run process n fuel s.forget =
    (run (numbered process) n fuel s).map fun r => (r.1.forget, r.2.map Processed.forget) := by
  have hcycle : s.forget.queue.curCycle = s.queue.curCycle := rfl
  rw [run, run, hcycle, forget_loop, Option.map_map, Option.map_map]
  rfl

end Forget

/-- What holds between the schedule calls and the passes of the loop, after `n` calls. -/
structure OrderKept (q : EventQueue (Numbered ε)) (n : ℕ) (trace : List (Processed (Numbered ε))) :
    Prop where
  numbers : (trace.map (·.event) ++ q.events).map Event.number ~ List.range n
  heap : Ordered (aged Event.key Event.number) q.eventQueue.arr
  older : ∀ p ∈ trace, ∀ ev ∈ q.events, p.event.fireTime = ev.fireTime →
    p.event.number < ev.number
  inOrder : InScheduleOrder trace

namespace OrderKept
variable {q : EventQueue (Numbered ε)} {n : ℕ} {trace : List (Processed (Numbered ε))}

theorem new : OrderKept (.new : EventQueue (Numbered ε)) 0 [] :=
  ⟨.refl _, .empty, by simp, .nil⟩

theorem number_lt (h : OrderKept q n trace) {ev : Event (Numbered ε)}
    (hev : ev ∈ trace.map (·.event) ++ q.events) : ev.number < n :=
  List.mem_range.mp (h.numbers.subset (List.mem_map_of_mem hev))

theorem schedule (h : OrderKept q n trace) (ev : ε) (delay : UInt64) :
    OrderKept (q.schedule (ev, n) delay) (n + 1) trace := by
  have hperm := EventQueue.events_schedule q (ev, n) delay
  refine ⟨?_, ?_, ?_, h.inOrder⟩
  · rw [List.range_succ]
    calc (trace.map (·.event) ++ (q.schedule (ev, n) delay).events).map Event.number
      _ ~ (trace.map (·.event) ++ (⟨q.curCycle + delay, (ev, n)⟩ :: q.events)).map Event.number :=
        (hperm.append_left _).map _
      _ ~ n :: (trace.map (·.event) ++ q.events).map Event.number := List.perm_middle.map _
      _ ~ n :: List.range n := h.numbers.cons n
      _ ~ List.range n ++ [n] := (List.perm_append_singleton _ _).symm
  · apply pushHeap_aged_ordered h.heap
    intro x hx
    exact (h.number_lt (List.mem_append_right _ (Array.mem_toList_iff.mpr hx))).le
  · intro p hp x hx htime
    rcases List.mem_cons.mp (hperm.subset hx) with rfl | hx
    · exact h.number_lt (List.mem_append_left _ (List.mem_map_of_mem hp))
    · exact h.older p hp x hx htime

theorem scheduleAll (h : OrderKept q n trace) (reqs : List (ε × UInt64)) :
    OrderKept (q.scheduleAll (numberFrom n reqs)) (n + reqs.length) trace := by
  induction reqs generalizing q n with
  | nil => exact h
  | cons r rs ih =>
    have hrest := ih (h.schedule r.1 r.2)
    rwa [Nat.add_right_comm] at hrest

theorem pop (h : OrderKept q n trace) (hfair : TakesFairly q) {p : Processed (Numbered ε)}
    (htop : q.eventQueue.top? = some p.event) (cycle : UInt64) :
    OrderKept ⟨q.eventQueue.pop, cycle⟩ n (trace ++ [p]) := by
  have hperm : p.event :: q.eventQueue.pop.toList ~ q.events := PriorityQueue.toList_pop htop
  have hnumbers : ((trace ++ [p]).map (·.event) ++ q.eventQueue.pop.toList).map Event.number ~
      List.range n := by
    have hassoc : (trace ++ [p]).map (·.event) ++ q.eventQueue.pop.toList =
        trace.map (·.event) ++ (p.event :: q.eventQueue.pop.toList) := by simp
    rw [hassoc]
    exact ((hperm.append_left _).map _).trans h.numbers
  refine ⟨hnumbers, (popHeap_aged_ordered_iff h.heap).mpr hfair, ?_, ?_⟩
  · intro p' hp' ev hev htime
    have hmem : ev ∈ q.events := hperm.subset (List.mem_cons_of_mem _ hev)
    rcases List.mem_append.mp hp' with hp' | hp'
    · exact h.older p' hp' ev hmem htime
    · have hlast : p' ∈ trace ++ [p] := List.mem_append_right _ hp'
      obtain rfl := List.mem_singleton.mp hp'
      -- the front is before every other entry, and numbers do not repeat
      have hle : aged Event.key Event.number p'.event ≤ aged Event.key Event.number ev :=
        PriorityQueue.aged_le_of_top? h.heap htop hmem
      have hkey : p'.event.key = ev.key := congrArg UInt64.toNat htime
      have hne : p'.event.number ≠ ev.number := by
        have hnodup := hnumbers.nodup_iff.mpr List.nodup_range
        rw [List.map_append] at hnodup
        intro heq
        refine (List.nodup_append.mp hnodup).2.2 _ ?_ _ (List.mem_map_of_mem hev) heq
        exact List.mem_map_of_mem (List.mem_map_of_mem hlast)
      rcases aged_le_iff.mp hle with hlt | ⟨-, hage⟩
      · exact absurd hkey hlt.ne
      · exact lt_of_le_of_ne hage hne
  · refine List.pairwise_append.mpr ⟨h.inOrder, List.pairwise_singleton _ _, ?_⟩
    intro p' hp' p'' hp'' htime
    obtain rfl := List.mem_singleton.mp hp''
    exact h.older p' hp' _ (hperm.subset (List.mem_cons_self ..)) htime

end OrderKept

section Runs
variable {process : Process ε σ} {ok : EventQueue (Numbered ε) → Prop}
variable {s t : Sim (Numbered ε) (σ × ℕ)} {trace new : List (Processed (Numbered ε))}

theorem OrderKept.fire {ev : Event (Numbered ε)} (h : OrderKept s.queue s.state.2 trace)
    (hfair : TakesFairly s.queue) (htop : s.queue.eventQueue.top? = some ev) :
    OrderKept (Sim.fire (numbered process) s ev).1.queue
      (Sim.fire (numbered process) s ev).1.state.2
      (trace ++ [(Sim.fire (numbered process) s ev).2]) :=
  (h.pop (p := (Sim.fire (numbered process) s ev).2) hfair htop ev.fireTime).scheduleAll
    (process ev.body.1 ev.fireTime s.state.1).2

theorem OrderKept.loop {e : UInt64} {fuel : ℕ} (h : OrderKept s.queue s.state.2 trace)
    (hloop : Sim.loop (numbered process) e fuel s = some (t, new))
    (hfair : ∀ q ∈ Sim.poppedFrom (numbered process) e fuel s, TakesFairly q) :
    OrderKept t.queue t.state.2 (trace ++ new) := by
  induction fuel generalizing s trace new with
  | zero => simp [Sim.loop] at hloop
  | succ fuel ih =>
    rw [Sim.loop] at hloop
    rw [Sim.poppedFrom] at hfair
    cases htop : s.queue.eventQueue.top? with
    | none =>
      simp only [htop, Option.some.injEq, Prod.mk.injEq] at hloop
      obtain ⟨rfl, rfl⟩ := hloop
      rwa [List.append_nil]
    | some ev =>
      simp only [htop] at hloop hfair
      split_ifs at hloop hfair with hlt
      · obtain ⟨⟨t', rest⟩, hrest, heq⟩ := Option.map_eq_some_iff.mp hloop
        obtain ⟨rfl, rfl⟩ := Prod.mk.inj heq
        obtain ⟨hhead, htail⟩ := List.forall_mem_cons.mp hfair
        rw [List.append_cons]
        exact ih (h.fire hhead htop) hrest htail
      · simp only [Option.some.injEq, Prod.mk.injEq] at hloop
        obtain ⟨rfl, rfl⟩ := hloop
        rwa [List.append_nil]

theorem Course.orderKept (h : Course process TakesFairly s trace) :
    OrderKept s.queue s.state.2 trace := by
  induction h with
  | start x => exact .new
  | assign x _ ih => exact ih
  | schedule ev delay _ ih => exact ih.schedule ev delay
  | run _ hrun hfair ih =>
    obtain ⟨u, hloop, rfl⟩ := Sim.run_eq_some hrun
    have hkept := ih.loop hloop hfair
    exact ⟨hkept.numbers, hkept.heap, hkept.older, hkept.inOrder⟩

end Runs

/-- Where every event is taken out fairly, events of one cycle are processed in the order of
their schedule calls. -/
theorem ties_in_schedule_order {process : Process ε σ} {s : Sim (Numbered ε) (σ × ℕ)}
    {trace : List (Processed (Numbered ε))} (h : Course process TakesFairly s trace) :
    InScheduleOrder trace := h.orderKept.inOrder

def tickingProcess : Process (SimEvent ℕ Empty) Unit :=
  Bodies.process ⟨fun _ _ s => (s, []), fun ev => ev.elim⟩

def startedTicks (n : ℕ) : Sim (Numbered (SimEvent ℕ Empty)) (Unit × ℕ) :=
  (List.range n).foldl (fun s obj => s.scheduleNext (.tick obj) 1) ⟨.new, ((), 0)⟩

theorem startedTicks_course {ok : EventQueue (Numbered (SimEvent ℕ Empty)) → Prop} (n : ℕ) :
    Course tickingProcess ok (startedTicks n) [] := by
  have hall : ∀ (objs : List ℕ) (s : Sim (Numbered (SimEvent ℕ Empty)) (Unit × ℕ)),
      Course tickingProcess ok s [] →
      Course tickingProcess ok (objs.foldl (fun s obj => s.scheduleNext (.tick obj) 1) s) [] := by
    intro objs
    induction objs with
    | nil => exact fun s h => h
    | cons obj objs ih => exact fun s h => ih _ (h.schedule (.tick obj) 1)
  exact hall (List.range n) _ (.start ())

def tickedObjects (trace : List (Processed (Numbered (SimEvent ℕ Empty)))) : List (ℕ × UInt64) :=
  trace.filterMap fun p =>
    match p.event.body.1 with
    | .tick obj => some (obj, p.cycle)
    | .other _ => none

/-- Three objects keep their order. -/
theorem ties_in_schedule_order_ticks : ∃ r,
    Sim.run (numbered tickingProcess) 3 9 (startedTicks 3) = some r ∧
    tickedObjects r.2 = [(0, 1), (1, 1), (2, 1), (0, 2), (1, 2), (2, 2)] ∧
    InScheduleOrder r.2 := by
  have hrun : Sim.run (numbered tickingProcess) 3 9 (startedTicks 3) = some _ := rfl
  exact ⟨_, hrun, rfl, ties_in_schedule_order ((startedTicks_course 3).run hrun (by decide))⟩

/-- Four objects tick out of order, and in another order in each cycle. -/
theorem four_ticks_out_of_order : ∃ s trace,
    Course tickingProcess (fun _ => True) s trace ∧
    tickedObjects trace =
      [(0, 1), (2, 1), (3, 1), (1, 1), (0, 2), (3, 2), (1, 2), (2, 2)] ∧
    ¬ InScheduleOrder trace := by
  have hrun : Sim.run (numbered tickingProcess) 3 9 (startedTicks 4) = some _ := rfl
  exact ⟨_, _, (startedTicks_course 4).run hrun (fun _ _ => trivial), rfl, by decide⟩

end GemSc
