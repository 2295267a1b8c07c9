import GemSc.Lib.KeyedHeap

/-! `EventQueue` and its run loop. The body of an event is a function of the current
cycle and the simulation state; it returns the new state and the schedule calls it
made, in order. The loop is run on fuel and records what it processed. -/

namespace GemSc

structure Event (ε : Type*) where
  fireTime : UInt64
  body : ε

/-- `event_compare` makes the heap a min-heap on `fire_time`. -/
abbrev Event.key {ε : Type*} (ev : Event ε) : ℕ := ev.fireTime.toNat

def Event.ofRequests {ε : Type*} (cycle : UInt64) (reqs : List (ε × UInt64)) : List (Event ε) :=
  reqs.map fun r => ⟨cycle + r.2, r.1⟩

structure EventQueue (ε : Type*) where
  eventQueue : KeyedHeap.PriorityQueue (@Event.key ε)
  curCycle : UInt64

/-- `Event::process`: the effect of a body at a cycle, and its schedule calls. -/
abbrev Process (ε σ : Type*) := ε → UInt64 → σ → σ × List (ε × UInt64)

namespace EventQueue
variable {ε : Type*}

def new : EventQueue ε := ⟨.empty, 0⟩

def events (q : EventQueue ε) : List (Event ε) := q.eventQueue.toList

def schedule (q : EventQueue ε) (ev : ε) (delay : UInt64) : EventQueue ε :=
  { q with eventQueue := q.eventQueue.push ⟨q.curCycle + delay, ev⟩ }

def scheduleAll (q : EventQueue ε) (reqs : List (ε × UInt64)) : EventQueue ε :=
  reqs.foldl (fun q r => q.schedule r.1 r.2) q

@[simp] theorem schedule_curCycle (q : EventQueue ε) (ev : ε) (delay : UInt64) :
    (q.schedule ev delay).curCycle = q.curCycle := rfl

@[simp] theorem scheduleAll_curCycle (q : EventQueue ε) (reqs : List (ε × UInt64)) :
    (q.scheduleAll reqs).curCycle = q.curCycle := by
  induction reqs generalizing q with
  | nil => rfl
  | cons r rs ih => exact ih (q.schedule r.1 r.2)

end EventQueue

structure Sim (ε σ : Type*) where
  queue : EventQueue ε
  state : σ

/-- One pass of the loop body: the event, `cur_cycle` while it ran, its schedule calls. -/
structure Processed (ε : Type*) where
  event : Event ε
  cycle : UInt64
  requests : List (ε × UInt64)

def Processed.scheduled {ε : Type*} (p : Processed ε) : List (Event ε) :=
  Event.ofRequests p.cycle p.requests

namespace Sim
variable {ε σ : Type*} (process : Process ε σ)

def fire (s : Sim ε σ) (ev : Event ε) : Sim ε σ × Processed ε :=
  let q : EventQueue ε := ⟨s.queue.eventQueue.pop, ev.fireTime⟩
  let r := process ev.body q.curCycle s.state
  (⟨q.scheduleAll r.2, r.1⟩, ⟨ev, q.curCycle, r.2⟩)

/-- The `while` loop of `run`; `none` when the fuel does not last. -/
def loop (endCycle : UInt64) : ℕ → Sim ε σ → Option (Sim ε σ × List (Processed ε))
  | 0, _ => none
  | fuel + 1, s =>
    match s.queue.eventQueue.top? with
    | none => some (s, [])
    | some ev =>
      if ev.fireTime < endCycle then
        (loop endCycle fuel (fire process s ev).1).map fun r => (r.1, (fire process s ev).2 :: r.2)
      else some (s, [])

def run (numCycles : UInt64) (fuel : ℕ) (s : Sim ε σ) : Option (Sim ε σ × List (Processed ε)) :=
  (loop process (s.queue.curCycle + numCycles) fuel s).map fun r =>
    (⟨⟨r.1.queue.eventQueue, s.queue.curCycle + numCycles⟩, r.1.state⟩, r.2)

end Sim
end GemSc
