import GemSc.Core.EventRun
import GemSc.Core.PortManager
import GemSc.Modules.Inversion
import GemSc.Pool.Usable

/-! Runs of the event queue with a `MemorySim` in it: which responses it sends, and when. The
rest of the program calls its handler, changes packets and the pool and schedules events. -/

namespace GemSc
open ExceptFold
open scoped List

namespace PortManager

def withPorts (ports : List (Bool × List ℕ × List ℕ × String)) : PortManager :=
  ports.foldl (fun pm s => pm.addPort s.1 s.2.1 s.2.2.1 s.2.2.2) .empty

/-- An upstream port is found under the id that it hands to its owner. -/
def Numbered (pm : PortManager) : Prop :=
  ∀ (i : ℕ) (u : UpstreamPort), pm.upstream.ports[i]? = some u → u.id = i

theorem numbered_withPorts (ports : List (Bool × List ℕ × List ℕ × String)) :
    (withPorts ports).Numbered := by
  induction ports using List.reverseRecOn with
  | nil => exact fun i u h => absurd h (by simp [withPorts, empty])
  | append_singleton ports s ih =>
    intro i u h
    obtain ⟨up, sizes, priorities, label⟩ := s
    rw [withPorts, List.foldl_append] at h
    cases up with
    | false => exact ih i u h
    | true =>
      rcases Nat.lt_or_ge i (withPorts ports).upstream.ports.length with hlt | hge
      · exact ih i u ((List.getElem?_append_left hlt).symm.trans h)
      · have hlast := (List.getElem?_append_right hge).symm.trans h
        have hi : i - (withPorts ports).upstream.ports.length = 0 := by
          have hlt := (List.getElem?_eq_some_iff.mp hlast).1
          exact Nat.lt_one_iff.mp hlt
        rw [hi] at hlast
        obtain rfl := Option.some.inj hlast
        exact le_antisymm hge (Nat.sub_eq_zero_iff_le.mp hi)

end PortManager

/-- No packet is twice in the free list, and all that are in it were allocated. -/
structure Arena.FreePackets (a : Arena) : Prop where
  nodup : a.pool.packetFreelist.Nodup
  allocated : ∀ p ∈ a.pool.packetFreelist, p < a.heap.nextPacket

namespace Arena
variable {a b : Arena} {x y p : PacketPtr}

theorem Acquired.ne_of_usable (h : Acquired a x b) (hy : a.Usable y) : y ≠ x := by
  rintro rfl
  obtain ⟨hlt, hfree, -⟩ := hy
  rcases h.packets with ⟨hcons, -⟩ | ⟨-, -, rfl, -⟩
  · exact hfree (hcons ▸ List.mem_cons_self ..)
  · exact lt_irrefl _ hlt

theorem FreePackets.acquire (hf : a.FreePackets) (h : Acquired a x b) :
    b.FreePackets ∧ b.Usable x := by
  obtain ⟨hnodup, halloc⟩ := hf
  have halive : x ∉ b.heap.deletedPackets := h.deletedPackets ▸ h.alive
  rcases h.packets with ⟨hcons, hn⟩ | ⟨-, hnil, rfl, hn⟩
  · rw [hcons] at hnodup halloc
    obtain ⟨hx, hnodup⟩ := List.nodup_cons.mp hnodup
    obtain ⟨hlt, halloc⟩ := List.forall_mem_cons.mp halloc
    exact ⟨⟨hnodup, fun q hq => hn ▸ halloc q hq⟩, hn ▸ hlt, hx, halive⟩
  · refine ⟨⟨?_, ?_⟩, hn ▸ Nat.lt_succ_self _, ?_, halive⟩ <;> rw [hnil]
    · exact List.nodup_nil
    · exact fun q hq => absurd hq List.not_mem_nil
    · exact List.not_mem_nil

theorem makeResponse_fresh {now : UInt64} {r : PacketPtr × Arena} (hf : a.FreePackets)
    (hp : a.Usable p) (h : a.makeResponse now p p = .ok r) :
    r.2.FreePackets ∧ r.2.Usable r.1 ∧
      ((r.2.heap.packet r.1).originalReq = some p ∧
        (r.2.heap.packet r.1).vcId = (a.heap.packet p).vcId ∧ (r.2.heap.packet r.1).type = .resp) ∧
      ∀ y, a.Usable y → r.2.Usable y ∧ r.2.heap.packet y = a.heap.packet y := by
  obtain ⟨-, b, hacq, heq⟩ := makeResponse_eq_ok h
  obtain ⟨hfree, hx⟩ := hf.acquire hacq
  have hsame : ∀ y, a.Usable y → b.heap.packet y = a.heap.packet y := by
    intro y hy
    rw [hacq.packet, Function.update_of_ne (hacq.ne_of_usable hy)]
  rw [heq]
  refine ⟨⟨hfree.nodup, hfree.allocated⟩, hx, ?_, ?_⟩
  · simp only [respond, modify, Heap.packet_modify_self, hsame p hp, and_self]
  · intro y hy
    refine ⟨hacq.usable hy, ?_⟩
    rw [respond, modify, Heap.packet_modify_of_ne _ _ (hacq.ne_of_usable hy)]
    exact hsame y hy

end Arena

/-- A request that the memory handled: the port it came by, when, and its VC at that time. -/
structure Handled where
  request : PacketPtr
  port : ℕ
  cycle : UInt64
  vcId : ℤ

structure Reply where
  id : ℕ
  port : Option ℕ
  cycle : UInt64
  originalReq : Option PacketPtr
  vcId : ℤ
  type : PacketType
  deriving DecidableEq

def Handled.reply (q : Handled) (id : ℕ) : Reply :=
  ⟨id, some q.port, q.cycle + 100, some q.request, q.vcId, .resp⟩

inductive MemoryEvent
  | respond (id srcId : ℕ) (p : PacketPtr)
  | other

inductive MemoryAction
  /-- The upstream port at an index offers a request to the memory. -/
  | request (p : PacketPtr) (port : ℕ)
  | schedule (delay : UInt64)
  | outside (a : Arena)

/-- `script` holds what other modules do in the events to come, the next one first, and
`waiting` the responses that were not yet sent, with their numbers. -/
structure MemoryWorld where
  arena : Arena
  script : List (List MemoryAction)
  handled : List Handled
  waiting : List (ℕ × PacketPtr)
  sent : List Reply

instance (p : PacketPtr) (a : Arena) : Decidable (a.Usable p) :=
  inferInstanceAs (Decidable (_ ∧ _ ∧ _))

instance (a : Arena) : Decidable a.FreePackets :=
  decidable_of_iff (a.pool.packetFreelist.Nodup ∧
    ∀ p ∈ a.pool.packetFreelist, p < a.heap.nextPacket)
    ⟨fun h => ⟨h.1, h.2⟩, fun h => ⟨h.nodup, h.allocated⟩⟩

def MemoryEvent.id? : MemoryEvent → Option ℕ
  | .respond id _ _ => some id
  | .other => none

namespace MemoryWorld
variable (pm : PortManager) (now : UInt64)

/-- What other modules keep to: a request is not a free packet, and responses that were not yet
sent are left alone. -/
def Allows (w : MemoryWorld) : MemoryAction → Prop
  | .request p _ => w.arena.Usable p
  | .schedule _ => True
  | .outside a => a.FreePackets ∧ ∀ r ∈ w.waiting, a.Usable r.2 ∧
      a.heap.packet r.2 = w.arena.heap.packet r.2

instance (w : MemoryWorld) : DecidablePred w.Allows
  | .request p _ => inferInstanceAs (Decidable (w.arena.Usable p))
  | .schedule _ => inferInstanceAs (Decidable True)
  | .outside _ => inferInstanceAs (Decidable (_ ∧ _))

def host : Host := ⟨now, pm.upstream.ports, pm.downstream.ports, fun _ _ => false, 0, 0⟩

def responses (id : ℕ) (tasks : List (Task × UInt64)) :
    List (MemoryEvent × UInt64) × List (ℕ × PacketPtr) :=
  (tasks.filterMap fun t => match t.1 with
      | .sendResp srcId p => some (.respond id srcId p, t.2)
      | .tryForward => none,
    tasks.filterMap fun t => match t.1 with
      | .sendResp _ p => some (id, p)
      | .tryForward => none)

def take (w : MemoryWorld) : MemoryAction →
    Except MemoryFault (MemoryWorld × List (MemoryEvent × UInt64))
  | .request p port =>
    match pm.upstream.ports[port]? with
    | none => .ok (w, [])
    | some u => do
      let r ← MemorySim.handleUpstreamRequest (host pm now) p u.id ⟨⟩ w.arena
      let made := responses w.handled.length r.2.scheduled
      return ({ w with
        arena := r.2.arena
        handled := w.handled ++ [⟨p, port, now, (w.arena.heap.packet p).vcId⟩]
        waiting := w.waiting ++ made.2 }, made.1)
  | .schedule delay => .ok (w, [(.other, delay)])
  | .outside a => .ok ({ w with arena := a }, [])

/-- An action that other modules do not take is left out. -/
def act (w : MemoryWorld) (x : MemoryAction) :
    Except MemoryFault (MemoryWorld × List (MemoryEvent × UInt64)) :=
  if w.Allows x then w.take pm now x else .ok (w, [])

def perform (w : MemoryWorld) : List MemoryAction →
    Except MemoryFault (MemoryWorld × List (MemoryEvent × UInt64))
  | [] => .ok (w, [])
  | x :: xs => do
    let r ← w.act pm now x
    let rest ← r.1.perform xs
    return (rest.1, r.2 ++ rest.2)

/-- `getUpstreamPorts()[src_id]->sendResp(resp)` -/
def send (id srcId : ℕ) (p : PacketPtr) (w : MemoryWorld) : MemoryWorld :=
  let resp := w.arena.heap.packet p
  { w with
    waiting := w.waiting.filter fun r => r.1 ≠ id
    sent := w.sent ++ [⟨id, if srcId < pm.upstream.ports.length then some srcId else none, now,
      resp.originalReq, resp.vcId, resp.type⟩] }

def deliver (ev : MemoryEvent) (w : MemoryWorld) : MemoryWorld :=
  match ev with
  | .respond id srcId p => w.send pm now id srcId p
  | .other => w

/-- The body of an event: a response is sent, and other modules do what is next in the script. -/
def process : Process MemoryEvent (Except MemoryFault MemoryWorld) := fun ev now state =>
  let r := do
    let w ← state
    let w := w.deliver pm now ev
    { w with script := w.script.tail }.perform pm now (w.script.headD [])
  match r with
  | .error e => (.error e, [])
  | .ok (w, reqs) => (.ok w, reqs)

/-- What a program with a memory reaches by acting between the runs of the queue and in them,
with no cycle sum reaching `2 ^ 64`. -/
inductive Reached : Sim MemoryEvent (Except MemoryFault MemoryWorld) → Prop
  | start (a : Arena) (script : List (List MemoryAction)) (ha : a.FreePackets) :
      Reached ⟨.new, .ok ⟨a, script, [], [], []⟩⟩
  | act {s : Sim MemoryEvent (Except MemoryFault MemoryWorld)} {w w' : MemoryWorld}
      {reqs : List (MemoryEvent × UInt64)} (x : MemoryAction) : Reached s → s.state = .ok w →
      w.act pm s.queue.curCycle x = .ok (w', reqs) →
      (∀ r ∈ reqs, s.queue.curCycle.toNat + r.2.toNat < 2 ^ 64) →
      Reached ⟨s.queue.scheduleAll reqs, .ok w'⟩
  | run {s t : Sim MemoryEvent (Except MemoryFault MemoryWorld)} {n : UInt64} {fuel : ℕ}
      {trace : List (Processed MemoryEvent)} : Reached s →
      s.queue.curCycle.toNat + n.toNat < 2 ^ 64 →
      Sim.run (process pm) n fuel s = some (t, trace) → (∀ p ∈ trace, p.NoWrap) → Reached t

/-- Every handled request has one response at most, and has one once its cycle has passed. What
was sent is what the requests are to get, and those of earlier cycles went first. -/
structure Answered (w : MemoryWorld) : Prop where
  once : (w.sent.map (·.id)).Nodup
  sent : ∀ i q, w.handled[i]? = some q → q.cycle + 100 < now → i ∈ w.sent.map (·.id)
  right : ∀ r ∈ w.sent, ∃ q, w.handled[r.id]? = some q ∧ r = q.reply r.id
  inOrder : w.sent.Pairwise fun r r' => ∀ q q', w.handled[r.id]? = some q →
    w.handled[r'.id]? = some q' → q.cycle ≠ q'.cycle → r.id < r'.id

def Carries (w : MemoryWorld) (p : PacketPtr) (q : Handled) : Prop :=
  (w.arena.heap.packet p).originalReq = some q.request ∧ (w.arena.heap.packet p).vcId = q.vcId ∧
    (w.arena.heap.packet p).type = .resp

/-- The events that are pending at a cycle hold the responses that were not yet sent, each with
its time and its fields. -/
structure Due (evs : List (Event MemoryEvent)) (w : MemoryWorld) : Prop where
  free : w.arena.FreePackets
  usable : ∀ r ∈ w.waiting, w.arena.Usable r.2
  pending : ∀ ev ∈ evs, now ≤ ev.fireTime
  once : (evs.filterMap (·.body.id?) ++ w.sent.map (·.id)) ~ List.range w.handled.length
  queued : ∀ ev ∈ evs, ∀ id srcId p, ev.body = .respond id srcId p → (id, p) ∈ w.waiting ∧
    ∃ q, w.handled[id]? = some q ∧ srcId = q.port ∧ ev.fireTime = q.cycle + 100 ∧ w.Carries p q
  handled : ∀ q ∈ w.handled, q.port < pm.upstream.ports.length ∧ q.cycle ≤ now ∧
    q.cycle.toNat + 100 < 2 ^ 64
  handledInOrder : w.handled.Pairwise fun q q' => q.cycle ≤ q'.cycle
  right : ∀ r ∈ w.sent, r.cycle ≤ now ∧ ∃ q, w.handled[r.id]? = some q ∧ r = q.reply r.id
  sentInOrder : w.sent.Pairwise fun r r' => r.cycle ≤ r'.cycle

variable {pm now} {w w' : MemoryWorld} {evs evs' : List (Event MemoryEvent)}
  {reqs : List (MemoryEvent × UInt64)}

theorem due_start {a : Arena} (script : List (List MemoryAction)) (ha : a.FreePackets) :
    Due pm now [] ⟨a, script, [], [], []⟩ where
  free := ha
  usable := fun _ hr => absurd hr List.not_mem_nil
  pending := fun _ hev => absurd hev List.not_mem_nil
  once := List.Perm.refl []
  queued := fun _ hev => absurd hev List.not_mem_nil
  handled := fun _ hq => absurd hq List.not_mem_nil
  handledInOrder := List.Pairwise.nil
  right := fun _ hr => absurd hr List.not_mem_nil
  sentInOrder := List.Pairwise.nil

theorem Due.perm (h : Due pm now evs w) (hperm : evs' ~ evs) : Due pm now evs' w :=
  { h with
    pending := fun ev hev => h.pending ev (hperm.subset hev)
    once := ((hperm.filterMap _).append_right _).trans h.once
    queued := fun ev hev => h.queued ev (hperm.subset hev) }

theorem Due.advance {now' : UInt64} (h : Due pm now evs w) (hle : now ≤ now')
    (hpending : ∀ ev ∈ evs, now' ≤ ev.fireTime) : Due pm now' evs w :=
  { h with
    pending := hpending
    handled := fun q hq => ⟨(h.handled q hq).1, UInt64.le_trans (h.handled q hq).2.1 hle,
      (h.handled q hq).2.2⟩
    right := fun r hr => ⟨UInt64.le_trans (h.right r hr).1 hle, (h.right r hr).2⟩ }

theorem Due.other_iff {t : UInt64} (ht : now ≤ t) : Due pm now (⟨t, .other⟩ :: evs) w ↔ Due pm now evs w := by
  constructor
  · intro h
    exact { h with
      pending := fun ev hev => h.pending ev (List.mem_cons_of_mem _ hev)
      once := h.once
      queued := fun ev hev => h.queued ev (List.mem_cons_of_mem _ hev) }
  · intro h
    refine { h with pending := List.forall_mem_cons.mpr ⟨ht, h.pending⟩, once := h.once, queued := ?_ }
    intro ev hev id srcId p hbody
    rcases List.mem_cons.mp hev with rfl | hev
    · cases hbody
    · exact h.queued ev hev id srcId p hbody

theorem Due.outside {a : Arena} (h : Due pm now evs w) (hallow : w.Allows (.outside a)) :
    Due pm now evs { w with arena := a } := by
  obtain ⟨hfree, hspare⟩ := hallow
  refine { h with free := hfree, usable := fun r hr => (hspare r hr).1, once := h.once, queued := ?_ }
  intro ev hev id srcId p hbody
  obtain ⟨hwait, q, hq, hsrc, htime, hcarries⟩ := h.queued ev hev id srcId p hbody
  refine ⟨hwait, q, hq, hsrc, htime, ?_⟩
  rw [Carries, (hspare (id, p) hwait).2]
  exact hcarries

theorem take_request_eq_ok {p : PacketPtr} {port : ℕ}
    (h : w.take pm now (.request p port) = .ok (w', reqs)) :
    (w' = w ∧ reqs = []) ∨ ∃ u r, pm.upstream.ports[port]? = some u ∧
      w.arena.makeResponse now p p = .ok r ∧
      w' = { w with
        arena := r.2
        handled := w.handled ++ [⟨p, port, now, (w.arena.heap.packet p).vcId⟩]
        waiting := w.waiting ++ [(w.handled.length, r.1)] } ∧
      reqs = [(.respond w.handled.length u.id r.1, 100)] := by
  rw [take] at h
  split at h
  · obtain ⟨rfl, rfl⟩ := Prod.mk.inj (Except.ok.inj h)
    exact .inl ⟨rfl, rfl⟩
  · next u hu =>
    obtain ⟨⟨ok, e⟩, he, hend⟩ := bind_pure_eq_ok.mp h
    obtain ⟨r, hresp, -, rfl⟩ := MemorySim.handleUpstreamRequest_eq_ok he
    obtain ⟨rfl, rfl⟩ := Prod.mk.inj hend
    exact .inr ⟨u, r, hu, hresp, rfl, rfl⟩

theorem Due.request {p : PacketPtr} {port : ℕ} (h : Due pm now evs w)
    (hids : pm.Numbered) (hp : w.arena.Usable p)
    (htake : w.take pm now (.request p port) = .ok (w', reqs))
    (hwrap : ∀ r ∈ reqs, now.toNat + r.2.toNat < 2 ^ 64) :
    Due pm now (Event.ofRequests now reqs ++ evs) w' := by
  rcases take_request_eq_ok htake with ⟨rfl, rfl⟩ | ⟨u, r, hu, hresp, rfl, rfl⟩
  · exact h
  · obtain ⟨hfree, hx, hfields, hothers⟩ := Arena.makeResponse_fresh h.free hp hresp
    have hport : port < pm.upstream.ports.length := (List.getElem?_eq_some_iff.mp hu).1
    have hnowrap : now.toNat + 100 < 2 ^ 64 := hwrap _ (List.mem_singleton_self _)
    obtain rfl := hids port u hu
    -- the new response is on a packet of its own, so what waits keeps its packets
    refine ⟨hfree, ?_, ?_, ?_, ?_, ?_, ?_, ?_, h.sentInOrder⟩
    · intro s hs
      rcases List.mem_append.mp hs with hs | hs
      · exact (hothers _ (h.usable s hs)).1
      · rw [List.mem_singleton.mp hs]
        exact hx
    · exact List.forall_mem_cons.mpr ⟨EventQueue.le_add_of_noWrap hnowrap, h.pending⟩
    · rw [List.length_append, List.length_singleton, List.range_succ]
      exact (h.once.cons _).trans (List.perm_append_singleton _ _).symm
    · intro ev hev id srcId p' hbody
      rcases List.mem_cons.mp hev with rfl | hev
      · obtain ⟨rfl, rfl, rfl⟩ := MemoryEvent.respond.inj hbody
        exact ⟨List.mem_append_right _ (List.mem_singleton_self _), _,
          List.getElem?_concat_length, rfl, rfl, hfields⟩
      · obtain ⟨hwait, q, hq, hsrc, htime, hcarries⟩ := h.queued ev hev id srcId p' hbody
        refine ⟨List.mem_append_left _ hwait, q, ?_, hsrc, htime, ?_⟩
        · exact (List.getElem?_append_left (List.getElem?_eq_some_iff.mp hq).1).trans hq
        · rw [Carries]
          dsimp only
          rw [(hothers p' (h.usable _ hwait)).2]
          exact hcarries
    · intro q hq
      rcases List.mem_append.mp hq with hq | hq
      · exact h.handled q hq
      · rw [List.mem_singleton.mp hq]
        exact ⟨hport, UInt64.le_refl _, hnowrap⟩
    · refine List.pairwise_append.mpr ⟨h.handledInOrder, List.pairwise_singleton .., ?_⟩
      intro q hq q' hq'
      rw [List.mem_singleton.mp hq']
      exact (h.handled q hq).2.1
    · intro s hs
      obtain ⟨hcycle, q, hq, heq⟩ := h.right s hs
      exact ⟨hcycle, q, (List.getElem?_append_left (List.getElem?_eq_some_iff.mp hq).1).trans hq, heq⟩

theorem Due.act {x : MemoryAction} (h : Due pm now evs w) (hids : pm.Numbered)
    (hact : w.act pm now x = .ok (w', reqs))
    (hwrap : ∀ r ∈ reqs, now.toNat + r.2.toNat < 2 ^ 64) :
    Due pm now (Event.ofRequests now reqs ++ evs) w' := by
  unfold MemoryWorld.act at hact
  split_ifs at hact with hallow
  · cases x with
    | request p port => exact h.request hids hallow hact hwrap
    | schedule delay =>
      obtain ⟨rfl, rfl⟩ := Prod.mk.inj (Except.ok.inj hact)
      exact (Due.other_iff (EventQueue.le_add_of_noWrap (hwrap _ (List.mem_singleton_self _)))).mpr h
    | outside a =>
      obtain ⟨rfl, rfl⟩ := Prod.mk.inj (Except.ok.inj hact)
      exact h.outside hallow
  · obtain ⟨rfl, rfl⟩ := Prod.mk.inj (Except.ok.inj hact)
    exact h

theorem Due.perform {xs : List MemoryAction} (h : Due pm now evs w) (hids : pm.Numbered)
    (hxs : w.perform pm now xs = .ok (w', reqs))
    (hwrap : ∀ r ∈ reqs, now.toNat + r.2.toNat < 2 ^ 64) :
    Due pm now (Event.ofRequests now reqs ++ evs) w' := by
  induction xs generalizing w evs reqs with
  | nil =>
    obtain ⟨rfl, rfl⟩ := Prod.mk.inj (Except.ok.inj hxs)
    exact h
  | cons x xs ih =>
    obtain ⟨⟨w₁, made⟩, hx, hrest⟩ := bind_eq_ok.mp hxs
    obtain ⟨⟨w₂, rest⟩, hxs', hend⟩ := bind_pure_eq_ok.mp hrest
    obtain ⟨rfl, rfl⟩ := Prod.mk.inj hend
    obtain ⟨hmade, hlater⟩ := List.forall_mem_append.mp hwrap
    have hdone := ih (h.act hids hx hmade) hxs' hlater
    refine hdone.perm ?_
    have hsplit : Event.ofRequests now (made ++ rest) =
        Event.ofRequests now made ++ Event.ofRequests now rest := List.map_append
    show Event.ofRequests now (made ++ rest) ++ evs ~ _
    rw [hsplit, ← List.append_assoc]
    exact List.perm_append_comm.append_right evs

theorem Due.send {id srcId : ℕ} {p : PacketPtr}
    (h : Due pm now (⟨now, .respond id srcId p⟩ :: evs) w) : Due pm now evs (w.send pm now id srcId p) := by
  obtain ⟨-, q, hq, rfl, htime, horig, hvc, htype⟩ :=
    h.queued _ (List.mem_cons_self ..) id srcId p rfl
  have hport : q.port < pm.upstream.ports.length := (h.handled q (List.mem_of_getElem? hq)).1
  -- the number is in no other event
  have hother : id ∉ evs.filterMap (·.body.id?) := by
    have hnodup := (h.once.nodup_iff.mpr List.nodup_range).of_append_left
    exact (List.nodup_cons.mp hnodup).1
  refine ⟨h.free, fun r hr => h.usable r (List.mem_of_mem_filter hr),
    fun ev hev => h.pending ev (List.mem_cons_of_mem _ hev), ?_, ?_, h.handled, h.handledInOrder, ?_, ?_⟩
  · refine List.Perm.trans ?_ h.once
    rw [MemoryWorld.send, List.map_append, ← List.append_assoc]
    exact List.perm_append_singleton _ _
  · intro ev hev id' srcId' p' hbody
    obtain ⟨hwait, hrest⟩ := h.queued ev (List.mem_cons_of_mem _ hev) id' srcId' p' hbody
    refine ⟨List.mem_filter.mpr ⟨hwait, decide_eq_true ?_⟩, hrest⟩
    rintro rfl
    exact hother (List.mem_filterMap.mpr ⟨ev, hev, by rw [hbody]; rfl⟩)
  · intro r hr
    rcases List.mem_append.mp hr with hr | hr
    · exact h.right r hr
    · rw [List.mem_singleton.mp hr]
      refine ⟨UInt64.le_refl _, q, hq, ?_⟩
      rw [Handled.reply, ← htime, ← horig, ← hvc, ← htype, if_pos hport]
  · refine List.pairwise_append.mpr ⟨h.sentInOrder, List.pairwise_singleton .., ?_⟩
    intro r hr r' hr'
    rw [List.mem_singleton.mp hr']
    exact (h.right r hr).1

theorem process_cases (pm : PortManager) (now : UInt64) (body : MemoryEvent) (w : MemoryWorld) :
    (∃ f, process pm body now (.ok w) = (.error f, [])) ∨
      ∃ w' reqs, process pm body now (.ok w) = (.ok w', reqs) ∧
        ({ w.deliver pm now body with script := w.script.tail } : MemoryWorld).perform pm now
          (w.script.headD []) = .ok (w', reqs) := by
  have hscript : (w.deliver pm now body).script = w.script := by
    cases body <;> rfl
  simp only [process, bind, Except.bind, hscript]
  cases hrun : ({ w.deliver pm now body with script := w.script.tail } : MemoryWorld).perform pm now
      (w.script.headD []) with
  | error f => exact .inl ⟨f, rfl⟩
  | ok r => exact .inr ⟨r.1, r.2, rfl, rfl⟩

def Sound (pm : PortManager) (s : Sim MemoryEvent (Except MemoryFault MemoryWorld)) : Prop :=
  ∀ w, s.state = .ok w → Due pm s.queue.curCycle s.queue.events w

theorem sound_fire {s : Sim MemoryEvent (Except MemoryFault MemoryWorld)} {ev : Event MemoryEvent}
    (h : Sound pm s) (hids : pm.Numbered) (htop : s.queue.eventQueue.top? = some ev)
    (hwrap : (Sim.fire (process pm) s ev).2.NoWrap) : Sound pm (Sim.fire (process pm) s ev).1 := by
  intro w' hw'
  rw [Sim.fire_curCycle]
  have hqueue := EventQueue.events_scheduleAll ⟨s.queue.eventQueue.pop, ev.fireTime⟩
    (process pm ev.body ev.fireTime s.state).2
  refine Due.perm ?_ hqueue
  have hstate : (process pm ev.body ev.fireTime s.state).1 = .ok w' := hw'
  have hwrap' : ∀ r ∈ (process pm ev.body ev.fireTime s.state).2,
      ev.fireTime.toNat + r.2.toNat < 2 ^ 64 := hwrap
  cases hs : s.state with
  | error f =>
    rw [hs] at hstate
    cases hstate
  | ok w =>
    rw [hs] at hstate hwrap'
    have hpop := KeyedHeap.PriorityQueue.toList_pop htop
    have hleast : ∀ e ∈ s.queue.events, ev.fireTime ≤ e.fireTime :=
      fun e he => UInt64.le_iff_toNat_le.mpr (KeyedHeap.PriorityQueue.top?_le htop e he)
    -- the event that is due is taken out first, then it acts
    have hdue : Due pm ev.fireTime (ev :: s.queue.eventQueue.pop.toList) w := by
      refine Due.perm (Due.advance (h w hs) ?_ hleast) hpop
      exact (h w hs).pending ev (hpop.subset (List.mem_cons_self ..))
    have hdelivered : Due pm ev.fireTime s.queue.eventQueue.pop.toList
        (w.deliver pm ev.fireTime ev.body) := by
      obtain ⟨t, body⟩ := ev
      cases body with
      | respond id srcId p => exact hdue.send
      | other => exact (Due.other_iff (UInt64.le_refl _)).mp hdue
    have hready : Due pm ev.fireTime s.queue.eventQueue.pop.toList
        { w.deliver pm ev.fireTime ev.body with script := w.script.tail } :=
      { hdelivered with once := hdelivered.once, queued := hdelivered.queued }
    rcases process_cases pm ev.fireTime ev.body w with ⟨f, hfault⟩ | ⟨w₁, reqs, hdone, hrun⟩
    · rw [hfault] at hstate
      cases hstate
    · rw [hdone] at hstate hwrap' ⊢
      obtain rfl := Except.ok.inj hstate
      exact hready.perform hids hrun hwrap'

theorem sound_run {s t : Sim MemoryEvent (Except MemoryFault MemoryWorld)} {n : UInt64} {fuel : ℕ}
    {trace : List (Processed MemoryEvent)} (h : Sound pm s) (hids : pm.Numbered)
    (hn : s.queue.curCycle.toNat + n.toNat < 2 ^ 64)
    (hrun : Sim.run (process pm) n fuel s = some (t, trace)) (hwrap : ∀ p ∈ trace, p.NoWrap) :
    Sound pm t := by
  obtain ⟨u, hloop, rfl⟩ := Sim.run_eq_some hrun
  have hend : s.queue.curCycle ≤ s.queue.curCycle + n := EventQueue.le_add_of_noWrap hn
  revert h hwrap hend
  generalize s.queue.curCycle + n = endCycle at hloop ⊢
  apply Sim.loop_induction (motive := fun s t trace => Sound pm s → (∀ p ∈ trace, p.NoWrap) →
    s.queue.curCycle ≤ endCycle → Sound pm ⟨⟨t.queue.eventQueue, endCycle⟩, t.state⟩)
    ?stop ?fired hloop
  case stop =>
    intro s hleft hs _ hle w hw
    exact (hs w hw).advance hle hleft
  case fired =>
    intro s ev t trace htop hlt ih hs hwrap _
    obtain ⟨hhere, hlater⟩ := List.forall_mem_cons.mp hwrap
    refine ih (sound_fire hs hids htop hhere) hlater ?_
    rw [Sim.fire_curCycle]
    exact UInt64.le_of_lt hlt

theorem Reached.sound {s : Sim MemoryEvent (Except MemoryFault MemoryWorld)} (h : Reached pm s)
    (hids : pm.Numbered) : Sound pm s := by
  induction h with
  | start a script ha =>
    intro w hw
    obtain rfl := Except.ok.inj hw
    exact due_start script ha
  | act x _ hstate hact hwrap ih =>
    intro w hw
    obtain rfl := Except.ok.inj hw
    have hdue := ((ih _ hstate).act hids hact hwrap).perm (EventQueue.events_scheduleAll _ _)
    rw [← EventQueue.scheduleAll_curCycle] at hdue
    exact hdue
  | run _ hn hrun hwrap ih => exact sound_run ih hids hn hrun hwrap

theorem Due.answered (h : Due pm now evs w) : w.Answered now := by
  have hnodup := h.once.nodup_iff.mpr List.nodup_range
  refine ⟨hnodup.of_append_right, ?_, fun r hr => (h.right r hr).2, ?_⟩
  · intro i q hq hpast
    have hmem : i ∈ evs.filterMap (·.body.id?) ++ w.sent.map (·.id) :=
      h.once.mem_iff.mpr (List.mem_range.mpr (List.getElem?_eq_some_iff.mp hq).1)
    refine (List.mem_append.mp hmem).resolve_left fun hqueued => ?_
    -- an event for it would lie in the past
    obtain ⟨ev, hev, hid⟩ := List.mem_filterMap.mp hqueued
    cases hbody : ev.body with
    | other =>
      rw [hbody] at hid
      cases hid
    | respond id srcId p =>
      rw [hbody] at hid
      obtain rfl := Option.some.inj hid
      obtain ⟨-, q', hq', -, htime, -⟩ := h.queued ev hev id srcId p hbody
      obtain rfl := Option.some.inj (hq.symm.trans hq')
      have hle := h.pending ev hev
      rw [htime] at hle
      exact absurd hpast (UInt64.not_lt.mpr hle)
  · refine List.Pairwise.imp_of_mem ?_ h.sentInOrder
    intro r r' hr hr' hle q q' hq hq' hne
    obtain ⟨-, q₁, hq₁, hreply⟩ := h.right r hr
    obtain ⟨-, q₂, hq₂, hreply'⟩ := h.right r' hr'
    obtain rfl := Option.some.inj (hq.symm.trans hq₁)
    obtain rfl := Option.some.inj (hq'.symm.trans hq₂)
    rw [hreply, hreply'] at hle
    have hnowrap := (h.handled q (List.mem_of_getElem? hq)).2.2
    have hnowrap' := (h.handled q' (List.mem_of_getElem? hq')).2.2
    have hcycles : q.cycle ≤ q'.cycle := by
      have hsum : q.cycle + 100 ≤ q'.cycle + 100 := hle
      rw [UInt64.le_iff_toNat_le, UInt64.toNat_add, UInt64.toNat_add] at hsum
      rw [UInt64.le_iff_toNat_le]
      have h100 : (100 : UInt64).toNat = 100 := rfl
      rw [h100, Nat.mod_eq_of_lt hnowrap, Nat.mod_eq_of_lt hnowrap'] at hsum
      exact Nat.le_of_add_le_add_right hsum
    obtain ⟨hi, rfl⟩ := List.getElem?_eq_some_iff.mp hq
    obtain ⟨hi', rfl⟩ := List.getElem?_eq_some_iff.mp hq'
    by_contra hnot
    rcases Nat.lt_or_eq_of_le (Nat.le_of_not_lt hnot) with hlt | heq
    · have hback := List.pairwise_iff_getElem.mp h.handledInOrder _ _ hi' hi hlt
      exact hne (UInt64.le_antisymm hcycles hback)
    · exact hne (by simp only [heq])

theorem act_length {x : MemoryAction} (h : w.act pm now x = .ok (w', reqs)) :
    reqs.length ≤ 1 ∧ w'.script = w.script := by
  unfold MemoryWorld.act at h
  split_ifs at h
  · cases x with
    | schedule delay =>
      obtain ⟨rfl, rfl⟩ := Prod.mk.inj (Except.ok.inj h)
      exact ⟨le_rfl, rfl⟩
    | outside a =>
      obtain ⟨rfl, rfl⟩ := Prod.mk.inj (Except.ok.inj h)
      exact ⟨Nat.zero_le _, rfl⟩
    | request p port =>
      rcases take_request_eq_ok h with ⟨rfl, rfl⟩ | ⟨u, r, -, -, rfl, rfl⟩
      · exact ⟨Nat.zero_le _, rfl⟩
      · exact ⟨le_rfl, rfl⟩
  · obtain ⟨rfl, rfl⟩ := Prod.mk.inj (Except.ok.inj h)
    exact ⟨Nat.zero_le _, rfl⟩

theorem perform_length {xs : List MemoryAction} (h : w.perform pm now xs = .ok (w', reqs)) :
    reqs.length ≤ xs.length ∧ w'.script = w.script := by
  induction xs generalizing w reqs with
  | nil =>
    obtain ⟨rfl, rfl⟩ := Prod.mk.inj (Except.ok.inj h)
    exact ⟨le_rfl, rfl⟩
  | cons x xs ih =>
    obtain ⟨⟨w₁, made⟩, hx, hrest⟩ := bind_eq_ok.mp h
    obtain ⟨⟨w₂, rest⟩, hxs, hend⟩ := bind_pure_eq_ok.mp hrest
    obtain ⟨rfl, rfl⟩ := Prod.mk.inj hend
    obtain ⟨hmade, hscript⟩ := act_length hx
    obtain ⟨hlater, hscript'⟩ := ih hxs
    refine ⟨?_, hscript'.trans hscript⟩
    show (made ++ rest).length ≤ xs.length + 1
    rw [List.length_append, Nat.add_comm]
    exact Nat.add_le_add hlater hmade

def work (s : Sim MemoryEvent (Except MemoryFault MemoryWorld)) : ℕ :=
  s.queue.events.length + match s.state with
    | .ok w => (w.script.map List.length).sum
    | .error _ => 0

theorem work_fire_lt {s : Sim MemoryEvent (Except MemoryFault MemoryWorld)} {ev : Event MemoryEvent}
    (htop : s.queue.eventQueue.top? = some ev) : work (Sim.fire (process pm) s ev).1 < work s := by
  have hevents : ev :: (Sim.fire (process pm) s ev).1.queue.events ~
      s.queue.events ++ (Sim.fire (process pm) s ev).2.scheduled := Sim.events_fire htop
  have hlen := hevents.length_eq
  have hreqs : (Sim.fire (process pm) s ev).2.scheduled.length =
      (process pm ev.body ev.fireTime s.state).2.length := List.length_map _
  rw [List.length_cons, List.length_append, hreqs] at hlen
  have hstate : (Sim.fire (process pm) s ev).1.state = (process pm ev.body ev.fireTime s.state).1 := rfl
  unfold work
  rw [hstate]
  -- the new events are paid for by the part of the script that made them
  suffices hpaid : (process pm ev.body ev.fireTime s.state).2.length +
      (match (process pm ev.body ev.fireTime s.state).1 with
        | .ok w => (w.script.map List.length).sum
        | .error _ => 0) ≤ match s.state with
        | .ok w => (w.script.map List.length).sum
        | .error _ => 0 by
    omega
  cases hs : s.state with
  | error f => exact le_rfl
  | ok w =>
    rcases process_cases pm ev.fireTime ev.body w with ⟨f, hfault⟩ | ⟨w', reqs, hdone, hrun⟩
    · rw [hfault]
      exact Nat.zero_le _
    · obtain ⟨hle, hsame⟩ := perform_length hrun
      rw [hdone]
      dsimp only
      rw [hsame]
      cases hw : w.script with
      | nil =>
        rw [hw] at hle
        exact hle
      | cons xs rest =>
        rw [hw] at hle
        exact Nat.add_le_add_right hle _

theorem run_returns (pm : PortManager) (n : UInt64)
    (s : Sim MemoryEvent (Except MemoryFault MemoryWorld)) :
    ∃ fuel r, Sim.run (process pm) n fuel s = some r := by
  have hloop : ∀ endCycle fuel (s : Sim MemoryEvent (Except MemoryFault MemoryWorld)),
      work s < fuel → ∃ r, Sim.loop (process pm) endCycle fuel s = some r := by
    intro endCycle fuel
    induction fuel with
    | zero => exact fun s hs => absurd hs (Nat.not_lt_zero _)
    | succ fuel ih =>
      intro s hs
      rw [Sim.loop]
      cases htop : s.queue.eventQueue.top? with
      | none => exact ⟨_, rfl⟩
      | some ev =>
        dsimp only
        split_ifs
        · obtain ⟨r, hr⟩ := ih (Sim.fire (process pm) s ev).1
            ((work_fire_lt htop).trans_le (Nat.le_of_lt_succ hs))
          exact ⟨_, by rw [hr]; rfl⟩
        · exact ⟨_, rfl⟩
  obtain ⟨r, hr⟩ := hloop (s.queue.curCycle + n) (work s + 1) s (Nat.lt_succ_self _)
  exact ⟨work s + 1, _, by rw [Sim.run, hr]; rfl⟩

/-- Whatever requests come in, each gets its one response 100 cycles later and on its port, and
runs of the queue come to their end. -/
theorem answered_in_time (ports : List (Bool × List ℕ × List ℕ × String))
    {s : Sim MemoryEvent (Except MemoryFault MemoryWorld)} {w : MemoryWorld}
    (h : Reached (PortManager.withPorts ports) s) (hw : s.state = .ok w) :
    w.Answered s.queue.curCycle ∧
      ∀ n, ∃ fuel r, Sim.run (process (PortManager.withPorts ports)) n fuel s = some r :=
  ⟨(h.sound (PortManager.numbered_withPorts ports) w hw).answered, fun n => run_returns _ n s⟩

def requestArena : Arena where
  heap := { Heap.empty with
    packet := fun p => { payload := some p, vcId := if p = 1 then 3 else 0 }
    nextPacket := 2
    nextPayload := 2 }
  pool := {}
  live := {0, 1}

def twoPorts : List (Bool × List ℕ × List ℕ × String) := [(true, [4], [], ""), (true, [4], [], "")]

def bothAtOnce : Sim MemoryEvent (Except MemoryFault MemoryWorld) :=
  ⟨EventQueue.new.scheduleAll [(.other, 5)],
    .ok ⟨requestArena, [[.request 0 1, .request 1 0]], [], [], []⟩⟩

theorem answered_in_time_both : ∃ r w, Sim.run (process (.withPorts twoPorts)) 200 9 bothAtOnce = some r ∧
    r.1.state = .ok w ∧
    w.sent.map (fun r => (r.port, r.cycle, r.originalReq, r.vcId)) =
      [(some 1, 105, some 0, 0), (some 0, 105, some 1, 3)] ∧ w.Answered 200 := by
  have hfree : requestArena.FreePackets := ⟨List.nodup_nil, fun _ hp => absurd hp List.not_mem_nil⟩
  have hreach : Reached (.withPorts twoPorts) bothAtOnce :=
    .act (.schedule 5) (.start requestArena _ hfree) rfl rfl (by decide)
  have hrun : Sim.run (process (.withPorts twoPorts)) 200 9 bothAtOnce = some _ := rfl
  have hanswered := answered_in_time twoPorts (hreach.run (by decide) hrun (by decide)) rfl
  exact ⟨_, _, hrun, rfl, by decide, hanswered.1⟩

end MemoryWorld
end GemSc
