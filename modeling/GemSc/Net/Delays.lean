import GemSc.Core.PortStats
import GemSc.Net.Payloads
import GemSc.Pool.RoundTrips

/-! The delays that master ports record in a network: what `updateStats` reads off the original
request of a response is compared with the cycle at which that request was issued. -/

namespace GemSc
open Function ExceptFold

def Task.response? : Task → Option PacketPtr
  | .sendResp _ p => some p
  | .tryForward => none

namespace Trips
variable {t : Trips} {now : UInt64} {host : Host} {orig pkt x : PacketPtr} {b : Arena} {value : Payload}

theorem Tracked.respond {r : PacketPtr × Arena} (h : t.Tracked) (hp : t.Requested orig)
    (hresp : t.arena.makeResponse now orig pkt = .ok r) :
    Tracked { t with
      arena := r.2
      responses := r.1 :: t.responses
      answers := update t.answers r.1 (t.issuedAt orig) } := by
  obtain ⟨-, b, hacq, heq⟩ := Arena.makeResponse_eq_ok hresp
  obtain ⟨hacquired, hspares, hx⟩ := h.acquire hacq
  have hx' : Untracked { t with arena := b } r.1 := hspares.untracked_iff.mpr hx
  have hlive : r.1 ∈ b.live := hacq.live ▸ Finset.mem_insert_self ..
  rw [heq, Arena.respond]
  obtain ⟨hmade, hspares'⟩ := hacquired.modify r.1 (f := fun r =>
    { r with
      payload := (b.heap.packet orig).payload
      srcCycle := now
      type := .resp
      originalReq := some orig
      vcId := (b.heap.packet pkt).vcId }) rfl (.inl hx')
  refine hmade.answer (hspares'.untracked_iff.mpr hx') hlive ?_ ?_
    (hspares'.requested_iff.mpr (hspares.requested_iff.mpr hp)) <;>
  rw [Arena.modify, Heap.packet_modify_self]

theorem Tracked.request (h : t.Tracked) (host : Host)
    (hacq : (t.arena.newPayload value).2.Acquired x b) :
    Tracked { t with arena := CPUSim.request host x (t.arena.newPayload value).1 b } ∧
      Untracked { t with arena := CPUSim.request host x (t.arena.newPayload value).1 b } x ∧
      x ∈ (CPUSim.request host x (t.arena.newPayload value).1 b).live ∧
      ((CPUSim.request host x (t.arena.newPayload value).1 b).heap.packet x).srcCycle = host.now := by
  obtain ⟨hacquired, hspares, hx⟩ := (h.newPayload value).acquire hacq
  have hx' : Untracked { t with arena := b } x := hspares.untracked_iff.mpr hx
  obtain ⟨hmade, hspares'⟩ := hacquired.modify x (f := fun pkt =>
    { pkt with
      payload := some (t.arena.newPayload value).1, srcCycle := host.now, type := .req, vcId := 0 })
    rfl (.inl hx')
  refine ⟨hmade, hspares'.untracked_iff.mpr hx', ?_, ?_⟩
  · show x ∈ b.live
    exact hacq.live ▸ Finset.mem_insert_self ..
  · rw [CPUSim.request, Arena.modify, Heap.packet_modify_self]

end Trips

namespace Network

def responses (tasks : List (Node × Task)) : List PacketPtr := tasks.filterMap (·.2.response?)

def underway (n : Network) : Set PacketPtr :=
  {p | p ∈ n.requests.map Prod.fst ∨ ∃ i, p ∈ (n.caches i).reqBuffer}

end Network

/-- A network with the cycle at which each packet was last issued as a request, and for each
response the one of the request that it answers. -/
structure Timed where
  net : Network
  issuedAt : PacketPtr → UInt64
  answers : PacketPtr → UInt64

namespace Timed
variable (t : Topology)

def idle : Timed := ⟨.idle, fun _ => 0, fun _ => 0⟩

def trips (s : Timed) : Trips :=
  ⟨s.net.arena, s.net.underway, Network.responses s.net.tasks, s.issuedAt, s.answers⟩

def issue (now : UInt64) (n : Network) (s : Timed) : Timed :=
  let issued := (n.requests.drop s.net.requests.length).map Prod.fst
  { s with net := n, issuedAt := fun p => if p ∈ issued then now else s.issuedAt p }

/-- The responses that were made after the first `k` tasks answer a request issued at `cycle`. -/
def answer (k : ℕ) (cycle : UInt64) (n : Network) (s : Timed) : Timed :=
  let made := Network.responses (n.tasks.drop k)
  { s with net := n, answers := fun r => if r ∈ made then cycle else s.answers r }

def note (n : Network) (s : Timed) : NetStep → Timed
  | .tick (.cpu _) host => s.issue host.now n
  | .tick (.cache _) _ => { s with net := n }
  | .tick (.memory _) _ => { s with net := n }
  | .offer i _ =>
    match s.net.requests[i]? with
    | none => { s with net := n }
    | some (p, _, _) => s.answer s.net.tasks.length (s.issuedAt p) n
  | .fire i _ =>
    match s.net.tasks[i]? with
    | none => { s with net := n }
    | some (_, .tryForward) => { s with net := n }
    | some (_, .sendResp _ r) => s.answer (s.net.tasks.length - 1) (s.answers r) n
  | .stamp _ _ => { s with net := n }
  | .acquire => { s with net := n }
  | .release _ => { s with net := n }

def step (s : Timed) (a : NetStep) : Except MemoryFault Timed := do
  let n ← s.net.step t a
  return s.note n a

/-- Code outside of the nodes releases no packet that is under way. -/
def Allows (s : Timed) : NetStep → Prop
  | .release p => p ∈ s.net.arena.live ∧ s.trips.Untracked p
  | .tick _ _ => True
  | .offer _ _ => True
  | .fire _ _ => True
  | .stamp _ _ => True
  | .acquire => True

/-- A cache releases a request that is offered to it: its buffer is full, or the request hits. -/
def ReleasesRequest (s : Timed) : NetStep → Prop
  | .offer i _ => ∃ p c port, s.net.requests[i]? = some (p, .cache c, port) ∧
      (CacheSim.maxBuffer ≤ (s.net.caches c).reqBuffer.length ∨
        ∃ addr, s.net.arena.heap.address p = .ok addr ∧ CacheSim.isHit addr = true)
  | .tick _ _ => False
  | .fire _ _ => False
  | .stamp _ _ => False
  | .acquire => False
  | .release _ => False

/-- `updateStats` of the master port that receives `r` counts it, and records as its delay the
cycles since the request that it answers was issued. -/
def RecordsRoundTrip (s : Timed) (now : UInt64) (r : PacketPtr) : Prop :=
  let m := s.net.arena.heap.toMemory
  ∀ stats, (MasterPort.updateStats now r m stats).2 =
    { stats with
      respCount := stats.respCount + 1
      byteCount := stats.byteCount + m.dataLength r }.recordDelay (now - s.answers r)

/-- Each response that a step has received by a master port is recorded with its round trip. -/
def RecordsReceived (s : Timed) : NetStep → Prop
  | .fire i host => ∀ node port r, s.net.tasks[i]? = some (node, .sendResp port r) →
      s.RecordsRoundTrip host.now r
  | .tick _ _ => True
  | .offer _ _ => True
  | .stamp _ _ => True
  | .acquire => True
  | .release _ => True

variable {t} {s s' : Timed} {n : Network} {host : Host} {i : ℕ}

theorem trips_idle : idle.trips = ⟨.empty, ∅, [], fun _ => 0, fun _ => 0⟩ := by
  simp [trips, idle, Network.idle, Network.underway, Network.responses]

theorem trips_eq {a : Arena} {requests : Set PacketPtr} {rs : List PacketPtr}
    {issuedAt answers : PacketPtr → UInt64} (harena : s.net.arena = a)
    (hunder : s.net.underway = requests) (hresp : Network.responses s.net.tasks = rs)
    (hissued : s.issuedAt = issuedAt) (hanswers : s.answers = answers) :
    s.trips = ⟨a, requests, rs, issuedAt, answers⟩ := by
  subst harena hunder hresp hissued hanswers
  rfl

/-- Only caches schedule `tryForward`. -/
def CachesForward (n : Network) : Prop := ∀ a ∈ n.tasks, a.2 = .tryForward → ∃ c, a.1 = .cache c

theorem tracked_moved (h : s.trips.Tracked) (harena : n.arena = s.net.arena)
    (hresp : (Network.responses s.net.tasks).Perm (Network.responses n.tasks))
    (hsub : ∀ p ∈ n.underway, p ∈ s.net.underway) :
    ({ s with net := n } : Timed).trips.Tracked := by
  show Trips.Tracked ⟨n.arena, n.underway, Network.responses n.tasks, _, _⟩
  rw [harena]
  exact (h.move fun p hp => .inl (hsub p hp)).perm hresp

theorem mem_underway_absorb {σ : Type} {m : Network} {node : Node} {e : Effect σ} {p : PacketPtr} :
    p ∈ (m.absorb t host node e).underway ↔
      p ∈ (Network.taken t host node e.calls).map Prod.fst ∨ p ∈ m.underway := by
  change p ∈ (m.absorb t host node e).requests.map Prod.fst ∨ (∃ i, p ∈ (m.caches i).reqBuffer) ↔ _
  rw [Network.requests_absorb, List.map_append, List.mem_append, or_comm (a := p ∈ _), or_assoc]
  exact Iff.rfl

theorem mem_of_underway_setCache {m : Network} {c : ℕ} {d : CacheSim} {p : PacketPtr}
    (hp : p ∈ (m.setCache c d).underway) : p ∈ d.reqBuffer ∨ p ∈ m.underway := by
  rcases hp with hp | ⟨j, hj⟩
  · exact .inr (.inl hp)
  · rw [Network.caches_setCache] at hj
    by_cases hjc : j = c
    · rw [hjc, update_self] at hj
      exact .inl hj
    · rw [update_of_ne hjc] at hj
      exact .inr (.inr ⟨j, hj⟩)

theorem eq_of_mem_taken {node : Node} {j : ℕ} {x p : PacketPtr}
    (hp : p ∈ (Network.taken t host node [.sendReq j x]).map Prod.fst) : p = x := by
  obtain ⟨y, hy, rfl⟩ := List.mem_map.mp hp
  obtain ⟨r, hr, rfl⟩ := List.mem_map.mp hy
  obtain ⟨call, hcall, htaken⟩ := List.mem_filterMap.mp hr
  obtain rfl := List.mem_singleton.mp hcall
  simp only [PortCall.taken] at htaken
  split_ifs at htaken
  rw [← Option.some.inj htaken]

theorem cache_tick_eq_ok {c : ℕ} {m : Network} (hn : m.tick t host (.cache c) = .ok n) :
    n.arena = m.arena ∧ n.tasks = m.tasks ∧ ∀ p ∈ n.underway, p ∈ m.underway := by
  obtain ⟨e, he, rfl⟩ := bind_pure_eq_ok.mp hn
  obtain ⟨harena, hsched, hcases⟩ := CacheSim.tryForward_eq_ok he
  refine ⟨harena, by simp [hsched], fun p hp => ?_⟩
  rcases hcases with ⟨hstate, hcalls⟩ | ⟨x, rest, j, hbuf, -, hcalls, hstate⟩
  · rcases mem_of_underway_setCache hp with hp | hp
    · exact .inr ⟨c, hstate ▸ hp⟩
    · rw [mem_underway_absorb, hcalls] at hp
      exact hp.resolve_left List.not_mem_nil
  · have hx : x ∈ m.underway := .inr ⟨c, by rw [hbuf]; exact List.mem_cons_self ..⟩
    rcases mem_of_underway_setCache hp with hp | hp
    · refine .inr ⟨c, ?_⟩
      rw [hstate] at hp
      split_ifs at hp
      · rw [hbuf]
        exact List.mem_cons_of_mem _ hp
      · exact hp
    · rw [mem_underway_absorb, hcalls] at hp
      rcases hp with hp | hp
      · exact eq_of_mem_taken hp ▸ hx
      · exact hp

theorem underway_eraseIdx {m : Network} {p : PacketPtr}
    (hp : p ∈ ({ m with requests := m.requests.eraseIdx i } : Network).underway) : p ∈ m.underway := by
  rcases hp with hp | hp
  · obtain ⟨r, hr, rfl⟩ := List.mem_map.mp hp
    exact .inl (List.mem_map_of_mem (List.mem_of_mem_eraseIdx hr))
  · exact .inr hp

theorem tracked_cpu_tick {c : ℕ} (h : s.trips.Tracked) (hn : s.net.tick t host (.cpu c) = .ok n) :
    (s.issue host.now n).trips.Tracked ∧ n.tasks = s.net.tasks := by
  obtain ⟨e, he, rfl⟩ := bind_pure_eq_ok.mp hn
  rcases CPUSim.tick_eq_ok he with rfl | ⟨x, b, hacq, hsched, hcalls, hcases⟩
  · refine ⟨?_, by simp⟩
    have hsame : (s.issue host.now ((s.net.absorb t host (.cpu c) ⟨s.net.cpus c, s.net.arena, [], []⟩).setCpu
        c (s.net.cpus c))).trips = s.trips := by
      simp [trips, issue, Network.underway]
    rw [hsame]
    exact h
  · refine ⟨?_, by simp [hsched]⟩
    obtain ⟨hmade, hx, hlive, hcycle⟩ := h.request host hacq
    have hresp : Network.responses ((s.net.absorb t host (.cpu c) e).setCpu c e.state).tasks =
        Network.responses s.net.tasks := by
      simp [hsched]
    -- the port takes the request, or the CPU releases it
    rcases hcases with ⟨hok, harena, -⟩ | ⟨hno, -, hrel⟩
    · have htaken : Network.taken t host (.cpu c) e.calls =
          [(x, t.upstreamOf (.cpu c) ((s.net.cpus c).nextAddr.toNat % host.downstreamPorts.length))] := by
        simp [Network.taken, hcalls, PortCall.taken, hok]
      have hunder : ((s.net.absorb t host (.cpu c) e).setCpu c e.state).underway =
          insert x s.net.underway := by
        ext p
        change p ∈ (s.net.absorb t host (.cpu c) e).underway ↔ _
        rw [mem_underway_absorb, htaken, Set.mem_insert_iff]
        exact or_congr_left List.mem_singleton
      have hissued : (s.issue host.now ((s.net.absorb t host (.cpu c) e).setCpu c e.state)).issuedAt =
          update s.issuedAt x host.now := by
        funext p
        simp only [issue, Network.requests_setCpu, Network.requests_absorb, htaken, List.drop_left, List.map_cons,
          List.map_nil, List.mem_singleton, update_apply]
      have hsent := hmade.issue hx hlive
      rw [hcycle] at hsent
      rw [trips_eq harena hunder hresp hissued rfl]
      exact hsent
    · have htaken : Network.taken t host (.cpu c) e.calls = [] := by
        simp [Network.taken, hcalls, PortCall.taken, hno]
      have hunder : ((s.net.absorb t host (.cpu c) e).setCpu c e.state).underway = s.net.underway := by
        ext p
        change p ∈ (s.net.absorb t host (.cpu c) e).underway ↔ _
        rw [mem_underway_absorb, htaken]
        exact or_iff_right List.not_mem_nil
      have hissued : (s.issue host.now ((s.net.absorb t host (.cpu c) e).setCpu c e.state)).issuedAt =
          s.issuedAt := by
        funext p
        simp [issue, htaken]
      rw [trips_eq rfl hunder hresp hissued rfl]
      exact hmade.release hrel hlive hx

theorem answers_answer {k : ℕ} {cycle : UInt64} {r : PacketPtr}
    (hr : Network.responses (n.tasks.drop k) = [r]) :
    (s.answer k cycle n).answers = update s.answers r cycle := by
  funext x
  simp only [answer, hr, List.mem_singleton, update_apply]

theorem answer_none {k : ℕ} {cycle : UInt64} (hr : Network.responses (n.tasks.drop k) = []) :
    s.answer k cycle n = { s with net := n } := by
  simp only [answer, hr, List.not_mem_nil, if_false]

theorem tracked_offer {p : PacketPtr} {node : Node} {port : ℕ} (h : s.trips.Tracked)
    (hreq : s.net.requests[i]? = some (p, node, port))
    (hn : s.net.step t (.offer i host) = .ok n) (hno : ¬ s.ReleasesRequest (.offer i host)) :
    (s.answer s.net.tasks.length (s.issuedAt p) n).trips.Tracked := by
  have hp : p ∈ s.net.underway :=
    .inl (List.mem_map.mpr ⟨_, List.mem_of_getElem? hreq, rfl⟩)
  rw [Network.step, hreq] at hn
  obtain ⟨⟨ok, m⟩, hm, hend⟩ := bind_eq_ok.mp hn
  cases node with
  | cpu c =>
    obtain ⟨rfl, rfl⟩ := Prod.mk.inj (Except.ok.inj hm)
    obtain rfl := Except.ok.inj hend
    rw [answer_none (by simp [Network.responses])]
    exact h
  | memory c =>
    obtain ⟨⟨b, e⟩, he, hend'⟩ := bind_pure_eq_ok.mp hm
    obtain ⟨r, hresp, rfl, rfl⟩ := MemorySim.handleUpstreamRequest_eq_ok he
    obtain ⟨rfl, rfl⟩ := Prod.mk.inj hend'
    obtain rfl := Except.ok.inj hend
    -- the request stays in use, its response is scheduled
    have hanswered := (h.respond (.inl hp) hresp).perm (List.perm_append_singleton r.1 _).symm
    have hmoved := hanswered.move fun q hq => .inl (underway_eraseIdx (i := i) hq)
    rw [trips_eq (a := r.2) rfl ?_ ?_ rfl (answers_answer ?_)]
    · exact hmoved
    · simp [answer, Network.underway]
    · simp [answer, Network.responses, Task.response?, trips]
    · simp [Network.responses, Task.response?]
  | cache c =>
    obtain ⟨⟨b, e⟩, he, hend'⟩ := bind_pure_eq_ok.mp hm
    obtain ⟨rfl, rfl⟩ := Prod.mk.inj hend'
    rcases CacheSim.handleUpstreamRequest_eq_ok he with
      ⟨hfull, -⟩ | ⟨-, hok, addr, haddr, ⟨hhit, -⟩ | ⟨-, heq⟩⟩
    · exact absurd ⟨p, c, port, hreq, .inl hfull⟩ hno
    · exact absurd ⟨p, c, port, hreq, .inr ⟨addr, haddr, hhit⟩⟩ hno
    · -- the request waits in the cache
      obtain rfl := Except.ok.inj hend
      rw [hok, if_pos rfl, heq]
      rw [answer_none (by simp [Network.responses, Task.response?])]
      refine tracked_moved h rfl ?_ ?_
      · exact List.Perm.of_eq (by
          simp [Network.responses, Task.response?])
      · intro q hq
        rcases mem_of_underway_setCache (underway_eraseIdx (i := i) hq) with hq | hq
        · rcases List.mem_append.mp hq with hq | hq
          · exact .inr ⟨c, hq⟩
          · exact List.mem_singleton.mp hq ▸ hp
        · exact (mem_underway_absorb.mp hq).resolve_left List.not_mem_nil

theorem responses_eraseIdx {tasks : List (Node × Task)} {a : Node × Task} (ha : tasks[i]? = some a) :
    (Network.responses tasks).Perm
      (a.2.response?.toList ++ Network.responses (tasks.eraseIdx i)) := by
  obtain ⟨hi, hget⟩ := List.getElem?_eq_some_iff.mp ha
  have hpick := (List.getElem_cons_eraseIdx_perm hi).symm.filterMap (·.2.response?)
  rw [hget, List.filterMap_cons] at hpick
  cases hr : a.2.response? with
  | none =>
    rw [hr] at hpick
    exact hpick
  | some r =>
    rw [hr] at hpick
    exact hpick

theorem tracked_receive {node : Node} {port : ℕ} {r : PacketPtr} (h : s.trips.Tracked)
    (htask : s.net.tasks[i]? = some (node, .sendResp port r))
    (hn : s.net.step t (.fire i host) = .ok n) :
    (s.answer (s.net.tasks.length - 1) (s.answers r) n).trips.Tracked := by
  have hi : i < s.net.tasks.length := (List.getElem?_eq_some_iff.mp htask).1
  have hlen : (s.net.tasks.eraseIdx i).length = s.net.tasks.length - 1 := List.length_eraseIdx_of_lt hi
  have hperm : (Network.responses s.net.tasks).Perm (r :: Network.responses (s.net.tasks.eraseIdx i)) :=
    responses_eraseIdx htask
  have hr : r ∈ Network.responses s.net.tasks := hperm.mem_iff.mpr (List.mem_cons_self ..)
  have hlive : r ∈ s.net.arena.live := (h.responses r hr).1
  rw [Network.step, htask] at hn
  dsimp only at hn
  cases hdst : (t.downstreamOf node port).1 with
  | cpu c =>
    rw [hdst] at hn
    obtain ⟨⟨b, e⟩, he, rfl⟩ := bind_pure_eq_ok.mp hn
    obtain ⟨hrel, hcalls, hsched⟩ := CPUSim.handleDownstreamResponse_eq_ok he
    obtain ⟨hreceived, huntracked⟩ := h.receive hperm
    have hreleased := hreceived.release hrel hlive huntracked
    rw [answer_none (by simp [hsched, ← hlen, Network.responses])]
    rw [trips_eq (a := e.arena) rfl ?_ ?_ rfl rfl]
    · exact hreleased
    · simp [Network.underway, hcalls, trips]
    · simp [hsched]
  | memory c =>
    rw [hdst] at hn
    obtain rfl := Except.ok.inj hn
    rw [answer_none (by simp [← hlen, Network.responses])]
    exact (h.receive hperm).1
  | cache c =>
    rw [hdst] at hn
    obtain ⟨⟨b, e⟩, he, rfl⟩ := bind_pure_eq_ok.mp hn
    obtain ⟨orig, m, horig, hresp, hrel, heq⟩ := CacheSim.handleDownstreamResponse_eq_ok he
    have hcalls : e.calls = [] := by rw [heq]
    have hstate : e.state = s.net.caches c := by rw [heq]
    have hsched : e.scheduled = [(.sendResp ((t.downstreamOf node port).2 %
        host.upstreamPorts.length) m.1, 1)] := by rw [heq]
    -- both responses answer the request of the CPU, which stays in use
    have hissue : s.answers r = s.issuedAt orig := by
      obtain ⟨-, -, p, hp, hissue⟩ := h.responses r hr
      rwa [Option.some.inj (horig.symm.trans hp)]
    have hmade := h.respond (.inr ⟨r, hr, horig⟩) hresp
    have hlive' := (hmade.responses r (List.mem_cons_of_mem _ hr)).1
    obtain ⟨hreceived, huntracked⟩ := hmade.receive ((hperm.cons m.1).trans (List.Perm.swap ..))
    have hreleased := (hreceived.release hrel hlive' huntracked).perm
      (List.perm_append_singleton m.1 _).symm
    have hnew : Network.responses (((({ s.net with tasks := s.net.tasks.eraseIdx i } : Network).absorb t
        host (.cache c) e).setCache c e.state).tasks.drop (s.net.tasks.length - 1)) = [m.1] := by
      simp [hsched, ← hlen, Network.responses, Task.response?]
    rw [trips_eq (a := e.arena) rfl ?_ ?_ rfl (answers_answer hnew), hissue]
    · exact hreleased
    · simp [answer, Network.underway, hcalls, hstate, trips]
    · simp [answer, hsched, Network.responses, Task.response?]

structure Sound (s : Timed) : Prop where
  tracked : s.trips.Tracked
  forwards : CachesForward s.net

theorem sound_idle : idle.Sound := by
  refine ⟨?_, fun a ha => absurd ha List.not_mem_nil⟩
  rw [trips_idle]
  exact Trips.tracked_empty _ _

theorem CachesForward.of_sub {m : Network} (node : Node) {sched : List (Task × UInt64)}
    (h : CachesForward m)
    (hsub : ∀ a ∈ n.tasks, a ∈ m.tasks ∨ a ∈ sched.map fun s => (node, s.1))
    (hsched : (∃ c, node = .cache c) ∨ ∀ s ∈ sched, s.1 ≠ .tryForward) : CachesForward n := by
  intro a ha hforward
  rcases hsub a ha with hold | hnew
  · exact h a hold hforward
  · obtain ⟨s, hs, rfl⟩ := List.mem_map.mp hnew
    rcases hsched with hcache | hnone
    · exact hcache
    · exact absurd hforward (hnone s hs)

theorem CachesForward.tick {m : Network} {node : Node} (h : CachesForward m)
    (hn : m.tick t host node = .ok n) : CachesForward n := by
  cases node with
  | cpu c =>
    obtain ⟨e, he, rfl⟩ := bind_pure_eq_ok.mp hn
    have hsched : e.scheduled = [] := by
      rcases CPUSim.tick_eq_ok he with rfl | ⟨x, b, -, hsched, -⟩
      · rfl
      · exact hsched
    refine h.of_sub (.cpu c) (fun a ha => List.mem_append.mp ha) (.inr ?_)
    simp [hsched]
  | cache c =>
    have htasks := (cache_tick_eq_ok hn).2.1
    intro a ha
    exact h a (htasks ▸ ha)
  | memory c =>
    obtain rfl := Except.ok.inj hn
    exact h

theorem CachesForward.request {m n' : Network} {ok : Bool} {p : PacketPtr} {port : ℕ} {node : Node}
    (h : CachesForward m) (hm : m.request t host p port node = .ok (ok, n')) : CachesForward n' := by
  cases node with
  | cpu c =>
    obtain ⟨-, rfl⟩ := Prod.mk.inj (Except.ok.inj hm)
    exact h
  | memory c =>
    obtain ⟨⟨b, e⟩, he, hend⟩ := bind_pure_eq_ok.mp hm
    obtain ⟨r, -, -, rfl⟩ := MemorySim.handleUpstreamRequest_eq_ok he
    obtain ⟨-, rfl⟩ := Prod.mk.inj hend
    refine h.of_sub (.memory c) (fun a ha => List.mem_append.mp ha) (.inr ?_)
    simp
  | cache c =>
    obtain ⟨⟨b, e⟩, he, hend⟩ := bind_pure_eq_ok.mp hm
    obtain ⟨-, rfl⟩ := Prod.mk.inj hend
    exact h.of_sub (.cache c) (fun a ha => List.mem_append.mp ha) (.inl ⟨c, rfl⟩)

theorem CachesForward.response {m : Network} {p : PacketPtr} {port : ℕ} {node : Node}
    (h : CachesForward m) (hn : m.response t host p port node = .ok n) : CachesForward n := by
  cases node with
  | cpu c =>
    obtain ⟨⟨b, e⟩, he, rfl⟩ := bind_pure_eq_ok.mp hn
    have hsched := (CPUSim.handleDownstreamResponse_eq_ok he).2.2
    refine h.of_sub (.cpu c) (fun a ha => List.mem_append.mp ha) (.inr ?_)
    simp [hsched]
  | memory c =>
    obtain rfl := Except.ok.inj hn
    exact h
  | cache c =>
    obtain ⟨⟨b, e⟩, he, rfl⟩ := bind_pure_eq_ok.mp hn
    exact h.of_sub (.cache c) (fun a ha => List.mem_append.mp ha) (.inl ⟨c, rfl⟩)

theorem CachesForward.step {a : NetStep} (h : CachesForward s.net) (hn : s.net.step t a = .ok n) :
    CachesForward n := by
  cases a with
  | tick node host => exact h.tick hn
  | stamp p cycle =>
    obtain rfl := Except.ok.inj hn
    exact h
  | acquire =>
    obtain ⟨r, -, rfl⟩ := bind_pure_eq_ok.mp hn
    exact h
  | release p =>
    obtain ⟨b, -, rfl⟩ := bind_pure_eq_ok.mp hn
    exact h
  | offer i host =>
    rw [Network.step] at hn
    split at hn
    · obtain rfl := Except.ok.inj hn
      exact h
    · obtain ⟨⟨ok, m⟩, hm, hend⟩ := bind_eq_ok.mp hn
      have htasks : n.tasks = m.tasks := by
        obtain rfl := Except.ok.inj hend
        dsimp only
        split_ifs <;> rfl
      intro a ha
      exact h.request hm a (htasks ▸ ha)
  | fire i host =>
    rw [Network.step] at hn
    have herase : CachesForward { s.net with tasks := s.net.tasks.eraseIdx i } :=
      fun a ha => h a (List.mem_of_mem_eraseIdx ha)
    split at hn
    · obtain rfl := Except.ok.inj hn
      exact h
    · exact herase.tick hn
    · exact herase.response hn

@[simp] theorem note_net (n : Network) (s : Timed) (a : NetStep) : (s.note n a).net = n := by
  unfold note
  split <;> first | rfl | split <;> rfl

theorem Sound.fire (h : s.Sound) (hn : s.net.step t (.fire i host) = .ok n) :
    (s.note n (.fire i host)).trips.Tracked := by
  rw [note]
  cases htask : s.net.tasks[i]? with
  | none =>
    rw [Network.step, htask] at hn
    obtain rfl := Except.ok.inj hn
    exact h.tracked
  | some a =>
    obtain ⟨node, task⟩ := a
    cases task with
    | sendResp port r => exact tracked_receive h.tracked htask hn
    | tryForward =>
      obtain ⟨c, hc⟩ := h.forwards _ (List.mem_of_getElem? htask) rfl
      obtain rfl : node = .cache c := hc
      rw [Network.step, htask] at hn
      obtain ⟨harena, htasks, hsub⟩ := cache_tick_eq_ok hn
      apply tracked_moved h.tracked harena _ hsub
      rw [htasks]
      exact responses_eraseIdx htask

theorem Sound.step {a : NetStep} (h : s.Sound) (hallow : s.Allows a) (hstep : s.step t a = .ok s')
    (hno : ¬ s.ReleasesRequest a) : s'.Sound := by
  obtain ⟨n, hn, rfl⟩ := bind_pure_eq_ok.mp hstep
  refine ⟨?_, by rw [note_net]; exact h.forwards.step hn⟩
  cases a with
  | tick node host =>
    cases node with
    | cpu c => exact (tracked_cpu_tick h.tracked hn).1
    | cache c =>
      obtain ⟨harena, htasks, hsub⟩ := cache_tick_eq_ok hn
      exact tracked_moved h.tracked harena (List.Perm.of_eq (by rw [htasks])) hsub
    | memory c =>
      obtain rfl := Except.ok.inj hn
      exact h.tracked
  | offer i host =>
    rw [note]
    cases hreq : s.net.requests[i]? with
    | none =>
      rw [Network.step, hreq] at hn
      obtain rfl := Except.ok.inj hn
      exact h.tracked
    | some r =>
      obtain ⟨p, node, port⟩ := r
      exact tracked_offer h.tracked hreq hn hno
  | fire i host => exact h.fire hn
  | stamp p cycle =>
    obtain rfl := Except.ok.inj hn
    exact (h.tracked.modify p rfl (.inr ⟨rfl, rfl, rfl⟩)).1
  | acquire =>
    obtain ⟨r, hr, rfl⟩ := bind_pure_eq_ok.mp hn
    exact (h.tracked.acquire (Arena.acquired hr)).1
  | release p =>
    obtain ⟨b, hrel, rfl⟩ := bind_pure_eq_ok.mp hn
    exact h.tracked.release hrel hallow.1 hallow.2

theorem Sound.recordsRoundTrip (h : s.Sound) {r : PacketPtr}
    (hr : r ∈ Network.responses s.net.tasks) (now : UInt64) : s.RecordsRoundTrip now r := by
  obtain ⟨-, htype, p, horig, hissue⟩ := h.tracked.responses r hr
  have hcycle := (h.tracked.requests p (.inr ⟨r, hr, horig⟩)).2
  have hread : (s.net.arena.heap.packet p).srcCycle = s.answers r := hcycle.trans hissue.symm
  intro stats
  rw [← hread]
  exact MasterPort.updateStats_response htype horig now stats

theorem Sound.recordsReceived (h : s.Sound) (a : NetStep) : s.RecordsReceived a := by
  cases a with
  | fire i host =>
    intro node port r htask
    exact h.recordsRoundTrip (List.mem_filterMap.mpr ⟨_, List.mem_of_getElem? htask, rfl⟩) host.now
  | tick node host => trivial
  | offer i host => trivial
  | stamp p cycle => trivial
  | acquire => trivial
  | release p => trivial

/-- While no cache releases a request that is offered to it, every response is recorded with the
cycles since the request that it answers was issued. -/
theorem recorded_round_trip (t : Topology) {steps : List NetStep}
    (hallow : Each (step t) idle Allows steps) (hkept : Never (step t) idle ReleasesRequest steps) :
    Each (step t) idle RecordsReceived steps := by
  have hsound : Always (step t) idle Sound steps := by
    refine always_of_never hallow hkept sound_idle ?_
    intro s a s' h hallowed hstep hno
    exact h.step hallowed hstep hno
  intro pre a s hpre hrun
  exact (hsound pre s ((List.prefix_append pre [a]).trans hpre) hrun).recordsReceived a

def sendingAt (now : UInt64) : Host := { Network.sendingHost with now := now }

def firstTrip : List NetStep :=
  [.tick (.cpu 0) (sendingAt 1), .offer 0 (sendingAt 2), .fire 0 (sendingAt 4)]

/-- Only `release` can take away a packet that is under way. -/
theorem each_allows {steps : List NetStep} (h : ∀ a ∈ steps, ∀ p, a ≠ .release p) :
    Each (step t) idle Allows steps := by
  intro pre a s hpre _
  have ha : a ∈ steps := hpre.subset (List.mem_append_right _ (List.mem_singleton_self a))
  cases a with
  | release p => exact absurd rfl (h _ ha p)
  | tick node host => trivial
  | offer i host => trivial
  | fire i host => trivial
  | stamp p cycle => trivial
  | acquire => trivial

theorem each_allows_firstTrip : Each (step t) idle Allows firstTrip := by
  apply each_allows
  simp [firstTrip]

def missTopology : Topology where
  upstreamOf
    | .cpu _, port => if port = 1 then (.memory 0, 0) else (.cache 0, 0)
    | .cache _, _ => (.memory 1, 0)
    | .memory i, port => (.memory i, port)
  downstreamOf
    | .memory i, _ => if i = 0 then (.cpu 0, 1) else (.cache 0, 0)
    | .cache _, _ => (.cpu 0, 2)
    | .cpu i, port => (.cpu i, port)

def missHost (now : UInt64) : Host :=
  { Network.sendingHost with
    now := now
    upstreamPorts := [UpstreamPort.new 0 [4] [] "in"]
    downstreamPorts := (List.range 3).map fun i => DownstreamPort.new i [4] [] "out" }

/-- The request for `0x1000` goes to the memory, and the one for `0x1004` misses in the cache, which
passes it on and passes the response back. Both responses are received. -/
def missTrip : List NetStep :=
  [.tick (.cpu 0) (missHost 1), .tick (.cpu 0) (missHost 2), .offer 0 (missHost 3),
    .offer 0 (missHost 4), .fire 0 (missHost 5), .fire 0 (missHost 6), .offer 0 (missHost 7),
    .fire 0 (missHost 20), .fire 0 (missHost 22)]

theorem missTrip_releases_none :
    Each (step missTopology) idle (fun s a => ¬ ReleasesRequest s a) missTrip := by
  have hstart : Each (step missTopology) idle (fun s a => ¬ ReleasesRequest s a) [] := each_nil _ _
  have hfirst := each_concat (a := NetStep.tick (.cpu 0) (missHost 1)) hstart fun _ _ => id
  have hsecond := each_concat (a := NetStep.tick (.cpu 0) (missHost 2)) hfirst fun _ _ => id
  have hanswered := each_concat (a := NetStep.offer 0 (missHost 3)) hsecond fun s hs => by
    obtain rfl := Except.ok.inj hs
    rintro ⟨p, c, port, hrequest, -⟩
    cases hrequest
  have hmissed := each_concat (a := NetStep.offer 0 (missHost 4)) hanswered fun s hs => by
    obtain rfl := Except.ok.inj hs
    rintro ⟨p, c, port, hrequest, hfull | ⟨addr, haddr, hhit⟩⟩
    · cases hrequest
      exact absurd hfull (by decide)
    · cases hrequest
      cases haddr
      exact absurd hhit (by decide)
  have hreceived := each_concat (a := NetStep.fire 0 (missHost 5)) hmissed fun _ _ => id
  have hforwarded := each_concat (a := NetStep.fire 0 (missHost 6)) hreceived fun _ _ => id
  have hbelow := each_concat (a := NetStep.offer 0 (missHost 7)) hforwarded fun s hs => by
    obtain rfl := Except.ok.inj hs
    rintro ⟨p, c, port, hrequest, -⟩
    cases hrequest
  have hpassed := each_concat (a := NetStep.fire 0 (missHost 20)) hbelow fun _ _ => id
  exact each_concat (a := NetStep.fire 0 (missHost 22)) hpassed fun _ _ => id

theorem recorded_round_trip_missTrip : Each (step missTopology) idle RecordsReceived missTrip ∧
    ∃ s, (missTrip.take 8).foldlM (step missTopology) idle = .ok s ∧
      s.net.tasks = [(.cache 0, .sendResp 0 3)] ∧
      (MasterPort.updateStats 22 3 s.net.arena.heap.toMemory {}).2.totalDelay = 20 := by
  have hallow : Each (step missTopology) idle Allows missTrip := by
    apply each_allows
    simp [missTrip]
  exact ⟨recorded_round_trip missTopology hallow (never_of_each missTrip_releases_none),
    exists_ok_of_map rfl⟩

/-- The request for `0x1000` hits, and the cache releases it before its response is received. The
delay that is recorded runs from cycle 0. -/
theorem hit_delay_from_zero :
    Each (step (Network.cpuOver (.cache 0))) idle Allows firstTrip ∧
      ¬ Each (step (Network.cpuOver (.cache 0))) idle RecordsReceived firstTrip := by
  refine ⟨each_allows_firstTrip, fun h => ?_⟩
  have hoffered : ∃ s, (firstTrip.take 2).foldlM (step (Network.cpuOver (.cache 0))) idle = .ok s ∧
      s.net.tasks = [(.cache 0, .sendResp 0 1)] ∧ s.answers 1 = 1 ∧
      (MasterPort.updateStats 4 1 s.net.arena.heap.toMemory {}).2.totalDelay = 4 := exists_ok_of_map rfl
  obtain ⟨s, hrun, htasks, hanswers, hdelay⟩ := hoffered
  have hrecorded : s.RecordsRoundTrip 4 1 :=
    h (firstTrip.take 2) (.fire 0 (sendingAt 4)) s (List.prefix_refl _) hrun (.cache 0) 0 1
      (by rw [htasks]; rfl)
  rw [hrecorded {}, hanswers] at hdelay
  exact absurd (show (3 : UInt64) = 4 from hdelay) (by decide)

end Timed
end GemSc
