import GemSc.Lib.ExceptFold
import GemSc.Modules.CPUSim
import GemSc.Modules.CacheSim
import GemSc.Modules.Interconnects
import GemSc.Pool.Calls

/-! What a handler did when it returned: an inversion lemma for each handler that branches. -/

namespace GemSc
open Function ExceptFold

namespace Arena

def respond (now : UInt64) (orig pkt resp : PacketPtr) (a : Arena) : Arena :=
  a.modify resp fun r =>
    { r with
      payload := (a.heap.packet orig).payload
      srcCycle := now
      type := .resp
      originalReq := some orig
      vcId := (a.heap.packet pkt).vcId }

theorem makeResponse_eq_ok {now : UInt64} {orig pkt : PacketPtr} {a : Arena} {r : PacketPtr × Arena}
    (h : a.makeResponse now orig pkt = .ok r) :
    r.1 = a.takePacket.1 ∧ ∃ b, Acquired a r.1 b ∧ r.2 = b.respond now orig pkt r.1 := by
  obtain ⟨⟨x, b⟩, hacq, hrest⟩ := bind_eq_ok.mp h
  obtain ⟨origPkt, horig, hrest'⟩ := bind_eq_ok.mp hrest
  obtain ⟨reqPkt, hreq, hend⟩ := bind_eq_ok.mp hrest'
  obtain ⟨-, rfl⟩ := Heap.get_eq_ok horig
  obtain ⟨-, rfl⟩ := Heap.get_eq_ok hreq
  obtain rfl := Except.ok.inj hend
  obtain ⟨t, c, h', htake, -⟩ := acquire_eq_ok hacq
  exact ⟨by rw [htake], b, acquired hacq, rfl⟩

end Arena

variable {host : Host} {p : PacketPtr} {srcId : ℕ} {a : Arena} {ok : Bool}

namespace CPUSim

theorem handleDownstreamResponse_eq_ok {c : CPUSim} {e : Effect CPUSim}
    (h : c.handleDownstreamResponse p a = .ok (ok, e)) :
    a.release p = .ok e.arena ∧ e.calls = [] ∧ e.scheduled = [] := by
  obtain ⟨resp, -, hrest⟩ := bind_eq_ok.mp h
  split_ifs at hrest
  · obtain ⟨orig, -, hrest'⟩ := bind_eq_ok.mp hrest
    obtain ⟨addr, -, hrest''⟩ := bind_eq_ok.mp hrest'
    obtain ⟨b, hrel, hend⟩ := bind_pure_eq_ok.mp hrest''
    obtain ⟨-, rfl⟩ := Prod.mk.inj hend
    exact ⟨hrel, rfl, rfl⟩
  · obtain ⟨b, hrel, hend⟩ := bind_pure_eq_ok.mp hrest
    obtain ⟨-, rfl⟩ := Prod.mk.inj hend
    exact ⟨hrel, rfl, rfl⟩

def request (host : Host) (x : PacketPtr) (q : PayloadPtr) (b : Arena) : Arena :=
  b.modify x fun pkt => { pkt with payload := some q, srcCycle := host.now, type := .req, vcId := 0 }

theorem tick_eq_ok {c : CPUSim} {e : Effect CPUSim} (h : c.tick host a = .ok e) :
    e = ⟨c, a, [], []⟩ ∨
      ∃ x b, Arena.Acquired (a.newPayload ⟨c.nextAddr, 4⟩).2 x b ∧ e.scheduled = [] ∧
        e.calls = [.sendReq (c.nextAddr.toNat % host.downstreamPorts.length) x] ∧
        ((host.sendReq (c.nextAddr.toNat % host.downstreamPorts.length) x = true ∧
            e.arena = request host x (a.newPayload ⟨c.nextAddr, 4⟩).1 b ∧
            c.inflightReqs.length < 4 ∧
            e.state = ⟨(c.nextAddr, x) :: (c.erase c.nextAddr).inflightReqs, c.nextAddr + 4⟩) ∨
          (host.sendReq (c.nextAddr.toNat % host.downstreamPorts.length) x = false ∧
            e.state = c ∧
            (request host x (a.newPayload ⟨c.nextAddr, 4⟩).1 b).release x = .ok e.arena)) := by
  unfold tick at h
  split_ifs at h with hports hissue
  · exact .inl (Except.ok.inj h).symm
  · obtain ⟨⟨x, b⟩, hacq, hsend⟩ := bind_eq_ok.mp h
    refine .inr ⟨x, b, Arena.acquired hacq, ?_⟩
    simp only [sendRequest] at hsend
    split_ifs at hsend with hok
    · obtain rfl := Except.ok.inj hsend
      exact ⟨rfl, rfl, .inl ⟨hok, rfl, hissue.1, rfl⟩⟩
    · obtain ⟨d, hrel, rfl⟩ := bind_pure_eq_ok.mp hsend
      exact ⟨rfl, rfl, .inr ⟨Bool.eq_false_iff.mpr hok, rfl, hrel⟩⟩
  · exact .inl (Except.ok.inj h).symm

end CPUSim

theorem MemorySim.handleUpstreamRequest_eq_ok {m : MemorySim} {e : Effect MemorySim}
    (h : m.handleUpstreamRequest host p srcId a = .ok (ok, e)) :
    ∃ r, a.makeResponse host.now p p = .ok r ∧ ok = true ∧
      e = ⟨m, r.2, [], [(.sendResp srcId r.1, 100)]⟩ := by
  obtain ⟨addr, -, hrest⟩ := bind_eq_ok.mp h
  obtain ⟨r, hresp, hend⟩ := bind_pure_eq_ok.mp hrest
  obtain ⟨rfl, rfl⟩ := Prod.mk.inj hend
  exact ⟨r, hresp, rfl, rfl⟩

namespace CacheSim
variable {c : CacheSim} {e : Effect CacheSim}

theorem handleUpstreamRequest_eq_ok (h : c.handleUpstreamRequest host p srcId a = .ok (ok, e)) :
    (maxBuffer ≤ c.reqBuffer.length ∧ ok = false ∧ a.release p = .ok e.arena ∧
        e = ⟨c, e.arena, [], []⟩) ∨
      (c.reqBuffer.length < maxBuffer ∧ ok = true ∧ ∃ addr, a.heap.address p = .ok addr ∧
        ((isHit addr = true ∧ ∃ r, a.makeResponse host.now p p = .ok r ∧
            r.2.release p = .ok e.arena ∧ e = ⟨c, e.arena, [], [(.sendResp srcId r.1, 1)]⟩) ∨
          (isHit addr = false ∧ e = ⟨⟨c.reqBuffer ++ [p]⟩, a, [], [(.tryForward, 1)]⟩))) := by
  unfold handleUpstreamRequest at h
  split_ifs at h with hfull
  · obtain ⟨b, hrel, hend⟩ := bind_pure_eq_ok.mp h
    obtain ⟨rfl, rfl⟩ := Prod.mk.inj hend
    exact .inl ⟨hfull, rfl, hrel, rfl⟩
  · obtain ⟨addr, haddr, hrest⟩ := bind_eq_ok.mp h
    refine .inr ⟨not_le.mp hfull, ?_⟩
    split_ifs at hrest with hhit
    · obtain ⟨r, hresp, hrest'⟩ := bind_eq_ok.mp hrest
      obtain ⟨b, hrel, hend⟩ := bind_pure_eq_ok.mp hrest'
      obtain ⟨rfl, rfl⟩ := Prod.mk.inj hend
      exact ⟨rfl, addr, haddr, .inl ⟨hhit, r, hresp, hrel, rfl⟩⟩
    · obtain ⟨rfl, rfl⟩ := Prod.mk.inj (Except.ok.inj hrest)
      exact ⟨rfl, addr, haddr, .inr ⟨Bool.eq_false_iff.mpr hhit, rfl⟩⟩

theorem handleDownstreamResponse_eq_ok
    (h : c.handleDownstreamResponse host p srcId a = .ok (ok, e)) :
    ∃ orig r, (a.heap.packet p).originalReq = some orig ∧ a.makeResponse host.now orig p = .ok r ∧
      r.2.release p = .ok e.arena ∧
      e = ⟨c, e.arena, [], [(.sendResp (srcId % host.upstreamPorts.length) r.1, 1)]⟩ := by
  obtain ⟨resp, hget, hrest⟩ := bind_eq_ok.mp h
  obtain ⟨orig, horig, hrest'⟩ := bind_eq_ok.mp hrest
  obtain ⟨r, hresp, hrest''⟩ := bind_eq_ok.mp hrest'
  obtain ⟨b, hrel, hend⟩ := bind_pure_eq_ok.mp hrest''
  obtain ⟨-, rfl⟩ := Prod.mk.inj hend
  obtain ⟨-, rfl⟩ := Heap.get_eq_ok hget
  exact ⟨orig, r, Heap.deref_eq_ok horig, hresp, hrel, rfl⟩

theorem tryForward_eq_ok (h : c.tryForward host a = .ok e) :
    e.arena = a ∧ e.scheduled = [] ∧
      ((e.state = c ∧ e.calls = []) ∨
        ∃ x rest j, c.reqBuffer = x :: rest ∧ routeToDownstream host x a = .ok (some j) ∧
          e.calls = [.sendReq j x] ∧ e.state = if host.sendReq j x then ⟨rest⟩ else c) := by
  unfold tryForward at h
  split at h
  · obtain rfl := Except.ok.inj h
    exact ⟨rfl, rfl, .inl ⟨rfl, rfl⟩⟩
  · next x rest hbuf =>
    obtain ⟨dst, hdst, hsend⟩ := bind_eq_ok.mp h
    cases dst with
    | none =>
      obtain rfl := Except.ok.inj hsend
      exact ⟨rfl, rfl, .inl ⟨rfl, rfl⟩⟩
    | some j =>
      dsimp only at hsend
      split_ifs at hsend with hok
      · obtain rfl := Except.ok.inj hsend
        exact ⟨rfl, rfl, .inr ⟨x, rest, j, hbuf, hdst, rfl, (if_pos hok).symm⟩⟩
      · obtain rfl := Except.ok.inj hsend
        exact ⟨rfl, rfl, .inr ⟨x, rest, j, hbuf, hdst, rfl, (if_neg hok).symm⟩⟩

end CacheSim
theorem Arena.takePacket_newPayload (a : Arena) (value : Payload) :
    (a.newPayload value).2.takePacket.1 = a.takePacket.1 := by
  unfold newPayload takePacket
  cases a.pool.packetFreelist with
  | nil => rfl
  | cons x rest => rfl

namespace TrafficGenerator

def request (host : Host) (x : PacketPtr) (q : PayloadPtr) (b : Arena) : Arena :=
  b.modify x fun pkt => { pkt with payload := some q, srcCycle := host.now, type := .req }

theorem tick_eq_ok {g : TrafficGenerator} {e : Effect TrafficGenerator}
    (h : g.tick host a = .ok e) :
    (¬ (host.downstreamPorts ≠ [] ∧ g.completed < g.numRequests ∧ host.rand % 10 = 0) ∧
        e = ⟨g, a, [], []⟩) ∨
      (host.downstreamPorts ≠ [] ∧ g.completed < g.numRequests ∧ host.rand % 10 = 0) ∧
        (((g.nextAddress host).1 = none ∧
            e = ⟨(g.nextAddress host).2, (a.newPayload ⟨0, 0⟩).2, [], []⟩) ∨
          ∃ addr b, (g.nextAddress host).1 = some addr ∧
            Arena.Acquired (a.newPayload ⟨addr, 4⟩).2 a.takePacket.1 b ∧
            e = ⟨(g.nextAddress host).2, e.arena, [.sendReq 0 a.takePacket.1], []⟩ ∧
            ((host.sendReq 0 a.takePacket.1 = true ∧
                e.arena = request host a.takePacket.1 (a.newPayload ⟨addr, 4⟩).1 b) ∨
              (host.sendReq 0 a.takePacket.1 = false ∧
                (request host a.takePacket.1 (a.newPayload ⟨addr, 4⟩).1 b).release a.takePacket.1 =
                  .ok e.arena))) := by
  unfold tick at h
  split_ifs at h with hissues
  · refine .inr ⟨hissues, ?_⟩
    unfold issueRequest at h
    split at h
    · next g' hnext =>
      obtain rfl := Except.ok.inj h
      rw [hnext]
      exact .inl ⟨rfl, rfl⟩
    · next addr g' hnext =>
      obtain ⟨⟨x, b⟩, hacq, hsend⟩ := bind_eq_ok.mp h
      obtain ⟨t, -, -, htake, -⟩ := Arena.acquire_eq_ok hacq
      obtain rfl : a.takePacket.1 = x := by
        rw [← Arena.takePacket_newPayload a ⟨addr, 4⟩, htake]
      rw [hnext]
      refine .inr ⟨addr, b, rfl, Arena.acquired hacq, ?_⟩
      simp only [sendRequest] at hsend
      split_ifs at hsend with hok
      · obtain rfl := Except.ok.inj hsend
        exact ⟨rfl, .inl ⟨hok, rfl⟩⟩
      · obtain ⟨d, hrel, rfl⟩ := bind_pure_eq_ok.mp hsend
        exact ⟨rfl, .inr ⟨Bool.eq_false_iff.mpr hok, hrel⟩⟩
  · exact .inl ⟨hissues, (Except.ok.inj h).symm⟩

end TrafficGenerator

theorem Crossbar.tick_eq_ok {x : Crossbar} {e : Effect Crossbar} (h : x.tick host a = .ok e) :
    (x.reqQueue = [] ∧ e = ⟨x, a, [], []⟩) ∨
      ∃ pkt src rest, x.reqQueue = (pkt, src) :: rest ∧
        ((host.downstreamPorts = [] ∧ a.release pkt = .ok e.arena ∧ e = ⟨⟨rest⟩, e.arena, [], []⟩) ∨
          (host.downstreamPorts ≠ [] ∧ ∃ addr dst, a.heap.address pkt = .ok addr ∧
            dst = route addr host.downstreamPorts.length ∧
            e = ⟨⟨if host.sendReq dst pkt then rest else rest ++ [(pkt, src)]⟩, a,
              [.sendReq dst pkt], []⟩)) := by
  unfold tick at h
  split at h
  · next hnil => exact .inl ⟨hnil, (Except.ok.inj h).symm⟩
  · next pkt src rest hcons =>
    refine .inr ⟨pkt, src, rest, hcons, ?_⟩
    split_ifs at h with hports
    · obtain ⟨b, hrel, rfl⟩ := bind_pure_eq_ok.mp h
      exact .inl ⟨hports, hrel, rfl⟩
    · obtain ⟨addr, haddr, hsend⟩ := bind_eq_ok.mp h
      refine .inr ⟨hports, addr, _, haddr, rfl, ?_⟩
      dsimp only at hsend
      split_ifs at hsend with hok
      · rw [if_pos hok]
        exact (Except.ok.inj hsend).symm
      · rw [if_neg hok]
        exact (Except.ok.inj hsend).symm

theorem Arbiter.tick_eq_ok {x : Arbiter} {e : Effect Arbiter} (h : x.tick host a = .ok e) :
    (x.reqQueue = [] ∧ e = ⟨x, a, [], []⟩) ∨
      ∃ pkt src rest, x.reqQueue = (pkt, src) :: rest ∧
        ((host.downstreamPorts = [] ∧ e = ⟨⟨rest⟩, a, [], []⟩) ∨
          (host.downstreamPorts ≠ [] ∧
            e = ⟨⟨if host.sendReq 0 pkt then rest else rest ++ [(pkt, src)]⟩, a,
              [.sendReq 0 pkt], []⟩)) := by
  unfold tick at h
  split at h
  · next hnil => exact .inl ⟨hnil, (Except.ok.inj h).symm⟩
  · next pkt src rest hcons =>
    refine .inr ⟨pkt, src, rest, hcons, ?_⟩
    split_ifs at h with hports hok
    · exact .inl ⟨hports, (Except.ok.inj h).symm⟩
    · rw [if_pos hok]
      exact .inr ⟨hports, (Except.ok.inj h).symm⟩
    · rw [if_neg hok]
      exact .inr ⟨hports, (Except.ok.inj h).symm⟩

theorem Router.handleDownstreamResponse_eq_ok {r : Router} {e : Effect Router}
    (h : r.handleDownstreamResponse host p srcId a = .ok (ok, e)) :
    ((a.heap.packet p).originalReq.isSome ∧ srcId < host.upstreamPorts.length ∧
        e = ⟨r, a, [.sendResp srcId p], []⟩) ∨
      (¬ ((a.heap.packet p).originalReq.isSome ∧ srcId < host.upstreamPorts.length) ∧
        a.release p = .ok e.arena ∧ e = ⟨r, e.arena, [], []⟩) := by
  obtain ⟨resp, hget, hrest⟩ := bind_eq_ok.mp h
  obtain ⟨-, rfl⟩ := Heap.get_eq_ok hget
  split_ifs at hrest with hback
  · obtain ⟨-, rfl⟩ := Prod.mk.inj (Except.ok.inj hrest)
    exact .inl ⟨hback.1, hback.2, rfl⟩
  · obtain ⟨b, hrel, hend⟩ := bind_pure_eq_ok.mp hrest
    obtain ⟨-, rfl⟩ := Prod.mk.inj hend
    exact .inr ⟨hback, hrel, rfl⟩

end GemSc
