import GemSc.Net.Network
import GemSc.Pool.Ownership

/-! Payloads in a network. A request and its response share one payload, and the release of
either recycles it. -/

namespace GemSc
open Function ExceptFold

namespace Arena

/-- What each packet carries once a response to `orig` is made. -/
def payloadsAfterResponse (a : Arena) (orig : PacketPtr) : PacketPtr → Option PayloadPtr :=
  let carried := update (fun y => (a.heap.packet y).payload) a.takePacket.1 none
  update carried a.takePacket.1 (carried orig)

/-- A response to `orig` is made, and then another live packet carries the payload of `p`. -/
def SharesAfterResponse (a : Arena) (orig p : PacketPtr) : Prop :=
  let carried := a.payloadsAfterResponse orig
  ∃ x ∈ insert a.takePacket.1 a.live, x ≠ p ∧ carried x = carried p ∧ carried p ≠ none

/-- What a step of a network does to the arena, and when it frees a payload that another live
packet carries. -/
inductive Move (a : Arena) : Prop → Arena → Prop
  | stay : Move a False a
  | acquire {x : PacketPtr} {a' : Arena} (h : Acquired a x a') : Move a False a'
  | release {p : PacketPtr} {a' : Arena} (h : a.release p = .ok a') : Move a (SharesPayload a p) a'
  | respond {now : UInt64} {orig p : PacketPtr} {r : PacketPtr × Arena}
      (h : a.makeResponse now orig p = .ok r) : Move a False r.2
  | answer {now : UInt64} {orig p : PacketPtr} {r : PacketPtr × Arena} {a' : Arena}
      (h : a.makeResponse now orig p = .ok r) (hrel : r.2.release p = .ok a') :
      Move a (SharesAfterResponse a orig p) a'
  | send {host : Host} {value : Payload} {x : PacketPtr} {b : Arena}
      (h : Acquired (a.newPayload value).2 x b) :
      Move a False (CPUSim.request host x (a.newPayload value).1 b)
  | refuse {host : Host} {value : Payload} {x : PacketPtr} {b a' : Arena}
      (h : Acquired (a.newPayload value).2 x b)
      (hrel : (CPUSim.request host x (a.newPayload value).1 b).release x = .ok a') : Move a False a'
  | stamp (p : PacketPtr) (cycle : UInt64) :
      Move a False (a.modify p fun pkt => { pkt with dstCycle := cycle })

theorem Move.congr {a a' : Arena} {F G : Prop} (h : Move a F a') (hFG : F ↔ G) : Move a G a' :=
  propext hFG ▸ h

variable {a a' b : Arena} {x p orig : PacketPtr} {now : UInt64}

theorem PayloadsOwned.respond (h : PayloadsOwned b) (hx : x ∈ b.live) :
    PayloadsOwned (b.respond now orig p x) := by
  apply h.modify (absurd hx) rfl
  intro q hq
  have hcarries : (b.heap.packet orig).payload = some q := hq
  exact h.carried hcarries

theorem payload_respond (hacq : Acquired a x b) (hx : x = a.takePacket.1) (y : PacketPtr) :
    ((b.respond now orig p x).heap.packet y).payload = a.payloadsAfterResponse orig y := by
  subst hx
  have hcarried : ∀ z, (b.heap.packet z).payload =
      update (fun y => (a.heap.packet y).payload) a.takePacket.1 none z := by
    intro z
    rw [hacq.payload, update_apply]
  rw [payloadsAfterResponse, ← hcarried]
  by_cases hy : y = a.takePacket.1
  · subst hy
    simp [Arena.respond, Arena.modify]
  · rw [update_of_ne hy, ← hcarried, Arena.respond, Arena.modify, Heap.packet_modify_of_ne _ _ hy]

theorem Uncounted.makeResponse {r : PacketPtr × Arena} (hu : a.Uncounted)
    (h : a.makeResponse now orig p = .ok r) : r.2.Uncounted := by
  obtain ⟨-, c, hacq, heq⟩ := makeResponse_eq_ok h
  rw [heq]
  exact (hu.acquire hacq).modify rfl

theorem PayloadsOwned.makeResponse {r : PacketPtr × Arena} (howned : PayloadsOwned a)
    (h : a.makeResponse now orig p = .ok r) : PayloadsOwned r.2 := by
  obtain ⟨-, c, hacq, heq⟩ := makeResponse_eq_ok h
  have hlive : r.1 ∈ c.live := hacq.live ▸ Finset.mem_insert_self ..
  rw [heq]
  exact (howned.acquire hacq).respond hlive

theorem sharesPayload_makeResponse {r : PacketPtr × Arena} (h : a.makeResponse now orig p = .ok r)
    (y : PacketPtr) : r.2.SharesPayload y ↔ a.SharesAfterResponse orig y := by
  obtain ⟨hx, c, hacq, heq⟩ := makeResponse_eq_ok h
  have hlive : r.2.live = insert a.takePacket.1 a.live := by
    rw [heq, ← hx]
    exact hacq.live
  have hpayload : ∀ z, (r.2.heap.packet z).payload = a.payloadsAfterResponse orig z := by
    intro z
    rw [heq]
    exact payload_respond hacq hx z
  simp only [SharesPayload, SharesAfterResponse, hlive, hpayload]

theorem Uncounted.request {value : Payload} (hu : a.Uncounted) (host : Host)
    (hacq : Acquired (a.newPayload value).2 x b) :
    (CPUSim.request host x (a.newPayload value).1 b).Uncounted := by
  have hnew : (a.newPayload value).2.Uncounted := hu
  exact (hnew.acquire hacq).modify rfl

theorem PayloadsOwned.request {value : Payload} {host : Host} (h : PayloadsOwned a)
    (hacq : Acquired (a.newPayload value).2 x b) :
    PayloadsOwned (CPUSim.request host x (a.newPayload value).1 b) ∧
      ¬ (CPUSim.request host x (a.newPayload value).1 b).SharesPayload x := by
  have howned := (h.newPayload value).acquire hacq
  obtain ⟨hlt, hfree, hdel⟩ := h.fresh value
  have hfresh := hacq.unused hlt hfree hdel
  have hlive : x ∈ b.live := hacq.live ▸ Finset.mem_insert_self ..
  constructor
  · refine howned.modify (absurd hlive) rfl fun q hq => ?_
    rw [← Option.some.inj hq]
    exact hfresh
  · rintro ⟨y, -, hyx, heq, -⟩
    have hself : ((CPUSim.request host x (a.newPayload value).1 b).heap.packet x).payload =
        some (a.newPayload value).1 := by simp [CPUSim.request, Arena.modify]
    have hother : (CPUSim.request host x (a.newPayload value).1 b).heap.packet y = a.heap.packet y := by
      rw [CPUSim.request, Arena.modify, Heap.packet_modify_of_ne _ _ hyx, hacq.packet, update_of_ne hyx]
      rfl
    rw [hself, hother] at heq
    exact lt_irrefl _ (h.bound y _ heq)

theorem Move.owned {F : Prop} (h : PayloadsOwned a) (hmove : Move a F a') (hF : ¬ F) :
    PayloadsOwned a' := by
  cases hmove with
  | stay => exact h
  | acquire hacq => exact h.acquire hacq
  | release hrel => exact h.release (released h.uncounted hrel) fun _ => hF
  | respond hresp => exact h.makeResponse hresp
  | answer hresp hrel =>
    have howned := h.makeResponse hresp
    refine howned.release (released howned.uncounted hrel) fun _ hshare => hF ?_
    exact (sharesPayload_makeResponse hresp _).mp hshare
  | send hacq => exact (h.request hacq).1
  | refuse hacq hrel =>
    obtain ⟨howned, hown⟩ := h.request hacq
    exact howned.release (released howned.uncounted hrel) fun _ => hown
  | stamp p cycle =>
    apply h.modify (h.idle p) rfl
    intro q hq
    exact h.carried hq

theorem Move.uncounted {F : Prop} (hu : a.Uncounted) (hmove : Move a F a') : a'.Uncounted := by
  cases hmove with
  | stay => exact hu
  | acquire hacq => exact hu.acquire hacq
  | release hrel => exact hu.release (released hu hrel)
  | respond hresp => exact hu.makeResponse hresp
  | answer hresp hrel =>
    have hresponse := hu.makeResponse hresp
    exact hresponse.release (released hresponse hrel)
  | @send host _ _ _ hacq => exact hu.request host hacq
  | @refuse host _ _ _ _ hacq hrel =>
    have hrequest := hu.request host hacq
    exact hrequest.release (released hrequest hrel)
  | stamp p cycle => exact hu.modify rfl

/-- A move that frees a shared payload leaves it with a live packet. -/
theorem Move.not_safe {F : Prop} (hu : a.Uncounted) (hmove : Move a F a') (hF : F) :
    ¬ PayloadsSafe a' := by
  cases hmove with
  | release hrel => exact not_safe_of_shared (released hu hrel) hF
  | answer hresp hrel =>
    apply not_safe_of_shared (released (hu.makeResponse hresp) hrel)
    exact (sharesPayload_makeResponse hresp _).mpr hF
  | stay => exact hF.elim
  | acquire hacq => exact hF.elim
  | respond hresp => exact hF.elim
  | send hacq => exact hF.elim
  | refuse hacq hrel => exact hF.elim
  | stamp p cycle => exact hF.elim

end Arena

namespace Network
variable {t : Topology} {n n' : Network} {host : Host}

/-- An offered request is freed by a full cache, or by a cache that answers it at once. -/
def FreesRequest (n : Network) (p : PacketPtr) : Node → Prop
  | .cpu _ => False
  | .cache i =>
    if CacheSim.maxBuffer ≤ (n.caches i).reqBuffer.length then n.arena.SharesPayload p
    else (∃ addr, n.arena.heap.address p = .ok addr ∧ CacheSim.isHit addr = true) ∧
      n.arena.SharesAfterResponse p p
  | .memory _ => False

/-- A response is freed by the CPU that takes it, or by a cache that passes it on. -/
def FreesResponse (n : Network) (p : PacketPtr) : Node → Prop
  | .cpu _ => n.arena.SharesPayload p
  | .cache _ => ∃ orig, (n.arena.heap.packet p).originalReq = some orig ∧
      n.arena.SharesAfterResponse orig p
  | .memory _ => False

/-- The step releases a packet whose payload another live packet carries. -/
def FreesShared (t : Topology) (n : Network) : NetStep → Prop
  | .offer i _ => ∃ p node port, n.requests[i]? = some (p, node, port) ∧ n.FreesRequest p node
  | .fire i _ => ∃ node port p, n.tasks[i]? = some (node, .sendResp port p) ∧
      n.FreesResponse p (t.downstreamOf node port).1
  | .release p => n.arena.SharesPayload p
  | .tick _ _ => False
  | .stamp _ _ => False
  | .acquire => False

theorem move_tick {node : Node} (h : n.tick t host node = .ok n') :
    n.arena.Move False n'.arena := by
  cases node with
  | cpu i =>
    obtain ⟨e, he, rfl⟩ := bind_pure_eq_ok.mp h
    rcases CPUSim.tick_eq_ok he with rfl | ⟨x, b, hacq, -, -, ⟨-, harena, -⟩ | ⟨-, -, hrel⟩⟩
    · exact .stay
    · show n.arena.Move False e.arena
      rw [harena]
      exact .send hacq
    · exact .refuse hacq hrel
  | cache i =>
    obtain ⟨e, he, rfl⟩ := bind_pure_eq_ok.mp h
    show n.arena.Move False e.arena
    rw [(CacheSim.tryForward_eq_ok he).1]
    exact .stay
  | memory i =>
    obtain rfl := Except.ok.inj h
    exact .stay

theorem move_request {p : PacketPtr} {port : ℕ} {node : Node} {ok : Bool}
    (h : n.request t host p port node = .ok (ok, n')) :
    n.arena.Move (n.FreesRequest p node) n'.arena := by
  cases node with
  | cpu i =>
    obtain ⟨-, rfl⟩ := Prod.mk.inj (Except.ok.inj h)
    exact .stay
  | memory i =>
    obtain ⟨⟨b, e⟩, he, hend⟩ := bind_pure_eq_ok.mp h
    obtain ⟨-, rfl⟩ := Prod.mk.inj hend
    obtain ⟨r, hresp, -, rfl⟩ := MemorySim.handleUpstreamRequest_eq_ok he
    exact .respond hresp
  | cache i =>
    obtain ⟨⟨b, e⟩, he, hend⟩ := bind_pure_eq_ok.mp h
    obtain ⟨-, rfl⟩ := Prod.mk.inj hend
    show n.arena.Move _ e.arena
    rw [FreesRequest]
    rcases CacheSim.handleUpstreamRequest_eq_ok he with
      ⟨hfull, -, hrel, -⟩ | ⟨hroom, -, addr, haddr, ⟨hhit, r, hresp, hrel, -⟩ | ⟨hmiss, rfl⟩⟩
    · rw [if_pos hfull]
      exact .release hrel
    · rw [if_neg hroom.not_ge]
      exact (Arena.Move.answer hresp hrel).congr ⟨fun h => ⟨⟨addr, haddr, hhit⟩, h⟩, fun h => h.2⟩
    · rw [if_neg hroom.not_ge]
      refine Arena.Move.stay.congr ⟨False.elim, ?_⟩
      rintro ⟨⟨addr', haddr', hhit⟩, -⟩
      obtain rfl := Except.ok.inj (haddr.symm.trans haddr')
      exact absurd hhit (by simp [hmiss])

theorem move_response {p : PacketPtr} {port : ℕ} {node : Node}
    (h : n.response t host p port node = .ok n') :
    n.arena.Move (n.FreesResponse p node) n'.arena := by
  cases node with
  | cpu i =>
    obtain ⟨⟨b, e⟩, he, rfl⟩ := bind_pure_eq_ok.mp h
    exact .release (CPUSim.handleDownstreamResponse_eq_ok he).1
  | memory i =>
    obtain rfl := Except.ok.inj h
    exact .stay
  | cache i =>
    obtain ⟨⟨b, e⟩, he, rfl⟩ := bind_pure_eq_ok.mp h
    obtain ⟨orig, r, horig, hresp, hrel, -⟩ := CacheSim.handleDownstreamResponse_eq_ok he
    refine (Arena.Move.answer hresp hrel).congr ⟨fun h => ⟨orig, horig, h⟩, ?_⟩
    rintro ⟨orig', horig', hshare⟩
    obtain rfl := Option.some.inj (horig.symm.trans horig')
    exact hshare

theorem move_step {s : NetStep} (h : n.step t s = .ok n') :
    n.arena.Move (n.FreesShared t s) n'.arena := by
  cases s with
  | tick node host => exact move_tick h
  | stamp p cycle =>
    obtain rfl := Except.ok.inj h
    exact .stamp p cycle
  | acquire =>
    obtain ⟨r, hr, rfl⟩ := bind_pure_eq_ok.mp h
    exact .acquire (Arena.acquired hr)
  | release p =>
    obtain ⟨a, hrel, rfl⟩ := bind_pure_eq_ok.mp h
    exact .release hrel
  | offer i host =>
    rw [step] at h
    split at h
    · next hnone =>
      obtain rfl := Except.ok.inj h
      exact Arena.Move.stay.congr ⟨False.elim, by simp [FreesShared, hnone]⟩
    · next p node port hsome =>
      obtain ⟨⟨ok, m⟩, hm, hend⟩ := bind_eq_ok.mp h
      have harena : n'.arena = m.arena := by
        obtain rfl := Except.ok.inj hend
        dsimp only
        split_ifs <;> rfl
      rw [harena]
      exact (move_request hm).congr (by simp [FreesShared, hsome])
  | fire i host =>
    rw [step] at h
    split at h
    · next hnone =>
      obtain rfl := Except.ok.inj h
      exact Arena.Move.stay.congr ⟨False.elim, by simp [FreesShared, hnone]⟩
    · next node hsome => exact (move_tick h).congr ⟨False.elim, by simp [FreesShared, hsome]⟩
    · next node port p hsome =>
      refine (move_response h).congr ?_
      simp only [FreesShared, hsome]
      constructor
      · intro hfree
        exact ⟨node, port, p, rfl, hfree⟩
      · rintro ⟨node', port', p', heq, hfree⟩
        cases heq
        exact hfree

/-- Throughout a run every live packet keeps its payload exactly when no step of it releases
a packet whose payload another live packet carries. -/
theorem payloads_safe_iff (t : Topology) (start : Network) (hempty : start.arena = .empty)
    (steps : List NetStep) :
    Always (step t) start (fun n => n.arena.PayloadsSafe) steps ↔
      Never (step t) start (FreesShared t) steps := by
  refine always_iff_never (fun n : Network => n.arena.PayloadsOwned)
    (fun n : Network => n.arena.Uncounted) _ (fun _ _ => True) _ (each_true _ _) ?_ ?_
    (fun n h => h.toPayloadsSafe) ?_ ?_ ?_
  · rw [hempty]
    exact Arena.payloadsOwned_empty
  · rw [hempty]
    exact Arena.payloadsOwned_empty.uncounted
  · intro n s n' hu hstep
    exact (move_step hstep).uncounted hu
  · intro n s n' hown _ hstep hfree
    exact (move_step hstep).owned hown hfree
  · intro n s n' hu _ _ hstep hfree
    exact (move_step hstep).not_safe hu hfree

def sendingHost : Host where
  now := 0
  upstreamPorts := []
  downstreamPorts := [DownstreamPort.new 0 [4] [] "out"]
  sendReq := fun _ _ => true
  rand := 0
  randomAddr := 0

def oneRequest : List NetStep := [.tick (.cpu 0) sendingHost, .offer 0 sendingHost]

theorem payloads_safe_iff_demo :
    Always (step (cpuOver (.memory 0))) idle (fun n => n.arena.PayloadsSafe) oneRequest := by
  refine (payloads_safe_iff _ idle rfl oneRequest).mpr ?_
  intro pre s n n' hpre hrun hstep hfree
  rcases concat_prefix_pair hpre with ⟨-, rfl⟩ | ⟨rfl, rfl⟩
  · exact hfree
  · have hsent : ∃ n, run (cpuOver (.memory 0)) idle [.tick (.cpu 0) sendingHost] = .ok n ∧
        n.requests = [(0, .memory 0, 0)] := exists_ok_of_map rfl
    obtain ⟨m, hm, hrequests⟩ := hsent
    obtain rfl := Except.ok.inj (hrun.symm.trans hm)
    obtain ⟨p, node, port, hreq, hfree⟩ := hfree
    rw [hrequests] at hreq
    cases hreq
    exact hfree

/-- A request for `0x1000` hits in a cache. Its payload is free while the response is live. -/
theorem answered_payload_freed :
    ¬ Always (step (cpuOver (.cache 0))) idle (fun n => n.arena.PayloadsSafe) oneRequest := by
  intro h
  have hfreed : ∃ n, run (cpuOver (.cache 0)) idle oneRequest = .ok n ∧ 1 ∈ n.arena.live ∧
      (n.arena.heap.packet 1).payload = some 0 ∧ 0 ∈ n.arena.pool.payloadFreelist := exists_ok_of_map rfl
  obtain ⟨n, hrun, hlive, hpay, hfree⟩ := hfreed
  exact ((h oneRequest n (List.prefix_refl _) hrun).kept 1 hlive 0 hpay).1 hfree

end Network
end GemSc
