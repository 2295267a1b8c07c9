import GemSc.Link.PeerPort
import GemSc.Modules.Inversion
import GemSc.Modules.Interconnects

/-! Where `Router` hands a request, and what becomes of a request that its port does not take. -/

namespace GemSc
open Function ExceptFold

namespace DownstreamPort
variable {peer : Bool} {m : Memory} {p : PacketPtr} {d : DownstreamPort}

/-- What `sendReq` does with the packet keeps it somewhere: with the peer or at the back of a VC. -/
def Takes (peer : Bool) (m : Memory) (p : PacketPtr) (d : DownstreamPort) : Prop :=
  (d.sendReq peer m p).delivered = true ∨
    ∃ k, (d.sendReq peer m p).port.buffer k = d.buffer k ++ [p]

/-- The packet names a VC that is empty before a willing peer, or has a place left. -/
def HasRoom (peer : Bool) (m : Memory) (p : PacketPtr) (d : DownstreamPort) : Prop :=
  ∃ (k : ℕ) (vc : OutputVC), (m.packet p).vcId = k ∧ vcInRange k d.outputVcs.length ∧
    d.outputVcs[k]? = some vc ∧ ((vc.buffer = [] ∧ peer = true) ∨ ¬ vc.Full)

theorem exists_update_eq_concat_iff {f : ℕ → List PacketPtr} {k : ℕ} {b : List PacketPtr} :
    (∃ l, update f k b l = f l ++ [p]) ↔ b = f k ++ [p] := by
  constructor
  · rintro ⟨l, hl⟩
    by_cases hlk : l = k
    · subst hlk
      rwa [update_self] at hl
    · rw [update_of_ne hlk] at hl
      exact absurd hl (by simp)
  · intro h
    exact ⟨k, by rw [update_self, h]⟩

theorem buffer_offer_eq_concat_iff {vc : OutputVC} :
    (vc.offer p).2.buffer = vc.buffer ++ [p] ↔ ¬ vc.Full := by
  rw [OutputVC.buffer_offer, OutputVC.offer, OutputVC.Full]
  by_cases hfull : vc.capacity ≤ vc.buffer.length
  · simp [hfull]
  · simp [hfull, OutputVC.enqueue]

theorem hasRoom_iff {k : ℕ} {vc : OutputVC} (hvc : (m.packet p).vcId = k)
    (hin : vcInRange k d.outputVcs.length) (hget : d.outputVcs[k]? = some vc) :
    d.HasRoom peer m p ↔ (vc.buffer = [] ∧ peer = true) ∨ ¬ vc.Full := by
  constructor
  · rintro ⟨k', vc', hk', -, hget', h⟩
    obtain rfl : k = k' := Int.ofNat.inj (hvc.symm.trans hk')
    obtain rfl := Option.some.inj (hget.symm.trans hget')
    exact h
  · intro h
    exact ⟨k, vc, hvc, hin, hget, h⟩

theorem takes_iff_hasRoom : d.Takes peer m p ↔ d.HasRoom peer m p := by
  obtain ⟨-, ⟨-, hdel, hout, hport⟩ | ⟨k, vc, hvc, hin, hget, hcases⟩⟩ := d.sendReq_cases peer m p
  · -- a VC that the port does not have
    constructor
    · rintro (htrue | ⟨k, hk⟩)
      · exact absurd (hdel.symm.trans htrue) (by simp)
      · rw [hport] at hk
        exact absurd hk (by simp)
    · rintro ⟨k, vc, hk, hin, -, -⟩
      rw [hk] at hout
      exact absurd (hout.symm.trans hin) (by simp)
  · rw [hasRoom_iff hvc hin hget]
    rcases hcases with ⟨hnil, hpeer, -, hdel, -⟩ | ⟨hpeer, -, hdel, hvcs⟩
    · exact ⟨fun _ => .inl ⟨hnil, hpeer⟩, fun _ => .inl hdel⟩
    · have hnotPeer : ¬ (vc.buffer = [] ∧ peer = true) := by
        rintro ⟨hnil, htrue⟩
        rcases hpeer with hne | hfalse
        · exact hne hnil
        · exact absurd (htrue.symm.trans hfalse) (by simp)
      have hbuffer : d.buffer k = vc.buffer := by simp [buffer, hget]
      rw [Takes, hdel, buffer_of_set hget hvcs, exists_update_eq_concat_iff, hbuffer,
        buffer_offer_eq_concat_iff, or_iff_right hnotPeer, or_iff_right Bool.false_ne_true]

end DownstreamPort

namespace Router
variable {host : Host} {peer : ℕ → Bool} {a : Arena} {addr : UInt64} {p : PacketPtr} {r : Router}
  {res : Bool × Effect Router}

/-- The port that the region of an address is for: memory, DMA or MMIO. -/
def regionPort (addr : UInt64) : ℕ :=
  if addr < 0x80000000 then 0 else if addr < 0xF0000000 then 1 else 2

/-- What a call that handled a request to `addr` should have done, with the answers that the
peers of the ports would make. -/
structure DeliveredByRegion (host : Host) (peer : ℕ → Bool) (a : Arena) (addr : UInt64)
    (p : PacketPtr) (res : Bool × Effect Router) : Prop where
  handed : regionPort addr < host.downstreamPorts.length →
    res.2.calls = [.sendReq (regionPort addr) p]
  taken : res.1 = true → ∀ d, host.downstreamPorts[regionPort addr]? = some d →
    d.Takes (peer (regionPort addr)) a.heap.toMemory p
  released : host.downstreamPorts.length ≤ regionPort addr →
    res.2.calls = [] ∧ a.release p = .ok res.2.arena
  held : res.1 = true → a.release p = .ok res.2.arena ∨
    ∃ j d, .sendReq j p ∈ res.2.calls ∧ host.downstreamPorts[j]? = some d ∧
      d.Takes (peer j) a.heap.toMemory p

theorem handleUpstreamRequest_eq_ok (haddr : a.heap.address p = .ok addr)
    (h : r.handleUpstreamRequest host p a = .ok res) :
    res.1 = true ∧
      ((routeByAddress addr < host.downstreamPorts.length ∧ res.2.arena = a ∧
          res.2.calls = [.sendReq (routeByAddress addr) p]) ∨
        (host.downstreamPorts.length ≤ routeByAddress addr ∧ res.2.calls = [] ∧
          a.release p = .ok res.2.arena)) := by
  obtain ⟨addr', haddr', hrest⟩ := bind_eq_ok.mp h
  obtain rfl : addr = addr' := Except.ok.inj (haddr.symm.trans haddr')
  dsimp only at hrest
  split_ifs at hrest with hlt
  · obtain rfl := Except.ok.inj hrest
    exact ⟨rfl, .inl ⟨hlt, rfl, rfl⟩⟩
  · obtain ⟨b, hrel, rfl⟩ := bind_pure_eq_ok.mp hrest
    exact ⟨rfl, .inr ⟨not_lt.mp hlt, rfl, hrel⟩⟩

theorem routeByAddress_of_lt (h : addr < 0xF0000000) : routeByAddress addr = regionPort addr := by
  have hnot : ¬ 0xF0000000 ≤ addr := UInt64.not_le.mpr h
  unfold routeByAddress regionPort
  by_cases hlow : addr < 0x80000000
  · rw [if_pos hlow, if_neg (UInt64.not_le.mpr hlow), if_neg hnot]
  · rw [if_neg hlow, if_pos (UInt64.not_lt.mp hlow), if_pos h]

/-- From `0xF0000000` on, the requests for port 2 go where those for port 1 go. -/
theorem routeByAddress_of_le (h : 0xF0000000 ≤ addr) :
    routeByAddress addr = 1 ∧ regionPort addr = 2 := by
  have hlow : 0x80000000 ≤ addr := UInt64.le_trans (by decide) h
  constructor
  · rw [routeByAddress, if_pos hlow]
  · rw [regionPort, if_neg (UInt64.not_lt.mpr hlow), if_neg (UInt64.not_lt.mpr h)]

/-- Requests below the third region reach the port of theirs, and so do those above while
there is no second port. No request is lost while its port has room. -/
theorem delivered_by_region_iff (haddr : a.heap.address p = .ok addr)
    (h : r.handleUpstreamRequest host p a = .ok res) :
    DeliveredByRegion host peer a addr p res ↔
      (addr < 0xF0000000 ∨ host.downstreamPorts.length ≤ 1) ∧
        ∀ d, host.downstreamPorts[regionPort addr]? = some d →
          d.HasRoom (peer (regionPort addr)) a.heap.toMemory p := by
  obtain ⟨hok, hcases⟩ := handleUpstreamRequest_eq_ok haddr h
  constructor
  · intro hd
    refine ⟨?_, fun d hget => DownstreamPort.takes_iff_hasRoom.mp (hd.taken hok d hget)⟩
    by_contra hno
    obtain ⟨hle, htwo⟩ := not_or.mp hno
    obtain ⟨hroute, hregion⟩ := routeByAddress_of_le (UInt64.not_lt.mp hle)
    rw [hroute] at hcases
    -- the call went to port 1, whether or not there is a port 2
    rcases hcases with ⟨-, -, hcalls⟩ | ⟨hle', -⟩
    · rcases Nat.lt_or_ge (regionPort addr) host.downstreamPorts.length with hlt | hge
      · have hcalls' := hd.handed hlt
        rw [hregion] at hcalls'
        exact absurd (hcalls.symm.trans hcalls') (by simp)
      · exact absurd (hcalls.symm.trans (hd.released hge).1) (by simp)
    · exact htwo hle'
  · rintro ⟨hregion, hroom⟩
    have htakes : ∀ d, host.downstreamPorts[regionPort addr]? = some d →
        d.Takes (peer (regionPort addr)) a.heap.toMemory p :=
      fun d hget => DownstreamPort.takes_iff_hasRoom.mpr (hroom d hget)
    by_cases hlt : addr < 0xF0000000
    · rw [routeByAddress_of_lt hlt] at hcases
      rcases hcases with ⟨hport, -, hcalls⟩ | ⟨hnone, hcalls, hrel⟩
      · refine ⟨fun _ => hcalls, fun _ => htakes, fun hge => absurd hport hge.not_gt, fun _ => .inr ?_⟩
        have hget := List.getElem?_eq_getElem hport
        exact ⟨_, _, by rw [hcalls]; exact List.mem_singleton_self _, hget, htakes _ hget⟩
      · exact ⟨fun hport => absurd hport hnone.not_gt, fun _ => htakes, fun _ => ⟨hcalls, hrel⟩,
          fun _ => .inl hrel⟩
    · obtain ⟨hroute, htwo⟩ := routeByAddress_of_le (UInt64.not_lt.mp hlt)
      have hone : host.downstreamPorts.length ≤ 1 := hregion.resolve_left hlt
      rw [hroute] at hcases
      rcases hcases with ⟨hport, -⟩ | ⟨-, hcalls, hrel⟩
      · exact absurd hport hone.not_gt
      · refine ⟨fun hport => absurd hport ?_, fun _ => htakes, fun _ => ⟨hcalls, hrel⟩,
          fun _ => .inl hrel⟩
        rw [htwo]
        exact (hone.trans one_le_two).not_gt

def requestTo (addr : UInt64) : Arena where
  heap := { Heap.empty with
    packet := fun _ => { payload := some 0 }
    payload := fun _ => ⟨addr, 4⟩
    nextPacket := 1
    nextPayload := 1 }
  pool := {}
  live := {0}

def onePlacePort (buffered : List PacketPtr) : DownstreamPort :=
  ⟨0, "out", "out", [{ id := 0, priority := 0, buffer := buffered, capacity := 1 }], {}⟩

def routerHost (ports : List DownstreamPort) : Host := ⟨0, [], ports, fun _ _ => true, 0, 0⟩

theorem delivered_by_region_iff_memory :
    DeliveredByRegion (routerHost [onePlacePort []]) (fun _ => false) (requestTo 0x1000) 0x1000 0
      (true, ⟨{}, requestTo 0x1000, [.sendReq 0 0], []⟩) := by
  refine (delivered_by_region_iff (r := {}) rfl rfl).mpr ⟨.inl (by decide), fun d hd => ?_⟩
  obtain rfl := Option.some.inj hd
  exact ⟨0, _, rfl, rfl, rfl, .inr (by decide : ¬ 1 ≤ 0)⟩

/-- With three ports a request to `0xF0000000` goes to port 1, and a request that its full port
does not take is reported as handled. -/
theorem mmio_misrouted_and_refusal_lost :
    (∃ res, handleUpstreamRequest (routerHost (List.replicate 3 (onePlacePort []))) 0 {}
        (requestTo 0xF0000000) = .ok res ∧
      ¬ DeliveredByRegion (routerHost (List.replicate 3 (onePlacePort []))) (fun _ => false)
        (requestTo 0xF0000000) 0xF0000000 0 res) ∧
    ∃ res, handleUpstreamRequest (routerHost [onePlacePort [9]]) 0 {} (requestTo 0x1000) = .ok res ∧
      ¬ DeliveredByRegion (routerHost [onePlacePort [9]]) (fun _ => false)
        (requestTo 0x1000) 0x1000 0 res := by
  refine ⟨⟨_, rfl, fun hd => ?_⟩, ⟨_, rfl, fun hd => ?_⟩⟩
  · have hcalls : ([.sendReq 1 0] : List PortCall) = [.sendReq 2 0] := hd.handed (by decide)
    exact absurd hcalls (by decide)
  · obtain ⟨k, vc, hk, -, hget, hroom⟩ := DownstreamPort.takes_iff_hasRoom.mp (hd.taken rfl _ rfl)
    obtain rfl : 0 = k := Int.ofNat.inj hk
    obtain rfl := Option.some.inj hget
    rcases hroom with ⟨hnil, -⟩ | hroom
    · exact absurd hnil (by simp)
    · exact hroom (Nat.le_refl 1)

end Router
end GemSc
