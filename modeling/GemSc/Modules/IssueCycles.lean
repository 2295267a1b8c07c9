import GemSc.Modules.Routing
import GemSc.Modules.Servicing
import GemSc.Pool.Usable

/-! The cycle at which a packet was issued: what the pool and the handlers of the modules write to
it. The handlers that a module does not override refuse the packet. -/

namespace GemSc
open Function ExceptFold

namespace Arena

/-- Every packet keeps its issue cycle, or gets the current one or that of a packet just reset. -/
def Reissued (now : UInt64) (a b : Arena) : Prop :=
  ∀ p, (b.heap.packet p).srcCycle = (a.heap.packet p).srcCycle ∨
    (b.heap.packet p).srcCycle = now ∨ (b.heap.packet p).srcCycle = 0

variable {now : UInt64} {a b c : Arena} {x p orig : PacketPtr}

theorem Reissued.of_packet_eq (h : b.heap.packet = a.heap.packet) : Reissued now a b := by
  intro p
  rw [h]
  exact .inl rfl

theorem Reissued.refl (a : Arena) : Reissued now a a := .of_packet_eq rfl

theorem Reissued.trans (h : Reissued now a b) (h' : Reissued now b c) : Reissued now a c := by
  intro p
  rcases h' p with hsame | hnew
  · rw [hsame]
    exact h p
  · exact .inr hnew

theorem reissued_modify {f : Packet → Packet}
    (hf : (f (a.heap.packet x)).srcCycle = (a.heap.packet x).srcCycle ∨
      (f (a.heap.packet x)).srcCycle = now) : Reissued now a (a.modify x f) := by
  intro p
  by_cases hp : p = x
  · rw [hp, modify, Heap.packet_modify_self]
    exact hf.imp_right .inl
  · rw [modify, Heap.packet_modify_of_ne _ _ hp]
    exact .inl rfl

theorem reissued_of_reset (h : b.heap.packet = update a.heap.packet x {}) : Reissued now a b := by
  intro p
  rw [h, update_apply]
  split
  · exact .inr (.inr rfl)
  · exact .inl rfl

theorem Acquired.reissued (h : Acquired a x b) : Reissued now a b := reissued_of_reset h.packet

theorem reissued_dropReference (h : a.dropReference p = .ok b) : Reissued now a b := by
  unfold dropReference removeRef at h
  split_ifs at h
  · split at h
    · obtain rfl := Except.ok.inj h
      exact .refl a
    · obtain ⟨pkt, -, hrest⟩ := bind_eq_ok.mp h
      split_ifs at hrest
      · obtain rfl := Except.ok.inj hrest
        exact .refl a
      · obtain rfl := Except.ok.inj hrest
        exact reissued_modify (.inl rfl)
  · obtain rfl := Except.ok.inj h
    exact .refl a

theorem reissued_recyclePayload (h : a.recyclePayload p = .ok b) : Reissued now a b := by
  rcases recyclePayload_eq_ok h with ⟨-, rfl⟩ | ⟨q, -, -, rfl | rfl⟩
  · exact .refl b
  · exact Reissued.trans (.of_packet_eq rfl) (reissued_modify (.inl rfl))
  · exact Reissued.trans (.of_packet_eq rfl) (reissued_modify (.inl rfl))

theorem reissued_recyclePacket (h : a.recyclePacket p = .ok b) : Reissued now a b := by
  rcases recyclePacket_eq_ok h with rfl | rfl
  · exact .of_packet_eq rfl
  · exact .of_packet_eq rfl

theorem reissued_release (h : a.release p = .ok b) : Reissued now a b := by
  obtain ⟨pkt, -, hrest⟩ := bind_eq_ok.mp h
  obtain ⟨b₁, hdrop, hrest₁⟩ := bind_eq_ok.mp hrest
  obtain ⟨b₂, hpay, hrest₂⟩ := bind_eq_ok.mp hrest₁
  obtain ⟨heap, hreset, hrest₃⟩ := bind_eq_ok.mp hrest₂
  obtain ⟨b₃, hpacket, hend⟩ := bind_pure_eq_ok.mp hrest₃
  obtain ⟨D, rfl, -⟩ := Heap.resetPacket_eq_ok hreset
  have hforget : Reissued now b₁ (b₁.modify p fun pkt => { pkt with originalReq := none }) :=
    reissued_modify (.inl rfl)
  have hcleared : Reissued now b₂ { b₂ with heap := { b₂.heap with
      packet := update b₂.heap.packet p {}
      deletedPayloads := D } } := reissued_of_reset rfl
  have hcounted : Reissued now b₃ b := by
    rw [← hend]
    exact .of_packet_eq rfl
  have hdropped : Reissued now a b₁ := reissued_dropReference hdrop
  have hrecycled := hforget.trans (reissued_recyclePayload hpay)
  have hfreed := (reissued_recyclePacket hpacket).trans hcounted
  exact hdropped.trans (hrecycled.trans (hcleared.trans hfreed))

theorem reissued_makeResponse {r : PacketPtr × Arena} (h : a.makeResponse now orig p = .ok r) :
    Reissued now a r.2 := by
  obtain ⟨-, b, hacq, heq⟩ := makeResponse_eq_ok h
  rw [heq]
  exact hacq.reissued.trans (reissued_modify (.inr rfl))

end Arena

open Arena

variable {host : Host} {a : Arena} {p : PacketPtr} {srcId : ℕ} {ok : Bool}

theorem reissued_issue {v : Payload} {x : PacketPtr} {b : Arena} {f : Packet → Packet}
    (h : Acquired (a.newPayload v).2 x b) (hf : ∀ pkt, (f pkt).srcCycle = host.now) :
    Reissued host.now a (b.modify x f) := by
  have hnew : Reissued host.now a (a.newPayload v).2 := .of_packet_eq rfl
  exact hnew.trans (h.reissued.trans (reissued_modify (.inr (hf _))))

theorem CPUSim.reissued_tick {c : CPUSim} {e : Effect CPUSim} (h : c.tick host a = .ok e) :
    Reissued host.now a e.arena := by
  rcases CPUSim.tick_eq_ok h with rfl | ⟨x, b, hacq, -, -, ⟨-, harena, -⟩ | ⟨-, -, hrel⟩⟩
  · exact .refl a
  · rw [harena]
    exact reissued_issue hacq fun _ => rfl
  · have hissued : Reissued host.now a (CPUSim.request host x (a.newPayload ⟨c.nextAddr, 4⟩).1 b) :=
      reissued_issue hacq fun _ => rfl
    exact hissued.trans (reissued_release hrel)

theorem TrafficGenerator.reissued_tick {g : TrafficGenerator} {e : Effect TrafficGenerator}
    (h : g.tick host a = .ok e) : Reissued host.now a e.arena := by
  rcases TrafficGenerator.tick_eq_ok h with ⟨-, rfl⟩ | ⟨-, ⟨-, rfl⟩ | ⟨addr, b, -, hacq, -, hsent⟩⟩
  · exact .refl a
  · exact .of_packet_eq rfl
  · have hissued : Reissued host.now a
        (TrafficGenerator.request host a.takePacket.1 (a.newPayload ⟨addr, 4⟩).1 b) :=
      reissued_issue hacq fun _ => rfl
    rcases hsent with ⟨-, harena⟩ | ⟨-, hrel⟩
    · rw [harena]
      exact hissued
    · exact hissued.trans (reissued_release hrel)

theorem CacheSim.reissued_request {c : CacheSim} {e : Effect CacheSim}
    (h : c.handleUpstreamRequest host p srcId a = .ok (ok, e)) : Reissued host.now a e.arena := by
  rcases CacheSim.handleUpstreamRequest_eq_ok h with
    ⟨-, -, hrel, -⟩ | ⟨-, -, addr, -, ⟨-, r, hresp, hrel, -⟩ | ⟨-, rfl⟩⟩
  · exact reissued_release hrel
  · exact (reissued_makeResponse hresp).trans (reissued_release hrel)
  · exact .refl a

theorem CacheSim.reissued_response {c : CacheSim} {e : Effect CacheSim}
    (h : c.handleDownstreamResponse host p srcId a = .ok (ok, e)) : Reissued host.now a e.arena := by
  obtain ⟨orig, r, -, hresp, hrel, -⟩ := CacheSim.handleDownstreamResponse_eq_ok h
  exact (reissued_makeResponse hresp).trans (reissued_release hrel)

theorem Crossbar.reissued_tick {x : Crossbar} {e : Effect Crossbar} (h : x.tick host a = .ok e) :
    Reissued host.now a e.arena := by
  rcases Crossbar.tick_eq_ok h with
    ⟨-, rfl⟩ | ⟨pkt, src, rest, -, ⟨-, hrel, -⟩ | ⟨-, addr, dst, -, -, rfl⟩⟩
  · exact .refl a
  · exact reissued_release hrel
  · exact .refl a

theorem Arbiter.reissued_tick {x : Arbiter} {e : Effect Arbiter} (h : x.tick host a = .ok e) :
    Reissued host.now a e.arena := by
  rcases Arbiter.tick_eq_ok h with ⟨-, rfl⟩ | ⟨pkt, src, rest, -, ⟨-, rfl⟩ | ⟨-, rfl⟩⟩
  · exact .refl a
  · exact .refl a
  · exact .refl a

theorem Router.reissued_request {r : Router} {e : Effect Router}
    (h : r.handleUpstreamRequest host p a = .ok (ok, e)) : Reissued host.now a e.arena := by
  obtain ⟨addr, haddr, -⟩ := bind_eq_ok.mp h
  obtain ⟨-, ⟨-, harena, -⟩ | ⟨-, -, hrel⟩⟩ := Router.handleUpstreamRequest_eq_ok haddr h
  · change Reissued host.now a (ok, e).2.arena
    rw [harena]
    exact .refl a
  · exact reissued_release hrel

theorem Router.reissued_response {r : Router} {e : Effect Router}
    (h : r.handleDownstreamResponse host p srcId a = .ok (ok, e)) :
    Reissued host.now a e.arena := by
  rcases Router.handleDownstreamResponse_eq_ok h with ⟨-, -, rfl⟩ | ⟨-, hrel, -⟩
  · exact .refl a
  · exact reissued_release hrel

namespace Module

def lift {σ : Type} (f : σ → Module) (r : Except MemoryFault (Bool × Effect σ)) :
    Except MemoryFault (Bool × Effect Module) :=
  r.map fun x => (x.1, x.2.map f)

def unhandled (m : Module) (a : Arena) : Except MemoryFault (Bool × Effect Module) :=
  .ok (false, ⟨m, a, [], []⟩)

def handleUpstreamRequest (host : Host) (pkt : PacketPtr) (srcId : ℕ) (a : Arena) :
    Module → Except MemoryFault (Bool × Effect Module)
  | cpuSim c => unhandled (cpuSim c) a
  | cacheSim c => lift cacheSim (c.handleUpstreamRequest host pkt srcId a)
  | memorySim m => lift memorySim (m.handleUpstreamRequest host pkt srcId a)
  | crossbar x => lift crossbar (x.handleUpstreamRequest pkt srcId a)
  | arbiter x => lift arbiter (x.handleUpstreamRequest pkt srcId a)
  | router r => lift router (r.handleUpstreamRequest host pkt a)
  | trafficGenerator g => unhandled (trafficGenerator g) a

def handleDownstreamResponse (host : Host) (pkt : PacketPtr) (srcId : ℕ) (a : Arena) :
    Module → Except MemoryFault (Bool × Effect Module)
  | cpuSim c => lift cpuSim (c.handleDownstreamResponse pkt a)
  | cacheSim c => lift cacheSim (c.handleDownstreamResponse host pkt srcId a)
  | memorySim m => unhandled (memorySim m) a
  | crossbar x => lift crossbar (x.handleDownstreamResponse pkt a)
  | arbiter x => lift arbiter (x.handleDownstreamResponse pkt a)
  | router r => lift router (r.handleDownstreamResponse host pkt srcId a)
  | trafficGenerator g => lift trafficGenerator (g.handleDownstreamResponse pkt a)

variable {m : Module} {e : Effect Module}

theorem reissued_lift {σ : Type} {f : σ → Module} {r : Except MemoryFault (Bool × Effect σ)}
    (h : lift f r = .ok (ok, e)) (hr : ∀ e', r = .ok (ok, e') → Reissued host.now a e'.arena) :
    Reissued host.now a e.arena := by
  cases r with
  | error err => cases h
  | ok x =>
    obtain ⟨rfl, rfl⟩ := Prod.mk.inj (Except.ok.inj h)
    exact hr x.2 rfl

theorem reissued_map {σ : Type} {f : σ → Module} {r : Except MemoryFault (Effect σ)}
    (h : r.map (·.map f) = .ok e) (hr : ∀ e', r = .ok e' → Reissued host.now a e'.arena) :
    Reissued host.now a e.arena := by
  cases r with
  | error err => cases h
  | ok e' =>
    obtain rfl := Except.ok.inj h
    exact hr e' rfl

theorem reissued_unhandled (h : unhandled m a = .ok (ok, e)) : Reissued host.now a e.arena := by
  obtain ⟨-, rfl⟩ := Prod.mk.inj (Except.ok.inj h)
  exact .refl a

theorem reissued_tick (h : m.tick host a = .ok e) : Reissued host.now a e.arena := by
  cases m with
  | cpuSim c => exact reissued_map h fun e' => CPUSim.reissued_tick
  | cacheSim c =>
    refine reissued_map h fun e' he => ?_
    rw [(CacheSim.tryForward_eq_ok he).1]
    exact .refl a
  | memorySim m =>
    obtain rfl := Except.ok.inj h
    exact .refl a
  | crossbar x => exact reissued_map h fun e' => Crossbar.reissued_tick
  | arbiter x => exact reissued_map h fun e' => Arbiter.reissued_tick
  | router r =>
    obtain rfl := Except.ok.inj h
    exact .refl a
  | trafficGenerator g => exact reissued_map h fun e' => TrafficGenerator.reissued_tick

theorem reissued_request (h : m.handleUpstreamRequest host p srcId a = .ok (ok, e)) :
    Reissued host.now a e.arena := by
  cases m with
  | cpuSim c => exact reissued_unhandled h
  | trafficGenerator g => exact reissued_unhandled h
  | cacheSim c => exact reissued_lift h fun e' => CacheSim.reissued_request
  | memorySim m =>
    refine reissued_lift h fun e' he => ?_
    obtain ⟨r, hresp, -, rfl⟩ := MemorySim.handleUpstreamRequest_eq_ok he
    exact reissued_makeResponse hresp
  | router r => exact reissued_lift h fun e' => Router.reissued_request
  | crossbar x =>
    obtain ⟨-, rfl⟩ := Prod.mk.inj (Except.ok.inj h)
    exact .refl a
  | arbiter x =>
    obtain ⟨-, rfl⟩ := Prod.mk.inj (Except.ok.inj h)
    exact .refl a

theorem reissued_response (h : m.handleDownstreamResponse host p srcId a = .ok (ok, e)) :
    Reissued host.now a e.arena := by
  cases m with
  | memorySim m => exact reissued_unhandled h
  | cpuSim c =>
    refine reissued_lift h fun e' he => ?_
    exact reissued_release (CPUSim.handleDownstreamResponse_eq_ok he).1
  | cacheSim c => exact reissued_lift h fun e' => CacheSim.reissued_response
  | router r => exact reissued_lift h fun e' => Router.reissued_response
  | crossbar x =>
    refine reissued_lift h fun e' he => ?_
    obtain ⟨b, hrel, hend⟩ := bind_pure_eq_ok.mp he
    obtain ⟨-, rfl⟩ := Prod.mk.inj hend
    exact reissued_release hrel
  | arbiter x =>
    refine reissued_lift h fun e' he => ?_
    obtain ⟨b, hrel, hend⟩ := bind_pure_eq_ok.mp he
    obtain ⟨-, rfl⟩ := Prod.mk.inj hend
    exact reissued_release hrel
  | trafficGenerator g =>
    refine reissued_lift h fun e' he => ?_
    obtain ⟨resp, -, hrest⟩ := bind_eq_ok.mp he
    obtain ⟨b, hrel, hend⟩ := bind_eq_ok.mp hrest
    split_ifs at hend
    · obtain ⟨-, rfl⟩ := Prod.mk.inj (Except.ok.inj hend)
      exact reissued_release hrel
    · obtain ⟨-, rfl⟩ := Prod.mk.inj (Except.ok.inj hend)
      exact reissued_release hrel

end Module
end GemSc
