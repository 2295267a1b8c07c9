import GemSc.Modules.Inversion
import GemSc.Modules.NocRouter
import GemSc.Pool.Usable

/-! Refused requests. `UpstreamPort::tick` keeps a packet that its owner refused and offers
it again, so a refusal must leave the packet as it is. -/

namespace GemSc
open Function ExceptFold

theorem Arena.discard_eq_ok {a a' : Arena} {p : PacketPtr} (h : a.discard p = .ok a') :
    Gone a p a' := by
  obtain ⟨heap, hdel, rfl⟩ := bind_pure_eq_ok.mp h
  unfold Heap.deletePacket at hdel
  split_ifs at hdel with hp
  obtain rfl := Except.ok.inj hdel
  exact ⟨hp, .inr ⟨rfl, rfl⟩, rfl⟩

namespace NocRouter
variable {σ : Type} {parts : NocParts σ} {r : NocRouter σ} {a : Arena} {p : PacketPtr}
  {q : PayloadPtr} {flit : FlitTypeExtension} {res : Bool × Effect (NocRouter σ)}

/-- There is a direction for the flit and, for a head, a VC; or its route was found before. -/
def Takes (parts : NocParts σ) (p : PacketPtr) (flit : FlitTypeExtension) (r : NocRouter σ)
    (a : Arena) : Prop :=
  match flit.type with
  | .head => inDirections parts (parts.route a.heap p) ∧
      0 ≤ (parts.allocateVC (parts.route a.heap p) flit.vcId r.tables).1
  | .body => parts.findRouteForPacket flit.packetId r.tables ≠ none
  | .tail => parts.findRouteForPacket flit.packetId r.tables ≠ none
  | .headTail => inDirections parts (parts.route a.heap p)

def Accepts (parts : NocParts σ) (p : PacketPtr) (r : NocRouter σ) (a : Arena) : Prop :=
  ∃ q flit, (a.heap.packet p).payload = some q ∧ r.flits q = some flit ∧ r.Takes parts p flit a

def Outcome (a : Arena) (p : PacketPtr) (accepts : Prop)
    (res : Bool × Effect (NocRouter σ)) : Prop :=
  (res.1 = true ∧ accepts ∧ (res.2.arena = a ∨ a.Gone p res.2.arena)) ∨
    (res.1 = false ∧ ¬ accepts ∧ a.Gone p res.2.arena)

theorem discard_eq_ok {b : Bool} (h : r.discard b p a = .ok res) :
    res.1 = b ∧ a.Gone p res.2.arena := by
  obtain ⟨a', hdel, rfl⟩ := bind_pure_eq_ok.mp h
  exact ⟨rfl, Arena.discard_eq_ok hdel⟩

theorem handleHead_eq_ok (h : r.handleHead parts p q flit a = .ok res) :
    Outcome a p (inDirections parts (parts.route a.heap p) ∧
      0 ≤ (parts.allocateVC (parts.route a.heap p) flit.vcId r.tables).1) res := by
  simp only [handleHead] at h
  split_ifs at h with hdir hvc
  · obtain rfl := Except.ok.inj h
    exact .inl ⟨rfl, ⟨hdir, hvc⟩, .inl rfl⟩
  · obtain ⟨hok, hgone⟩ := discard_eq_ok h
    exact .inr ⟨hok, fun hacc => hvc hacc.2, hgone⟩
  · obtain ⟨hok, hgone⟩ := discard_eq_ok h
    exact .inr ⟨hok, fun hacc => hdir hacc.1, hgone⟩

theorem handleBody_eq_ok (h : r.handleBody parts p flit a = .ok res) :
    Outcome a p (parts.findRouteForPacket flit.packetId r.tables ≠ none) res := by
  unfold handleBody at h
  split at h
  · next hnone =>
    obtain ⟨hok, hgone⟩ := discard_eq_ok h
    exact .inr ⟨hok, fun hacc => hacc hnone, hgone⟩
  · next dir vc hsome =>
    obtain rfl := Except.ok.inj h
    exact .inl ⟨rfl, by simp [hsome], .inl rfl⟩

theorem handleHeadTail_eq_ok (h : r.handleHeadTail parts p q flit a = .ok res) :
    Outcome a p (inDirections parts (parts.route a.heap p)) res := by
  simp only [handleHeadTail] at h
  split_ifs at h with hdir hsend hvc
  · obtain rfl := Except.ok.inj h
    exact .inl ⟨rfl, hdir, .inl rfl⟩
  · obtain rfl := Except.ok.inj h
    exact .inl ⟨rfl, hdir, .inl rfl⟩
  · obtain ⟨hok, hgone⟩ := discard_eq_ok h
    exact .inl ⟨hok, hdir, .inr hgone⟩
  · obtain ⟨hok, hgone⟩ := discard_eq_ok h
    exact .inr ⟨hok, hdir, hgone⟩

theorem Outcome.congr {P Q : Prop} (h : Outcome a p P res) (hPQ : P ↔ Q) : Outcome a p Q res :=
  propext hPQ ▸ h

theorem handleFlit_eq_ok (hq : (a.heap.packet p).payload = some q)
    (h : r.handleFlit parts p q a = .ok res) : Outcome a p (r.Accepts parts p a) res := by
  unfold handleFlit at h
  split at h
  · next hnone =>
    obtain ⟨hok, hgone⟩ := discard_eq_ok h
    refine .inr ⟨hok, ?_, hgone⟩
    rintro ⟨q', flit, hq', hflit, -⟩
    obtain rfl := Option.some.inj (hq.symm.trans hq')
    exact absurd (hnone.symm.trans hflit) (by simp)
  · next flit hflit =>
    have haccepts : r.Takes parts p flit a ↔ r.Accepts parts p a := by
      constructor
      · intro htakes
        exact ⟨q, flit, hq, hflit, htakes⟩
      · rintro ⟨q', flit', hq', hflit', htakes⟩
        obtain rfl := Option.some.inj (hq.symm.trans hq')
        obtain rfl := Option.some.inj (hflit.symm.trans hflit')
        exact htakes
    refine Outcome.congr ?_ haccepts
    unfold Takes
    cases htype : flit.type with
    | head =>
      rw [htype] at h
      exact handleHead_eq_ok h
    | body =>
      rw [htype] at h
      exact handleBody_eq_ok h
    | tail =>
      rw [htype] at h
      exact handleBody_eq_ok h
    | headTail =>
      rw [htype] at h
      exact handleHeadTail_eq_ok h

theorem handleUpstreamRequest_eq_ok (h : r.handleUpstreamRequest parts p a = .ok res) :
    Outcome a p (r.Accepts parts p a) res := by
  obtain ⟨pkt, hget, hrest⟩ := bind_eq_ok.mp h
  obtain ⟨q, hq, hrest'⟩ := bind_eq_ok.mp hrest
  obtain ⟨payload, -, hflit⟩ := bind_eq_ok.mp hrest'
  obtain ⟨-, rfl⟩ := Heap.get_eq_ok hget
  exact handleFlit_eq_ok (Heap.deref_eq_ok hq) hflit

end NocRouter

inductive Owner (σ : Type)
  | cache (c : CacheSim)
  | noc (r : NocRouter σ)
  | wrapper (w : ScWrapper)

namespace Owner
variable {σ : Type} {parts : NocParts σ} {host : Host} {p : PacketPtr} {srcId : ℕ} {o : Owner σ}
  {a : Arena} {res : Bool × Effect (Owner σ)}

def handleUpstreamRequest (parts : NocParts σ) (host : Host) (pkt : PacketPtr) (srcId : ℕ)
    (o : Owner σ) (a : Arena) : Except MemoryFault (Bool × Effect (Owner σ)) :=
  match o with
  | .cache c => do
    let r ← c.handleUpstreamRequest host pkt srcId a
    return (r.1, r.2.map .cache)
  | .noc router => do
    let r ← router.handleUpstreamRequest parts pkt a
    return (r.1, r.2.map .noc)
  | .wrapper w => do
    let r ← w.handleUpstreamRequest pkt a
    return (r.1, r.2.map .wrapper)

def Accepts (parts : NocParts σ) (p : PacketPtr) (o : Owner σ) (a : Arena) : Prop :=
  match o with
  | .cache c => c.reqBuffer.length < CacheSim.maxBuffer
  | .noc r => r.Accepts parts p a
  | .wrapper w => ∃ object ∈ w.scObject, object.readyOut = true

def flits (o : Owner σ) : PayloadPtr → Option FlitTypeExtension :=
  match o with
  | .cache _ => fun _ => none
  | .noc r => r.flits
  | .wrapper _ => fun _ => none

theorem handleUpstreamRequest_eq_ok (h : o.handleUpstreamRequest parts host p srcId a = .ok res) :
    (res.1 = true ∧ o.Accepts parts p a ∧
        ∀ x, x ≠ p → a.Usable x → res.2.arena.Usable x) ∨
      (res.1 = false ∧ ¬ o.Accepts parts p a ∧ a.Gone p res.2.arena) := by
  cases o with
  | cache c =>
    obtain ⟨⟨ok, e⟩, hc, rfl⟩ := bind_pure_eq_ok.mp h
    rcases CacheSim.handleUpstreamRequest_eq_ok hc with
      ⟨hfull, hok, hrel, -⟩ | ⟨hroom, hok, addr, -, ⟨-, r, hresp, hrel, -⟩ | ⟨-, he⟩⟩
    · exact .inr ⟨hok, hfull.not_gt, Arena.release_eq_ok hrel⟩
    · refine .inl ⟨hok, hroom, fun x hx hux => (Arena.release_eq_ok hrel).usable hx ?_⟩
      obtain ⟨-, b, hacq, heq⟩ := Arena.makeResponse_eq_ok hresp
      rw [heq]
      exact hacq.usable hux
    · refine .inl ⟨hok, hroom, fun x _ hux => ?_⟩
      show e.arena.Usable x
      rw [he]
      exact hux
  | noc r =>
    obtain ⟨⟨ok, e⟩, hr, rfl⟩ := bind_pure_eq_ok.mp h
    rcases NocRouter.handleUpstreamRequest_eq_ok hr with
      ⟨hok, hacc, hsame | hgone⟩ | ⟨hok, hacc, hgone⟩
    · refine .inl ⟨hok, hacc, fun x _ hux => ?_⟩
      show e.arena.Usable x
      exact hsame.symm ▸ hux
    · exact .inl ⟨hok, hacc, fun x hx hux => hgone.usable hx hux⟩
    · exact .inr ⟨hok, hacc, hgone⟩
  | wrapper w =>
    obtain ⟨⟨ok, e⟩, hw, rfl⟩ := bind_pure_eq_ok.mp h
    unfold ScWrapper.handleUpstreamRequest at hw
    split at hw
    · next hnone =>
      obtain ⟨a', hdel, hw⟩ := bind_eq_ok.mp hw
      obtain ⟨rfl, rfl⟩ := Prod.mk.inj (Except.ok.inj hw)
      exact .inr ⟨rfl, by simp [Accepts, hnone], Arena.discard_eq_ok hdel⟩
    · next object hobj =>
      split_ifs at hw with hready
      · obtain ⟨rfl, rfl⟩ := Prod.mk.inj (Except.ok.inj hw)
        exact .inl ⟨rfl, ⟨object, hobj, hready⟩, fun x _ hx => hx⟩
      · obtain ⟨a', hdel, hw⟩ := bind_eq_ok.mp hw
        obtain ⟨rfl, rfl⟩ := Prod.mk.inj (Except.ok.inj hw)
        refine .inr ⟨rfl, ?_, Arena.discard_eq_ok hdel⟩
        rintro ⟨object', hobj', hready'⟩
        obtain rfl := Option.some.inj (hobj.symm.trans hobj')
        exact hready hready'

end Owner
end GemSc
