import GemSc.Pool.Ownership

/-! Round trips over the pool: requests under way and the responses to them, with the cycles at
which the requests were issued. What is under way is never acquired again. -/

namespace GemSc
open Function

/-- `requests` are under way to their last stop, `responses` were made and not yet received.
`issuedAt` is the cycle at which a request was issued, `answers` the one of the request that a
response answers. -/
structure Trips where
  arena : Arena
  requests : Set PacketPtr
  responses : List PacketPtr
  issuedAt : PacketPtr → UInt64
  answers : PacketPtr → UInt64

namespace Trips

def Requested (t : Trips) (p : PacketPtr) : Prop :=
  p ∈ t.requests ∨ ∃ r ∈ t.responses, (t.arena.heap.packet r).originalReq = some p

def Untracked (t : Trips) (x : PacketPtr) : Prop := ¬ t.Requested x ∧ x ∉ t.responses

/-- Requests keep the cycle of their issue, and responses know the requests that they answer. -/
structure Tracked (t : Trips) : Prop where
  uncounted : t.arena.Uncounted
  owned : t.arena.PacketsOwned
  requests : ∀ p, t.Requested p →
    p ∈ t.arena.live ∧ (t.arena.heap.packet p).srcCycle = t.issuedAt p
  responses : ∀ r ∈ t.responses, r ∈ t.arena.live ∧ (t.arena.heap.packet r).type = .resp ∧
    ∃ p, (t.arena.heap.packet r).originalReq = some p ∧ t.answers r = t.issuedAt p
  distinct : t.responses.Nodup
  apart : ∀ p, t.Requested p → p ∉ t.responses

variable {t : Trips} {b : Arena} {p r x : PacketPtr}

theorem tracked_empty (issuedAt answers : PacketPtr → UInt64) :
    Tracked ⟨.empty, ∅, [], issuedAt, answers⟩ where
  uncounted := fun _ => rfl
  owned := Arena.packetsOwned_empty
  requests := by simp [Requested]
  responses := by simp
  distinct := List.nodup_nil
  apart := by simp

theorem Tracked.live (h : t.Tracked) (hx : ¬ t.Untracked x) : x ∈ t.arena.live := by
  by_contra hlive
  exact hx ⟨fun hreq => hlive (h.requests x hreq).1, fun hresp => hlive (h.responses x hresp).1⟩

theorem Tracked.untracked (h : t.Tracked) (hx : x ∉ t.arena.live) : t.Untracked x := by
  by_contra hno
  exact hx (h.live hno)

def Same (p q : Packet) : Prop :=
  p.srcCycle = q.srcCycle ∧ p.originalReq = q.originalReq ∧ p.type = q.type

/-- The arena changes but for what is under way. -/
structure Spares (t : Trips) (b : Arena) : Prop where
  live : ∀ y, ¬ t.Untracked y → y ∈ b.live
  same : ∀ y, ¬ t.Untracked y → Same (b.heap.packet y) (t.arena.heap.packet y)

theorem Spares.requested_iff (h : t.Spares b) :
    Requested { t with arena := b } p ↔ t.Requested p := by
  have horig : ∀ r ∈ t.responses,
      (b.heap.packet r).originalReq = (t.arena.heap.packet r).originalReq :=
    fun r hr => (h.same r fun hno => hno.2 hr).2.1
  refine or_congr Iff.rfl (exists_congr fun r => and_congr_right fun hr => ?_)
  show (b.heap.packet r).originalReq = some p ↔ _
  rw [horig r hr]

theorem Spares.untracked_iff (h : t.Spares b) :
    Untracked { t with arena := b } x ↔ t.Untracked x :=
  and_congr (not_congr h.requested_iff) Iff.rfl

theorem Tracked.spare (h : t.Tracked) (hs : t.Spares b) (hu : b.Uncounted) (ho : b.PacketsOwned) :
    Tracked { t with arena := b } := by
  refine ⟨hu, ho, ?_, ?_, h.distinct, fun p hp => h.apart p (hs.requested_iff.mp hp)⟩
  · intro p hp
    have hreq := hs.requested_iff.mp hp
    have htracked : ¬ t.Untracked p := fun hno => hno.1 hreq
    exact ⟨hs.live p htracked, (hs.same p htracked).1.trans (h.requests p hreq).2⟩
  · intro r hr
    have htracked : ¬ t.Untracked r := fun hno => hno.2 hr
    obtain ⟨-, htype, p, horig, hissue⟩ := h.responses r hr
    obtain ⟨-, hsame, hsameType⟩ := hs.same r htracked
    exact ⟨hs.live r htracked, hsameType.trans htype, p, hsame.trans horig, hissue⟩

theorem Tracked.newPayload (h : t.Tracked) (value : Payload) :
    Tracked { t with arena := (t.arena.newPayload value).2 } :=
  h.spare ⟨fun _ hy => h.live hy, fun _ _ => ⟨rfl, rfl, rfl⟩⟩ h.uncounted (h.owned.newPayload value)

theorem Tracked.acquire (h : t.Tracked) (hacq : t.arena.Acquired x b) :
    Tracked { t with arena := b } ∧ t.Spares b ∧ t.Untracked x := by
  have hx := h.untracked (h.owned.acquired_not_live hacq)
  have hs : t.Spares b := by
    refine ⟨fun y hy => hacq.live ▸ Finset.mem_insert_of_mem (h.live hy), fun y hy => ?_⟩
    have hne : y ≠ x := by
      rintro rfl
      exact hy hx
    rw [hacq.packet, update_of_ne hne]
    exact ⟨rfl, rfl, rfl⟩
  exact ⟨h.spare hs (h.uncounted.acquire hacq) (h.owned.acquire hacq), hs, hx⟩

theorem Tracked.modify (h : t.Tracked) (x : PacketPtr) {f : Packet → Packet}
    (hcount : (f (t.arena.heap.packet x)).refCount = (t.arena.heap.packet x).refCount)
    (hf : t.Untracked x ∨ Same (f (t.arena.heap.packet x)) (t.arena.heap.packet x)) :
    Tracked { t with arena := t.arena.modify x f } ∧ t.Spares (t.arena.modify x f) := by
  have hs : t.Spares (t.arena.modify x f) := by
    refine ⟨fun y hy => h.live hy, fun y hy => ?_⟩
    by_cases hyx : y = x
    · subst hyx
      rw [Arena.modify, Heap.packet_modify_self]
      exact hf.resolve_left hy
    · rw [Arena.modify, Heap.packet_modify_of_ne _ _ hyx]
      exact ⟨rfl, rfl, rfl⟩
  exact ⟨h.spare hs (h.uncounted.modify hcount) (h.owned.modify x f), hs⟩

theorem Tracked.release (h : t.Tracked) (hrel : t.arena.release p = .ok b) (hlive : p ∈ t.arena.live)
    (hp : t.Untracked p) : Tracked { t with arena := b } := by
  have hreleased := Arena.released h.uncounted hrel
  have hs : t.Spares b := by
    have hne : ∀ y, ¬ t.Untracked y → y ≠ p := by
      rintro y hy rfl
      exact hy hp
    refine ⟨fun y hy => ?_, fun y hy => ?_⟩
    · rw [hreleased.live]
      exact Finset.mem_erase.mpr ⟨hne y hy, h.live hy⟩
    · rw [hreleased.packet, update_of_ne (hne y hy)]
      exact ⟨rfl, rfl, rfl⟩
  exact h.spare hs (h.uncounted.release hreleased) (h.owned.release hreleased hlive)

theorem Tracked.issue (h : t.Tracked) (hx : t.Untracked x) (hlive : x ∈ t.arena.live) :
    Tracked { t with
      requests := insert x t.requests
      issuedAt := update t.issuedAt x (t.arena.heap.packet x).srcCycle } := by
  have hreq : ∀ p, Requested { t with
      requests := insert x t.requests
      issuedAt := update t.issuedAt x (t.arena.heap.packet x).srcCycle } p → p = x ∨ t.Requested p := by
    rintro p ((rfl | hp) | hp)
    · exact .inl rfl
    · exact .inr (.inl hp)
    · exact .inr (.inr hp)
  -- the new request is not one of those under way, so none of them changes its cycle
  have hne : ∀ p, t.Requested p → p ≠ x := by
    rintro p hp rfl
    exact hx.1 hp
  refine ⟨h.uncounted, h.owned, ?_, ?_, h.distinct, ?_⟩
  · intro p hp
    rcases hreq p hp with rfl | hold
    · have hself : update t.issuedAt p (t.arena.heap.packet p).srcCycle p =
          (t.arena.heap.packet p).srcCycle := update_self ..
      exact ⟨hlive, hself.symm⟩
    · refine ⟨(h.requests p hold).1, (h.requests p hold).2.trans ?_⟩
      exact (update_of_ne (hne p hold) ..).symm
  · intro r hr
    obtain ⟨hr', htype, p, horig, hissue⟩ := h.responses r hr
    refine ⟨hr', htype, p, horig, hissue.trans ?_⟩
    exact (update_of_ne (hne p (.inr ⟨r, hr, horig⟩)) ..).symm
  · intro p hp
    rcases hreq p hp with rfl | hold
    · exact hx.2
    · exact h.apart p hold

theorem Tracked.move (h : t.Tracked) {requests : Set PacketPtr}
    (hsub : ∀ p ∈ requests, t.Requested p) : Tracked { t with requests := requests } := by
  have hreq : ∀ p, Requested { t with requests := requests } p → t.Requested p := by
    rintro p (hp | hp)
    · exact hsub p hp
    · exact .inr hp
  exact ⟨h.uncounted, h.owned, fun p hp => h.requests p (hreq p hp), h.responses, h.distinct,
    fun p hp => h.apart p (hreq p hp)⟩

theorem Tracked.answer (h : t.Tracked) (hx : t.Untracked x) (hlive : x ∈ t.arena.live)
    (htype : (t.arena.heap.packet x).type = .resp)
    (horig : (t.arena.heap.packet x).originalReq = some p) (hp : t.Requested p) :
    Tracked { t with responses := x :: t.responses, answers := update t.answers x (t.issuedAt p) } := by
  have hreq : ∀ q, Requested { t with
      responses := x :: t.responses, answers := update t.answers x (t.issuedAt p) } q → t.Requested q := by
    rintro q (hq | ⟨r, hr, hrq⟩)
    · exact .inl hq
    · rcases List.mem_cons.mp hr with rfl | hr
      · rwa [← Option.some.inj (horig.symm.trans hrq)]
      · exact .inr ⟨r, hr, hrq⟩
  refine ⟨h.uncounted, h.owned, fun q hq => h.requests q (hreq q hq), ?_,
    List.nodup_cons.mpr ⟨hx.2, h.distinct⟩, ?_⟩
  · intro r hr
    rcases List.mem_cons.mp hr with rfl | hold
    · exact ⟨hlive, htype, p, horig, update_self ..⟩
    · obtain ⟨hr', htype', q, hq, hissue⟩ := h.responses r hold
      refine ⟨hr', htype', q, hq, (update_of_ne ?_ ..).trans hissue⟩
      rintro rfl
      exact hx.2 hold
  · intro q hq hmem
    have hold := hreq q hq
    rcases List.mem_cons.mp hmem with rfl | hmem
    · exact hx.1 hold
    · exact h.apart q hold hmem

theorem Tracked.receive (h : t.Tracked) {rs : List PacketPtr} (hperm : t.responses.Perm (r :: rs)) :
    Tracked { t with responses := rs } ∧ Untracked { t with responses := rs } r := by
  have hsub : ∀ q ∈ rs, q ∈ t.responses :=
    fun q hq => hperm.mem_iff.mpr (List.mem_cons_of_mem _ hq)
  have hreq : ∀ q, Requested { t with responses := rs } q → t.Requested q := by
    rintro q (hq | ⟨r', hr', horig⟩)
    · exact .inl hq
    · exact .inr ⟨r', hsub r' hr', horig⟩
  have hnodup := List.nodup_cons.mp (hperm.nodup_iff.mp h.distinct)
  have hr : r ∈ t.responses := hperm.mem_iff.mpr (List.mem_cons_self ..)
  refine ⟨⟨h.uncounted, h.owned, fun q hq => h.requests q (hreq q hq),
    fun q hq => h.responses q (hsub q hq), hnodup.2,
    fun q hq hmem => h.apart q (hreq q hq) (hsub q hmem)⟩, ?_, hnodup.1⟩
  exact fun hq => h.apart r (hreq r hq) hr

theorem Tracked.perm (h : t.Tracked) {rs : List PacketPtr} (hperm : t.responses.Perm rs) :
    Tracked { t with responses := rs } := by
  have hreq : ∀ q, Requested { t with responses := rs } q → t.Requested q := by
    rintro q (hq | ⟨r, hr, horig⟩)
    · exact .inl hq
    · exact .inr ⟨r, hperm.mem_iff.mpr hr, horig⟩
  exact ⟨h.uncounted, h.owned, fun q hq => h.requests q (hreq q hq),
    fun q hq => h.responses q (hperm.mem_iff.mpr hq), hperm.nodup_iff.mp h.distinct,
    fun q hq hmem => h.apart q (hreq q hq) (hperm.mem_iff.mpr hmem)⟩

end Trips
end GemSc
