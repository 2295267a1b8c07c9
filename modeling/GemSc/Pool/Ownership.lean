import GemSc.Pool.Calls

/-! Who owns what: of the packets, those that were acquired and not released, the free
ones and the deleted ones; of the payloads, those that some live packet carries. -/

namespace GemSc.Arena
open Function

variable {a a' : Arena} {p x : PacketPtr}

/-- A live packet's payload is neither free nor deleted, and no payload is free twice. -/
structure PayloadsSafe (a : Arena) : Prop where
  kept : ∀ p ∈ a.live, ∀ q, (a.heap.packet p).payload = some q →
    q ∉ a.pool.payloadFreelist ∧ q ∉ a.heap.deletedPayloads
  nodup : a.pool.payloadFreelist.Nodup

def SharesPayload (a : Arena) (p : PacketPtr) : Prop :=
  ∃ x ∈ a.live, x ≠ p ∧ (a.heap.packet x).payload = (a.heap.packet p).payload ∧
    (a.heap.packet p).payload ≠ none

structure PayloadsOwned (a : Arena) : Prop extends PayloadsSafe a where
  idle : ∀ p, p ∉ a.live → (a.heap.packet p).payload = none
  bound : ∀ p q, (a.heap.packet p).payload = some q → q < a.heap.nextPayload
  freed : ∀ q ∈ a.pool.payloadFreelist, q < a.heap.nextPayload ∧ q ∉ a.heap.deletedPayloads
  deleted : ∀ q ∈ a.heap.deletedPayloads, q < a.heap.nextPayload
  uncounted : a.Uncounted

theorem PayloadsOwned.carried (h : PayloadsOwned a) {q : PayloadPtr}
    (hq : (a.heap.packet p).payload = some q) :
    q < a.heap.nextPayload ∧ q ∉ a.pool.payloadFreelist ∧ q ∉ a.heap.deletedPayloads := by
  have hlive : p ∈ a.live := by
    by_contra hp
    rw [h.idle p hp] at hq
    cases hq
  exact ⟨h.bound p q hq, h.kept p hlive q hq⟩

theorem PayloadsOwned.taken (h : PayloadsOwned a) (hacq : Acquired a x a') :
    ∃ q, q < a'.heap.nextPayload ∧ (∀ p, (a.heap.packet p).payload ≠ some q) ∧
      (∀ r ∈ a'.pool.payloadFreelist, r ∈ a.pool.payloadFreelist ∧ r ≠ q) ∧
      (∀ r ∈ a'.heap.deletedPayloads, r ∈ a.heap.deletedPayloads ∨ r = q) ∧
      a'.pool.payloadFreelist.Nodup := by
  obtain ⟨q, hdel, hlist⟩ := hacq.payloads
  have hmem : ∀ r ∈ a'.heap.deletedPayloads, r ∈ a.heap.deletedPayloads ∨ r = q := by
    intro r hr
    rcases hdel with hd | hd <;> rw [hd] at hr
    · exact .inl hr
    · exact (Finset.mem_insert.mp hr).symm
  rcases hlist with ⟨hcons, -, hn⟩ | ⟨-, hnil, rfl, hn⟩
  · have hfree : q ∈ a.pool.payloadFreelist := by simp [hcons]
    have hnodup := h.nodup
    rw [hcons, List.nodup_cons] at hnodup
    refine ⟨q, hn ▸ (h.freed q hfree).1, ?_, ?_, hmem, hnodup.2⟩
    · intro p hp
      exact (h.carried hp).2.1 hfree
    · intro r hr
      refine ⟨by simp [hcons, hr], ?_⟩
      rintro rfl
      exact hnodup.1 hr
  · refine ⟨a.heap.nextPayload, hn ▸ Nat.lt_succ_self _, ?_, ?_, hmem, ?_⟩
    · intro p hp
      exact lt_irrefl _ (h.bound p _ hp)
    · intro r hr
      rw [hnil] at hr
      cases hr
    · rw [hnil]
      exact List.nodup_nil

theorem PayloadsOwned.acquire (h : PayloadsOwned a) (hacq : Acquired a x a') :
    PayloadsOwned a' := by
  obtain ⟨q, hq, hfresh, hsub, hmem, hnodup⟩ := h.taken hacq
  have hnext := hacq.nextPayload_le
  refine ⟨⟨?_, hnodup⟩, ?_, ?_, ?_, ?_, h.uncounted.acquire hacq⟩
  · intro p hp r hr
    rw [hacq.payload] at hr
    split_ifs at hr with hpx
    obtain ⟨-, hfree, hdel⟩ := h.carried hr
    refine ⟨fun hr' => hfree (hsub r hr').1, ?_⟩
    intro hr'
    rcases hmem r hr' with hr' | rfl
    · exact hdel hr'
    · exact hfresh p hr
  · intro p hp
    rw [hacq.live, Finset.mem_insert, not_or] at hp
    rw [hacq.payload, if_neg hp.1]
    exact h.idle p hp.2
  · intro p r hr
    rw [hacq.payload] at hr
    split_ifs at hr
    exact (h.bound p r hr).trans_le hnext
  · intro r hr
    obtain ⟨hold, hne⟩ := hsub r hr
    refine ⟨(h.freed r hold).1.trans_le hnext, ?_⟩
    intro hr'
    rcases hmem r hr' with hr' | rfl
    · exact (h.freed r hold).2 hr'
    · exact hne rfl
  · intro r hr
    rcases hmem r hr with hr | rfl
    · exact (h.deleted r hr).trans_le hnext
    · exact hq

theorem PayloadsOwned.release_kept (h : PayloadsOwned a) (hrel : Released a p a')
    (hp : p ∈ a.live → ¬ SharesPayload a p) {y : PacketPtr} {q : PayloadPtr} (hy : y ∈ a'.live)
    (hq : (a'.heap.packet y).payload = some q) :
    (a.heap.packet y).payload = some q ∧ (a.heap.packet p).payload ≠ some q := by
  rw [hrel.live] at hy
  obtain ⟨hyp, hlive⟩ := Finset.mem_erase.mp hy
  rw [hrel.payload, if_neg hyp] at hq
  refine ⟨hq, fun hpq => ?_⟩
  by_cases hpl : p ∈ a.live
  · exact hp hpl ⟨y, hlive, hyp, hq.trans hpq.symm, by simp [hpq]⟩
  · rw [h.idle p hpl] at hpq
    cases hpq

theorem PayloadsOwned.release_nodup (h : PayloadsOwned a) (hrel : Released a p a') :
    a'.pool.payloadFreelist.Nodup := by
  rcases hrel.payloads with ⟨-, hfree, -⟩ | ⟨q, hq, ⟨hfree, -⟩ | ⟨hfree, -⟩⟩ <;> rw [hfree]
  · exact h.nodup
  · have hnew : q ∉ a.pool.payloadFreelist := (h.carried hq).2.1
    rw [← List.concat_eq_append]
    exact (List.nodup_concat ..).mpr ⟨hnew, h.nodup⟩
  · exact h.nodup

theorem PayloadsOwned.release_freed (h : PayloadsOwned a) (hrel : Released a p a')
    {r : PayloadPtr} (hr : r ∈ a'.pool.payloadFreelist) :
    r < a.heap.nextPayload ∧ r ∉ a'.heap.deletedPayloads := by
  rcases hrel.mem_payloadFreelist hr with hr | ⟨hr, hsame⟩
  · refine ⟨(h.freed r hr).1, fun hr' => ?_⟩
    rcases hrel.mem_deletedPayloads hr' with hr' | ⟨hr', -⟩
    · exact (h.freed r hr).2 hr'
    · exact (h.carried hr').2.1 hr
  · rw [hsame]
    exact ⟨(h.carried hr).1, (h.carried hr).2.2⟩

theorem PayloadsOwned.release (h : PayloadsOwned a) (hrel : Released a p a')
    (hp : p ∈ a.live → ¬ SharesPayload a p) : PayloadsOwned a' := by
  refine ⟨⟨?_, h.release_nodup hrel⟩, ?_, ?_, ?_, ?_, h.uncounted.release hrel⟩
  · intro x hx q hq
    obtain ⟨hq', hne⟩ := h.release_kept hrel hp hx hq
    obtain ⟨-, hfree, hdel⟩ := h.carried hq'
    constructor
    · intro hr
      rcases hrel.mem_payloadFreelist hr with hr | ⟨hr, -⟩
      · exact hfree hr
      · exact hne hr
    · intro hr
      rcases hrel.mem_deletedPayloads hr with hr | ⟨hr, -⟩
      · exact hdel hr
      · exact hne hr
  · intro x hx
    rw [hrel.payload]
    split_ifs with hxp
    · rfl
    · rw [hrel.live] at hx
      exact h.idle x fun hx' => hx (Finset.mem_erase.mpr ⟨hxp, hx'⟩)
  · intro x q hq
    rw [hrel.payload] at hq
    split_ifs at hq
    rw [hrel.nextPayload]
    exact h.bound x q hq
  · intro r hr
    rw [hrel.nextPayload]
    exact h.release_freed hrel hr
  · intro r hr
    rw [hrel.nextPayload]
    rcases hrel.mem_deletedPayloads hr with hr | ⟨hr, -⟩
    · exact h.deleted r hr
    · exact h.bound p r hr

theorem not_safe_of_shared (hrel : Released a p a') (hshare : SharesPayload a p) :
    ¬ PayloadsSafe a' := by
  obtain ⟨x, hx, hne, heq, hsome⟩ := hshare
  intro hsafe
  have hpx : (a'.heap.packet x).payload = (a.heap.packet p).payload := by
    rw [hrel.packet, update_of_ne hne, heq]
  rcases hrel.payloads with ⟨hnone, -⟩ | ⟨q, hq, ⟨hfree, -⟩ | ⟨-, hdel⟩⟩
  · exact hsome hnone
  · have := (hsafe.kept x (hrel.live ▸ Finset.mem_erase.mpr ⟨hne, hx⟩) q (hpx.trans hq)).1
    simp [hfree] at this
  · have := (hsafe.kept x (hrel.live ▸ Finset.mem_erase.mpr ⟨hne, hx⟩) q (hpx.trans hq)).2
    simp [hdel] at this

theorem Acquired.unused (hacq : Acquired a x a') {q : PayloadPtr} (hlt : q < a.heap.nextPayload)
    (hfree : q ∉ a.pool.payloadFreelist) (hdel : q ∉ a.heap.deletedPayloads) :
    q < a'.heap.nextPayload ∧ q ∉ a'.pool.payloadFreelist ∧ q ∉ a'.heap.deletedPayloads := by
  obtain ⟨r, hdeleted, hlist⟩ := hacq.payloads
  have hqr : q ≠ r := by
    rintro rfl
    rcases hlist with ⟨hcons, -, -⟩ | ⟨-, -, rfl, -⟩
    · exact hfree (by simp [hcons])
    · exact lt_irrefl _ hlt
  have hnot : q ∉ a'.heap.deletedPayloads := by
    rcases hdeleted with hd | hd
    · rwa [hd]
    · rw [hd, Finset.mem_insert, not_or]
      exact ⟨hqr, hdel⟩
  rcases hlist with ⟨hcons, -, hn⟩ | ⟨-, hnil, -, hn⟩
  · rw [hcons, List.mem_cons, not_or] at hfree
    exact ⟨hn ▸ hlt, hfree.2, hnot⟩
  · rw [hnil]
    exact ⟨hn ▸ Nat.lt_succ_of_lt hlt, List.not_mem_nil, hnot⟩

theorem PayloadsOwned.modify {f : Packet → Packet} (h : PayloadsOwned a)
    (hx : x ∉ a.live → (f (a.heap.packet x)).payload = none)
    (hf : (f (a.heap.packet x)).refCount = (a.heap.packet x).refCount)
    (hpay : ∀ q, (f (a.heap.packet x)).payload = some q → q < a.heap.nextPayload ∧
      q ∉ a.pool.payloadFreelist ∧ q ∉ a.heap.deletedPayloads) : PayloadsOwned (a.modify x f) := by
  have hself : ((a.modify x f).heap.packet x) = f (a.heap.packet x) := Heap.packet_modify_self ..
  have hother : ∀ p, p ≠ x → (a.modify x f).heap.packet p = a.heap.packet p :=
    fun p hp => Heap.packet_modify_of_ne _ _ hp
  refine ⟨⟨fun p hp q hq => ?_, h.nodup⟩, fun p hp => ?_, fun p q hq => ?_, h.freed, h.deleted,
    h.uncounted.modify hf⟩
  · by_cases hpx : p = x
    · subst hpx
      rw [hself] at hq
      exact (hpay q hq).2
    · rw [hother p hpx] at hq
      exact h.kept p hp q hq
  · by_cases hpx : p = x
    · subst hpx
      rw [hself]
      exact hx hp
    · rw [hother p hpx]
      exact h.idle p hp
  · by_cases hpx : p = x
    · subst hpx
      rw [hself] at hq
      exact (hpay q hq).1
    · rw [hother p hpx] at hq
      exact h.bound p q hq

theorem PayloadsOwned.newPayload (h : PayloadsOwned a) (value : Payload) :
    PayloadsOwned (a.newPayload value).2 := by
  have hlt : ∀ q, q < a.heap.nextPayload → q < a.heap.nextPayload + 1 := fun q => Nat.lt_succ_of_lt
  exact ⟨⟨h.kept, h.nodup⟩, h.idle, fun p q hq => hlt q (h.bound p q hq),
    fun q hq => ⟨hlt q (h.freed q hq).1, (h.freed q hq).2⟩, fun q hq => hlt q (h.deleted q hq),
    h.uncounted⟩

theorem PayloadsOwned.fresh (h : PayloadsOwned a) (value : Payload) :
    (a.newPayload value).1 < (a.newPayload value).2.heap.nextPayload ∧
      (a.newPayload value).1 ∉ (a.newPayload value).2.pool.payloadFreelist ∧
      (a.newPayload value).1 ∉ (a.newPayload value).2.heap.deletedPayloads :=
  ⟨Nat.lt_succ_self _, fun hq => lt_irrefl _ (h.freed _ hq).1, fun hq => lt_irrefl _ (h.deleted _ hq)⟩

/-- Each packet is in one place: live, free or deleted. -/
structure PacketsOwned (a : Arena) : Prop where
  held : ∀ p ∈ a.live, p < a.heap.nextPacket ∧ p ∉ a.pool.packetFreelist ∧ p ∉ a.heap.deletedPackets
  freed : ∀ p ∈ a.pool.packetFreelist, p < a.heap.nextPacket ∧ p ∉ a.heap.deletedPackets
  nodup : a.pool.packetFreelist.Nodup
  deleted : ∀ p ∈ a.heap.deletedPackets, p < a.heap.nextPacket
  placed : ∀ p < a.heap.nextPacket,
    p ∈ a.live ∨ p ∈ a.pool.packetFreelist ∨ p ∈ a.heap.deletedPackets

theorem PacketsOwned.acquired_not_live (h : PacketsOwned a) (hacq : Acquired a x a') :
    x ∉ a.live := by
  intro hx
  rcases hacq.packets with ⟨hcons, -⟩ | ⟨-, -, rfl, -⟩
  · exact (h.held x hx).2.1 (by simp [hcons])
  · exact lt_irrefl _ (h.held _ hx).1

theorem PacketsOwned.reuse (h : PacketsOwned a) (hacq : Acquired a x a')
    (hcons : a.pool.packetFreelist = x :: a'.pool.packetFreelist)
    (hn : a'.heap.nextPacket = a.heap.nextPacket) : PacketsOwned a' := by
  have hdel := hacq.deletedPackets
  have hnd := h.nodup
  rw [hcons, List.nodup_cons] at hnd
  refine ⟨fun p hp => ?_, fun p hp => ?_, hnd.2, ?_, fun p hp => ?_⟩
  · rw [hn, hdel]
    rcases Finset.mem_insert.mp (hacq.live ▸ hp) with rfl | hp
    · exact ⟨(h.freed p (by simp [hcons])).1, hnd.1, hacq.alive⟩
    · obtain ⟨hlt, hfree, hd⟩ := h.held p hp
      rw [hcons, List.mem_cons, not_or] at hfree
      exact ⟨hlt, hfree.2, hd⟩
  · rw [hn, hdel]
    exact h.freed p (by simp [hcons, hp])
  · rw [hn, hdel]
    exact h.deleted
  · rw [hn] at hp
    rw [hacq.live, hdel, Finset.mem_insert]
    rcases h.placed p hp with hl | hf | hd
    · exact .inl (.inr hl)
    · rw [hcons, List.mem_cons] at hf
      rcases hf with rfl | hf
      · exact .inl (.inl rfl)
      · exact .inr (.inl hf)
    · exact .inr (.inr hd)

theorem PacketsOwned.allocate (h : PacketsOwned a) (hacq : Acquired a a.heap.nextPacket a')
    (hnil : a.pool.packetFreelist = []) (hnil' : a'.pool.packetFreelist = [])
    (hn : a'.heap.nextPacket = a.heap.nextPacket + 1) : PacketsOwned a' := by
  have hdel := hacq.deletedPackets
  have hlt : ∀ p, p < a.heap.nextPacket → p < a'.heap.nextPacket :=
    fun p hp => hp.trans (hn ▸ Nat.lt_succ_self _)
  refine ⟨fun p hp => ?_, fun p hp => ?_, ?_, fun p hp => ?_, fun p hp => ?_⟩
  · rw [hnil', hdel]
    rcases Finset.mem_insert.mp (hacq.live ▸ hp) with rfl | hp
    · exact ⟨hn ▸ Nat.lt_succ_self _, List.not_mem_nil, hacq.alive⟩
    · exact ⟨hlt p (h.held p hp).1, List.not_mem_nil, (h.held p hp).2.2⟩
  · rw [hnil'] at hp
    cases hp
  · rw [hnil']
    exact List.nodup_nil
  · rw [hdel] at hp
    exact hlt p (h.deleted p hp)
  · rw [hacq.live, hnil', hdel, Finset.mem_insert]
    rw [hn] at hp
    rcases Nat.lt_succ_iff_lt_or_eq.mp hp with hp | rfl
    · rcases h.placed p hp with hl | hf | hd
      · exact .inl (.inr hl)
      · rw [hnil] at hf
        cases hf
      · exact .inr (.inr hd)
    · exact .inl (.inl rfl)

theorem PacketsOwned.acquire (h : PacketsOwned a) (hacq : Acquired a x a') :
    PacketsOwned a' := by
  rcases hacq.packets with ⟨hcons, hn⟩ | ⟨hnil, hnil', rfl, hn⟩
  · exact h.reuse hacq hcons hn
  · exact h.allocate hacq hnil hnil' hn

theorem PacketsOwned.recycle (h : PacketsOwned a) (hrel : Released a p a') (hp : p ∈ a.live)
    (hfree : a'.pool.packetFreelist = a.pool.packetFreelist ++ [p])
    (hdel : a'.heap.deletedPackets = a.heap.deletedPackets) : PacketsOwned a' := by
  obtain ⟨hlt, hnfree, hndel⟩ := h.held p hp
  refine ⟨fun x hx => ?_, fun x hx => ?_, ?_, ?_, fun x hx => ?_⟩
  · obtain ⟨hxp, hlive⟩ := Finset.mem_erase.mp (hrel.live ▸ hx)
    obtain ⟨hxlt, hxfree, hxdel⟩ := h.held x hlive
    rw [hrel.nextPacket, hfree, hdel, List.mem_append, List.mem_singleton, not_or]
    exact ⟨hxlt, ⟨hxfree, hxp⟩, hxdel⟩
  · rw [hrel.nextPacket, hdel]
    rw [hfree, List.mem_append, List.mem_singleton] at hx
    rcases hx with hx | rfl
    · exact h.freed x hx
    · exact ⟨hlt, hndel⟩
  · rw [hfree]
    exact List.nodup_append.mpr ⟨h.nodup, List.nodup_singleton p, by
      simpa using fun r hr (hrp : r = p) => hnfree (hrp ▸ hr)⟩
  · rw [hdel, hrel.nextPacket]
    exact h.deleted
  · rw [hrel.nextPacket] at hx
    rw [hrel.live, hfree, hdel, List.mem_append, List.mem_singleton, Finset.mem_erase]
    by_cases hxp : x = p
    · exact .inr (.inl (.inr hxp))
    · rcases h.placed x hx with hl | hf | hd
      · exact .inl ⟨hxp, hl⟩
      · exact .inr (.inl (.inl hf))
      · exact .inr (.inr hd)

theorem PacketsOwned.delete (h : PacketsOwned a) (hrel : Released a p a') (hp : p ∈ a.live)
    (hfree : a'.pool.packetFreelist = a.pool.packetFreelist)
    (hdel : a'.heap.deletedPackets = insert p a.heap.deletedPackets) : PacketsOwned a' := by
  obtain ⟨hlt, hnfree, hndel⟩ := h.held p hp
  refine ⟨fun x hx => ?_, fun x hx => ?_, hfree ▸ h.nodup, fun x hx => ?_, fun x hx => ?_⟩
  · obtain ⟨hxp, hlive⟩ := Finset.mem_erase.mp (hrel.live ▸ hx)
    obtain ⟨hxlt, hxfree, hxdel⟩ := h.held x hlive
    rw [hrel.nextPacket, hfree, hdel, Finset.mem_insert, not_or]
    exact ⟨hxlt, hxfree, hxp, hxdel⟩
  · rw [hfree] at hx
    rw [hrel.nextPacket, hdel, Finset.mem_insert, not_or]
    refine ⟨(h.freed x hx).1, ?_, (h.freed x hx).2⟩
    rintro rfl
    exact hnfree hx
  · rw [hrel.nextPacket]
    rw [hdel, Finset.mem_insert] at hx
    rcases hx with rfl | hx
    · exact hlt
    · exact h.deleted x hx
  · rw [hrel.nextPacket] at hx
    rw [hrel.live, hfree, hdel, Finset.mem_insert, Finset.mem_erase]
    by_cases hxp : x = p
    · exact .inr (.inr (.inl hxp))
    · rcases h.placed x hx with hl | hf | hd
      · exact .inl ⟨hxp, hl⟩
      · exact .inr (.inl hf)
      · exact .inr (.inr (.inr hd))

theorem PacketsOwned.release (h : PacketsOwned a) (hrel : Released a p a') (hp : p ∈ a.live) :
    PacketsOwned a' := by
  rcases hrel.packets with ⟨hfree, hdel⟩ | ⟨hfree, hdel⟩
  · exact h.recycle hrel hp hfree hdel
  · exact h.delete hrel hp hfree hdel

theorem PacketsOwned.newPayload (h : PacketsOwned a) (value : Payload) :
    PacketsOwned (a.newPayload value).2 := ⟨h.held, h.freed, h.nodup, h.deleted, h.placed⟩

theorem PacketsOwned.modify (h : PacketsOwned a) (x : PacketPtr) (f : Packet → Packet) :
    PacketsOwned (a.modify x f) := ⟨h.held, h.freed, h.nodup, h.deleted, h.placed⟩

theorem acquire_ok_of_owned (hpay : PayloadsOwned a) (hown : PacketsOwned a) :
    ∃ x a', a.acquire = .ok (x, a') := by
  refine acquire_ok (fun p hp => (hown.freed p hp).2) ?_ (fun q hq => (hpay.freed q hq).2) ?_
  · exact fun hd => lt_irrefl _ (hown.deleted _ hd)
  · exact fun hd => lt_irrefl _ (hpay.deleted _ hd)

theorem payloadsOwned_empty : PayloadsOwned empty :=
  ⟨⟨by simp [empty], List.nodup_nil⟩, fun _ _ => rfl, fun _ _ h => (nomatch h), by simp [empty],
    by simp [empty, Heap.empty], fun _ => rfl⟩

theorem packetsOwned_empty : PacketsOwned empty :=
  ⟨by simp [empty], by simp [empty], List.nodup_nil, by simp [empty, Heap.empty],
    by simp [empty, Heap.empty]⟩

end GemSc.Arena
