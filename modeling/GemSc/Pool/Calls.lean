import GemSc.Pool.PacketPool
import GemSc.Lib.ExceptFold

/-! What one `acquire` and one `release` do to the free lists and to the heap: an
inversion lemma each, and when they do not fault. -/

namespace GemSc.Arena
open Function ExceptFold

structure Acquired (a : Arena) (x : PacketPtr) (a' : Arena) : Prop where
  packet : a'.heap.packet = update a.heap.packet x {}
  alive : x ∉ a.heap.deletedPackets
  packets :
    (a.pool.packetFreelist = x :: a'.pool.packetFreelist ∧ a'.heap.nextPacket = a.heap.nextPacket) ∨
      (a.pool.packetFreelist = [] ∧ a'.pool.packetFreelist = [] ∧ x = a.heap.nextPacket ∧
        a'.heap.nextPacket = a.heap.nextPacket + 1)
  deletedPackets : a'.heap.deletedPackets = a.heap.deletedPackets
  payloads : ∃ q, (a'.heap.deletedPayloads = a.heap.deletedPayloads ∨
      a'.heap.deletedPayloads = insert q a.heap.deletedPayloads) ∧
    ((a.pool.payloadFreelist = q :: a'.pool.payloadFreelist ∧ q ∉ a.heap.deletedPayloads ∧
        a'.heap.nextPayload = a.heap.nextPayload) ∨
      (a.pool.payloadFreelist = [] ∧ a'.pool.payloadFreelist = [] ∧ q = a.heap.nextPayload ∧
        a'.heap.nextPayload = a.heap.nextPayload + 1))
  contents : ∀ q, q ≠ a.heap.nextPayload → a'.heap.payload q = a.heap.payload q
  maxSize : a'.pool.maxSize = a.pool.maxSize
  usage : a'.pool.currentUsage = a.pool.currentUsage + 1
  live : a'.live = insert x a.live

theorem takePacket_cases (a : Arena) :
    (∃ x rest, a.pool.packetFreelist = x :: rest ∧
      a.takePacket = (x, { a with pool := { a.pool with packetFreelist := rest } })) ∨
    (a.pool.packetFreelist = [] ∧
      a.takePacket = (a.heap.nextPacket, { a with heap := a.heap.newPacket.2 })) := by
  unfold takePacket
  split
  · next x rest h => exact .inl ⟨x, rest, h, rfl⟩
  · next h => exact .inr ⟨h, rfl⟩

theorem bindPayload_eq_ok {a b : Arena} {p : PacketPtr} (h : a.bindPayload p = .ok b) :
    (∃ q rest, a.pool.payloadFreelist = q :: rest ∧ q ∉ a.heap.deletedPayloads ∧
      b = { a with pool := { a.pool with payloadFreelist := rest } }.modify p fun pkt =>
        { pkt with payload := some q }) ∨
    (a.pool.payloadFreelist = [] ∧
      b = { a with heap := (a.heap.newPayload ⟨0, 0⟩).2 }.modify p fun pkt =>
        { pkt with payload := some a.heap.nextPayload }) := by
  unfold bindPayload at h
  split at h
  · next q rest hfree =>
    obtain ⟨payload, hget, h⟩ := bind_eq_ok.mp h
    have hq : q ∉ a.heap.deletedPayloads := fun hq => by simp [Heap.getPayload, hq] at hget
    exact .inl ⟨q, rest, hfree, hq, (Except.ok.inj h).symm⟩
  · next hfree => exact .inr ⟨hfree, (Except.ok.inj h).symm⟩

theorem acquire_eq_ok {a a' : Arena} {x : PacketPtr} (h : a.acquire = .ok (x, a')) :
    ∃ t b h', a.takePacket = (x, t) ∧ x ∉ t.heap.deletedPackets ∧ t.bindPayload x = .ok b ∧
      b.heap.resetPacket x = .ok h' ∧ a' = { b with heap := h' }.countAcquired x := by
  obtain ⟨pkt, hget, hrest⟩ := bind_eq_ok.mp h
  obtain ⟨bound, hbind, hrest'⟩ := bind_eq_ok.mp hrest
  obtain ⟨h', hreset, hend⟩ := bind_pure_eq_ok.mp hrest'
  obtain ⟨rfl, rfl⟩ := Prod.mk.inj hend
  exact ⟨_, bound, h', rfl, (Heap.get_eq_ok hget).1, hbind, hreset, rfl⟩

theorem acquired {a a' : Arena} {x : PacketPtr} (h : a.acquire = .ok (x, a')) : Acquired a x a' := by
  obtain ⟨t, b, h', htake, halive, hbind, hreset, rfl⟩ := acquire_eq_ok h
  obtain ⟨D, rfl, hD⟩ := Heap.resetPacket_eq_ok hreset
  rcases a.takePacket_cases with ⟨y, rest, hfree, heq⟩ | ⟨hfree, heq⟩ <;>
    obtain ⟨rfl, rfl⟩ := Prod.mk.inj (htake.symm.trans heq) <;>
    rcases bindPayload_eq_ok hbind with ⟨q, rest', hpay, hq, rfl⟩ | ⟨hpay, rfl⟩
  · refine ⟨?_, halive, .inl ⟨hfree, rfl⟩, rfl, ⟨q, ?_, .inl ⟨hpay, hq, rfl⟩⟩, fun _ _ => rfl, rfl, rfl, rfl⟩
    · simp [countAcquired, modify, Heap.modify]
    · simpa [countAcquired, modify, Heap.modify, eq_comm] using hD
  · refine ⟨?_, halive, .inl ⟨hfree, rfl⟩, rfl, ⟨_, ?_, .inr ⟨hpay, hpay, rfl, rfl⟩⟩,
      fun _ hq => update_of_ne hq .., rfl, rfl, rfl⟩
    · simp [countAcquired, modify, Heap.modify, Heap.newPayload]
    · simpa [countAcquired, modify, Heap.modify, Heap.newPayload, eq_comm] using hD
  · refine ⟨?_, halive, .inr ⟨hfree, hfree, rfl, rfl⟩, rfl, ⟨q, ?_, .inl ⟨hpay, hq, rfl⟩⟩,
      fun _ _ => rfl, rfl, rfl, rfl⟩
    · simp [countAcquired, modify, Heap.modify, Heap.newPacket]
    · simpa [countAcquired, modify, Heap.modify, Heap.newPacket, eq_comm] using hD
  · refine ⟨?_, halive, .inr ⟨hfree, hfree, rfl, rfl⟩, rfl, ⟨_, ?_, .inr ⟨hpay, hpay, rfl, rfl⟩⟩,
      fun _ hq => update_of_ne hq .., rfl, rfl, rfl⟩
    · simp [countAcquired, modify, Heap.modify, Heap.newPacket, Heap.newPayload]
    · simpa [countAcquired, modify, Heap.modify, Heap.newPacket, Heap.newPayload, eq_comm] using hD

structure Released (a : Arena) (p : PacketPtr) (a' : Arena) : Prop where
  packet : a'.heap.packet = update a.heap.packet p {}
  alive : p ∉ a.heap.deletedPackets
  packets :
    (a'.pool.packetFreelist = a.pool.packetFreelist ++ [p] ∧
        a'.heap.deletedPackets = a.heap.deletedPackets) ∨
      (a'.pool.packetFreelist = a.pool.packetFreelist ∧
        a'.heap.deletedPackets = insert p a.heap.deletedPackets)
  payloads :
    ((a.heap.packet p).payload = none ∧ a'.pool.payloadFreelist = a.pool.payloadFreelist ∧
        a'.heap.deletedPayloads = a.heap.deletedPayloads) ∨
      ∃ q, (a.heap.packet p).payload = some q ∧
        ((a'.pool.payloadFreelist = a.pool.payloadFreelist ++ [q] ∧
            a'.heap.deletedPayloads = a.heap.deletedPayloads) ∨
          (a'.pool.payloadFreelist = a.pool.payloadFreelist ∧
            a'.heap.deletedPayloads = insert q a.heap.deletedPayloads))
  nextPacket : a'.heap.nextPacket = a.heap.nextPacket
  nextPayload : a'.heap.nextPayload = a.heap.nextPayload
  contents : a'.heap.payload = a.heap.payload
  maxSize : a'.pool.maxSize = a.pool.maxSize
  usage : a'.pool.currentUsage = a.pool.currentUsage - 1
  live : a'.live = a.live.erase p

def Uncounted (a : Arena) : Prop := ∀ p, (a.heap.packet p).refCount = 0

theorem dropReference_eq_ok {a b : Arena} {p : PacketPtr} (hu : a.Uncounted)
    (h : a.dropReference p = .ok b) : b = a := by
  have hnone : ∀ r, a.removeRef r = .ok b → b = a := by
    intro r hr
    cases r with
    | none => exact (Except.ok.inj hr).symm
    | some q =>
      obtain ⟨pkt, hget, hr⟩ := bind_eq_ok.mp hr
      obtain ⟨-, rfl⟩ := Heap.get_eq_ok hget
      rw [if_pos (hu q).le] at hr
      exact (Except.ok.inj hr).symm
  unfold dropReference at h
  split_ifs at h
  · exact hnone _ h
  · exact (Except.ok.inj h).symm

theorem recyclePayload_eq_ok {a b : Arena} {p : PacketPtr} (h : a.recyclePayload p = .ok b) :
    ((a.heap.packet p).payload = none ∧ b = a) ∨
      ∃ q, (a.heap.packet p).payload = some q ∧ (b.heap.packet p).payload = none ∧
        ((b = { a with pool := { a.pool with
            payloadFreelist := a.pool.payloadFreelist ++ [q] } }.modify p fun pkt =>
              { pkt with payload := none }) ∨
          b = { a with heap := { a.heap with
            deletedPayloads := insert q a.heap.deletedPayloads } }.modify p fun pkt =>
              { pkt with payload := none }) := by
  unfold recyclePayload at h
  split at h
  · next hnone => exact .inl ⟨hnone, (Except.ok.inj h).symm⟩
  · next q hq =>
    obtain ⟨c, hfree, rfl⟩ := bind_pure_eq_ok.mp h
    refine .inr ⟨q, hq, by simp [modify], ?_⟩
    unfold freePayload at hfree
    split_ifs at hfree
    · obtain rfl := Except.ok.inj hfree
      exact .inl rfl
    · obtain ⟨h', hdel, rfl⟩ := bind_pure_eq_ok.mp hfree
      obtain ⟨-, rfl⟩ := Heap.deletePayload_eq_ok hdel
      exact .inr rfl

theorem recyclePacket_eq_ok {a b : Arena} {p : PacketPtr} (h : a.recyclePacket p = .ok b) :
    b = { a with pool := { a.pool with packetFreelist := a.pool.packetFreelist ++ [p] } } ∨
      b = { a with heap := { a.heap with deletedPackets := insert p a.heap.deletedPackets } } := by
  unfold recyclePacket at h
  split_ifs at h
  · exact .inl (Except.ok.inj h).symm
  · obtain ⟨h', hdel, rfl⟩ := bind_pure_eq_ok.mp h
    unfold Heap.deletePacket at hdel
    split_ifs at hdel
    obtain rfl := Except.ok.inj hdel
    exact .inr rfl

theorem released {a a' : Arena} {p : PacketPtr} (hu : a.Uncounted) (h : a.release p = .ok a') :
    Released a p a' := by
  obtain ⟨pkt, hget, hrest⟩ := bind_eq_ok.mp h
  obtain ⟨b, hdrop, hrest'⟩ := bind_eq_ok.mp hrest
  obtain ⟨c, hpay, hrest''⟩ := bind_eq_ok.mp hrest'
  obtain ⟨h', hreset, hrest₄⟩ := bind_eq_ok.mp hrest''
  obtain ⟨d, hpacket, hend⟩ := bind_eq_ok.mp hrest₄
  obtain rfl := dropReference_eq_ok hu hdrop
  obtain rfl := Except.ok.inj hend
  have halive := (Heap.get_eq_ok hget).1
  obtain ⟨D, rfl, hD⟩ := Heap.resetPacket_eq_ok hreset
  have hsame : ((b.modify p fun pkt => { pkt with originalReq := none }).heap.packet p).payload =
      (b.heap.packet p).payload := by
    rw [modify, Heap.packet_modify_self]
  rcases recyclePayload_eq_ok hpay with ⟨hnone, rfl⟩ | ⟨q, hq, hnone, rfl | rfl⟩ <;>
    simp only [hnone, reduceCtorEq, false_and, exists_false, or_false] at hD <;>
    subst hD <;>
    rcases recyclePacket_eq_ok hpacket with rfl | rfl
  all_goals
    refine ⟨by simp [countReleased, modify, Heap.modify], halive, ?_, ?_, rfl, rfl, rfl, rfl, rfl, rfl⟩
  · exact .inl ⟨rfl, rfl⟩
  · exact .inl ⟨hsame.symm.trans hnone, rfl, rfl⟩
  · exact .inr ⟨rfl, rfl⟩
  · exact .inl ⟨hsame.symm.trans hnone, rfl, rfl⟩
  · exact .inl ⟨rfl, rfl⟩
  · exact .inr ⟨q, hsame.symm.trans hq, .inl ⟨rfl, rfl⟩⟩
  · exact .inr ⟨rfl, rfl⟩
  · exact .inr ⟨q, hsame.symm.trans hq, .inl ⟨rfl, rfl⟩⟩
  · exact .inl ⟨rfl, rfl⟩
  · exact .inr ⟨q, hsame.symm.trans hq, .inr ⟨rfl, rfl⟩⟩
  · exact .inr ⟨rfl, rfl⟩
  · exact .inr ⟨q, hsame.symm.trans hq, .inr ⟨rfl, rfl⟩⟩

theorem Uncounted.acquire {a b : Arena} {x : PacketPtr} (hu : a.Uncounted) (h : Acquired a x b) :
    b.Uncounted := by
  intro y
  rw [h.packet, update_apply]
  split_ifs
  · rfl
  · exact hu y

theorem Uncounted.release {a b : Arena} {p : PacketPtr} (hu : a.Uncounted) (h : Released a p b) :
    b.Uncounted := by
  intro y
  rw [h.packet, update_apply]
  split_ifs
  · rfl
  · exact hu y

theorem Uncounted.modify {a : Arena} {p : PacketPtr} {f : Packet → Packet} (hu : a.Uncounted)
    (hf : (f (a.heap.packet p)).refCount = (a.heap.packet p).refCount) : (a.modify p f).Uncounted := by
  intro y
  by_cases hy : y = p
  · subst hy
    rw [Arena.modify, Heap.packet_modify_self, hf]
    exact hu y
  · rw [Arena.modify, Heap.packet_modify_of_ne _ _ hy]
    exact hu y

theorem Acquired.payload {a b : Arena} {x : PacketPtr} (h : Acquired a x b) (y : PacketPtr) :
    (b.heap.packet y).payload = if y = x then none else (a.heap.packet y).payload := by
  rw [h.packet, update_apply]
  split_ifs <;> rfl

theorem Released.payload {a b : Arena} {p : PacketPtr} (h : Released a p b) (y : PacketPtr) :
    (b.heap.packet y).payload = if y = p then none else (a.heap.packet y).payload := by
  rw [h.packet, update_apply]
  split_ifs <;> rfl

theorem Acquired.nextPayload_le {a b : Arena} {x : PacketPtr} (h : Acquired a x b) :
    a.heap.nextPayload ≤ b.heap.nextPayload := by
  obtain ⟨q, -, ⟨-, -, hn⟩ | ⟨-, -, -, hn⟩⟩ := h.payloads
  · exact hn.ge
  · exact hn ▸ Nat.le_succ _

theorem Released.mem_payloadFreelist {a b : Arena} {p : PacketPtr} (h : Released a p b)
    {r : PayloadPtr} (hr : r ∈ b.pool.payloadFreelist) :
    r ∈ a.pool.payloadFreelist ∨
      ((a.heap.packet p).payload = some r ∧ b.heap.deletedPayloads = a.heap.deletedPayloads) := by
  rcases h.payloads with ⟨-, hfree, -⟩ | ⟨q, hq, ⟨hfree, hdel⟩ | ⟨hfree, -⟩⟩ <;> rw [hfree] at hr
  · exact .inl hr
  · rcases List.mem_append.mp hr with hr | hr
    · exact .inl hr
    · rw [List.mem_singleton.mp hr]
      exact .inr ⟨hq, hdel⟩
  · exact .inl hr

theorem Released.mem_deletedPayloads {a b : Arena} {p : PacketPtr} (h : Released a p b)
    {r : PayloadPtr} (hr : r ∈ b.heap.deletedPayloads) :
    r ∈ a.heap.deletedPayloads ∨
      ((a.heap.packet p).payload = some r ∧ b.pool.payloadFreelist = a.pool.payloadFreelist) := by
  rcases h.payloads with ⟨-, -, hdel⟩ | ⟨q, hq, ⟨-, hdel⟩ | ⟨hfree, hdel⟩⟩ <;> rw [hdel] at hr
  · exact .inl hr
  · exact .inl hr
  · rcases Finset.mem_insert.mp hr with rfl | hr
    · exact .inr ⟨hq, hfree⟩
    · exact .inl hr

theorem resetPacket_ok {h : Heap} {p : PacketPtr} (hp : p ∉ h.deletedPackets)
    (hpay : ∀ q, (h.packet p).payload = some q → q ∉ h.deletedPayloads) :
    ∃ h', h.resetPacket p = .ok h' := by
  have hdrop : ∃ h', h.dropPayload (h.packet p) = .ok h' := by
    unfold Heap.dropPayload
    split
    · exact ⟨_, rfl⟩
    · next q hq =>
      split_ifs
      · exact ⟨_, rfl⟩
      · exact ⟨_, if_neg (hpay q hq)⟩
  obtain ⟨h', hdrop⟩ := hdrop
  exact ⟨_, bind_eq_ok.mpr ⟨_, Heap.get_of_not_mem hp, bind_eq_ok.mpr ⟨h', hdrop, rfl⟩⟩⟩

theorem acquire_ok {a : Arena} (hfree : ∀ p ∈ a.pool.packetFreelist, p ∉ a.heap.deletedPackets)
    (hnext : a.heap.nextPacket ∉ a.heap.deletedPackets)
    (hpay : ∀ q ∈ a.pool.payloadFreelist, q ∉ a.heap.deletedPayloads)
    (hnextPay : a.heap.nextPayload ∉ a.heap.deletedPayloads) : ∃ x a', a.acquire = .ok (x, a') := by
  have htake : a.takePacket.1 ∉ a.takePacket.2.heap.deletedPackets ∧
      a.takePacket.2.pool.payloadFreelist = a.pool.payloadFreelist ∧
      a.takePacket.2.heap.deletedPayloads = a.heap.deletedPayloads ∧
      a.takePacket.2.heap.nextPayload = a.heap.nextPayload := by
    rcases a.takePacket_cases with ⟨x, rest, hcons, heq⟩ | ⟨hnil, heq⟩
    · rw [heq]
      exact ⟨hfree x (by simp [hcons]), rfl, rfl, rfl⟩
    · rw [heq]
      exact ⟨hnext, rfl, rfl, rfl⟩
  obtain ⟨halive, hlist, hdel, hn⟩ := htake
  have hbind : ∃ b, a.takePacket.2.bindPayload a.takePacket.1 = .ok b ∧
      b.heap.deletedPackets = a.takePacket.2.heap.deletedPackets ∧
      ∀ q, (b.heap.packet a.takePacket.1).payload = some q → q ∉ b.heap.deletedPayloads := by
    unfold bindPayload
    split
    · next q rest hq =>
      have hq' : q ∉ a.takePacket.2.heap.deletedPayloads := by
        rw [hdel]
        exact hpay q (by rw [← hlist, hq]; exact List.mem_cons_self ..)
      have hget : a.takePacket.2.heap.getPayload q = .ok (a.takePacket.2.heap.payload q) :=
        if_neg hq'
      refine ⟨_, bind_eq_ok.mpr ⟨_, hget, rfl⟩, rfl, ?_⟩
      intro x hx
      simp only [modify, Heap.packet_modify_self, Option.some.injEq] at hx
      rw [← hx]
      exact hq'
    · refine ⟨_, rfl, rfl, ?_⟩
      intro x hx
      simp only [modify, Heap.packet_modify_self, Option.some.injEq] at hx
      rw [← hx]
      simp only [Heap.newPayload, hn, modify, Heap.modify, hdel]
      exact hnextPay
  obtain ⟨b, hb, hpk, hbound⟩ := hbind
  obtain ⟨h', hreset⟩ := resetPacket_ok (hpk ▸ halive) hbound
  exact ⟨_, _, bind_eq_ok.mpr ⟨_, Heap.get_of_not_mem halive,
    bind_eq_ok.mpr ⟨b, hb, bind_eq_ok.mpr ⟨h', hreset, rfl⟩⟩⟩⟩

theorem release_ok {a : Arena} {p : PacketPtr} (hu : a.Uncounted) (hp : p ∉ a.heap.deletedPackets)
    (horig : ∀ r, (a.heap.packet p).originalReq = some r → r ∉ a.heap.deletedPackets)
    (hpay : ∀ q, (a.heap.packet p).payload = some q → q ∉ a.heap.deletedPayloads) :
    ∃ a', a.release p = .ok a' := by
  have hdrop : a.dropReference p = .ok a := by
    unfold dropReference
    split_ifs
    · cases hr : (a.heap.packet p).originalReq with
      | none => rfl
      | some r =>
        exact bind_eq_ok.mpr ⟨_, Heap.get_of_not_mem (horig r hr), if_pos (hu r).le⟩
    · rfl
  have hrecycle : ∃ c, (a.modify p fun pkt => { pkt with originalReq := none }).recyclePayload p = .ok c ∧
      c.heap.deletedPackets = a.heap.deletedPackets ∧ (c.heap.packet p).payload = none := by
    unfold recyclePayload
    split
    · next hnone => exact ⟨_, rfl, rfl, hnone⟩
    · next q hq =>
      have hq' : q ∉ a.heap.deletedPayloads := by
        refine hpay q ?_
        rw [modify, Heap.packet_modify_self] at hq
        exact hq
      have hfree : ∃ d, (a.modify p fun pkt => { pkt with originalReq := none }).freePayload q = .ok d ∧
          d.heap.deletedPackets = a.heap.deletedPackets := by
        unfold freePayload
        split_ifs
        · exact ⟨_, rfl, rfl⟩
        · exact ⟨_, bind_eq_ok.mpr ⟨_, if_neg hq', rfl⟩, rfl⟩
      obtain ⟨d, hd, hdel⟩ := hfree
      exact ⟨_, bind_eq_ok.mpr ⟨d, hd, rfl⟩, hdel, by rw [modify, Heap.packet_modify_self]⟩
  obtain ⟨c, hc, hdel, hnone⟩ := hrecycle
  have halive : p ∉ c.heap.deletedPackets := hdel ▸ hp
  obtain ⟨h', hreset⟩ := resetPacket_ok halive (by simp [hnone])
  have hpacket : ∃ d, recyclePacket p { c with heap := h' } = .ok d := by
    obtain ⟨D, rfl, -⟩ := Heap.resetPacket_eq_ok hreset
    unfold recyclePacket
    split_ifs
    · exact ⟨_, rfl⟩
    · exact ⟨_, bind_eq_ok.mpr ⟨_, if_neg halive, rfl⟩⟩
  obtain ⟨d, hd⟩ := hpacket
  exact ⟨_, bind_eq_ok.mpr ⟨_, Heap.get_of_not_mem hp, bind_eq_ok.mpr ⟨a, hdrop,
    bind_eq_ok.mpr ⟨c, hc, bind_eq_ok.mpr ⟨h', hreset, bind_eq_ok.mpr ⟨d, hd, rfl⟩⟩⟩⟩⟩⟩

end GemSc.Arena
