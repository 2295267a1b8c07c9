import GemSc.Pool.Calls

/-! Packets that may be used, and what a release does to them whatever they refer to. -/

namespace GemSc.Arena
open Function ExceptFold
variable {a a' b : Arena} {p x : PacketPtr}

/-- An allocated packet that is neither free nor deleted. -/
def Usable (p : PacketPtr) (a : Arena) : Prop :=
  p < a.heap.nextPacket ∧ p ∉ a.pool.packetFreelist ∧ p ∉ a.heap.deletedPackets

/-- The packet was neither released nor deleted, and it has its payload still. -/
structure Untouched (a : Arena) (p : PacketPtr) (a' : Arena) : Prop where
  free : a'.pool.packetFreelist.count p = a.pool.packetFreelist.count p
  deleted : p ∈ a'.heap.deletedPackets ↔ p ∈ a.heap.deletedPackets
  payload : (a'.heap.packet p).payload = (a.heap.packet p).payload
  contents : a'.heap.payload = a.heap.payload

/-- The packet was released or deleted, and nothing else was. -/
structure Gone (a : Arena) (p : PacketPtr) (a' : Arena) : Prop where
  alive : p ∉ a.heap.deletedPackets
  packets :
    (a'.pool.packetFreelist = a.pool.packetFreelist ++ [p] ∧
        a'.heap.deletedPackets = a.heap.deletedPackets) ∨
      (a'.pool.packetFreelist = a.pool.packetFreelist ∧
        a'.heap.deletedPackets = insert p a.heap.deletedPackets)
  nextPacket : a'.heap.nextPacket = a.heap.nextPacket

theorem Gone.not_untouched (h : Gone a p a') : ¬ Untouched a p a' := by
  intro hsame
  rcases h.packets with ⟨hfree, -⟩ | ⟨-, hdel⟩
  · have hcount := hsame.free
    simp [hfree] at hcount
  · have hmem := hsame.deleted
    rw [hdel] at hmem
    exact h.alive (hmem.mp (Finset.mem_insert_self ..))

theorem Gone.not_usable (h : Gone a p a') :
    p ∈ a'.pool.packetFreelist ∨ p ∈ a'.heap.deletedPackets := by
  rcases h.packets with ⟨hfree, -⟩ | ⟨-, hdel⟩
  · exact .inl (by simp [hfree])
  · exact .inr (by simp [hdel])

theorem Gone.usable (h : Gone a p a') (hxp : x ≠ p) (hx : a.Usable x) : a'.Usable x := by
  obtain ⟨hlt, hfree, hdel⟩ := hx
  rw [Usable, h.nextPacket]
  rcases h.packets with ⟨hf, hd⟩ | ⟨hf, hd⟩
  · rw [hf, hd, List.mem_append, List.mem_singleton, not_or]
    exact ⟨hlt, ⟨hfree, hxp⟩, hdel⟩
  · rw [hf, hd, Finset.mem_insert, not_or]
    exact ⟨hlt, hfree, hxp, hdel⟩

theorem Acquired.usable (h : Acquired a p b) (hx : a.Usable x) : b.Usable x := by
  obtain ⟨hlt, hfree, hdel⟩ := hx
  rw [Usable, h.deletedPackets]
  rcases h.packets with ⟨hcons, hn⟩ | ⟨-, hnil, -, hn⟩
  · rw [hcons, List.mem_cons, not_or] at hfree
    exact ⟨hn ▸ hlt, hfree.2, hdel⟩
  · rw [hnil]
    exact ⟨hn ▸ Nat.lt_succ_of_lt hlt, List.not_mem_nil, hdel⟩

theorem dropReference_frame (h : a.dropReference p = .ok b) :
    b.pool = a.pool ∧ b.heap.deletedPackets = a.heap.deletedPackets ∧
      b.heap.nextPacket = a.heap.nextPacket := by
  unfold dropReference removeRef at h
  split_ifs at h
  · split at h
    · obtain rfl := Except.ok.inj h
      exact ⟨rfl, rfl, rfl⟩
    · obtain ⟨pkt, -, hrest⟩ := bind_eq_ok.mp h
      split_ifs at hrest
      all_goals
        obtain rfl := Except.ok.inj hrest
        exact ⟨rfl, rfl, rfl⟩
  · obtain rfl := Except.ok.inj h
    exact ⟨rfl, rfl, rfl⟩

theorem release_eq_ok (h : a.release p = .ok a') : Gone a p a' := by
  obtain ⟨pkt, hget, hrest⟩ := bind_eq_ok.mp h
  obtain ⟨b, hdrop, hrest'⟩ := bind_eq_ok.mp hrest
  obtain ⟨c, hpay, hrest''⟩ := bind_eq_ok.mp hrest'
  obtain ⟨h', hreset, hrest₄⟩ := bind_eq_ok.mp hrest''
  obtain ⟨d, hpacket, rfl⟩ := bind_pure_eq_ok.mp hrest₄
  obtain ⟨hpool, hdel, hnext⟩ := dropReference_frame hdrop
  obtain ⟨D, rfl, -⟩ := Heap.resetPacket_eq_ok hreset
  have hrecycled : c.pool.packetFreelist = a.pool.packetFreelist ∧
      c.heap.deletedPackets = a.heap.deletedPackets ∧ c.heap.nextPacket = a.heap.nextPacket := by
    rw [← hpool, ← hdel, ← hnext]
    rcases recyclePayload_eq_ok hpay with ⟨-, rfl⟩ | ⟨q, -, -, rfl | rfl⟩ <;> exact ⟨rfl, rfl, rfl⟩
  obtain ⟨hfree, hdel', hnext'⟩ := hrecycled
  refine ⟨(Heap.get_eq_ok hget).1, ?_, ?_⟩
  · rw [← hfree, ← hdel']
    rcases recyclePacket_eq_ok hpacket with rfl | rfl
    · exact .inl ⟨rfl, rfl⟩
    · exact .inr ⟨rfl, rfl⟩
  · rw [← hnext']
    rcases recyclePacket_eq_ok hpacket with rfl | rfl <;> rfl

end GemSc.Arena
