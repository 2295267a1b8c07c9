import GemSc.Noc.Segmentation

/-! What `flitToPacket` makes of the flit of a packet that fits in one: all of it but the upper
half of the address, which a flit has no room for. -/

namespace GemSc
open Segments

/-- A packet made of a flit has the metadata and the payload of the packet that was segmented. -/
structure Restored (pkt : Packet) (payload : DataPayload) (r : Packet × ReplyPayload) : Prop where
  seqNum : r.1.seqNum = pkt.seqNum
  vcId : r.1.vcId = pkt.vcId
  priority : r.1.priority = pkt.priority
  address : r.2.address = payload.address
  dataLength : r.2.dataLength = payload.getDataLength
  data : r.2.data = payload.data.map some

variable {pkt : Packet} {payload : DataPayload} {s : List UInt8}

theorem packetToFlits_single (pkt : Packet) (h : payload.data.length ≤ 8) :
    ∃ type, packetToFlits pkt payload = some [flitOf pkt payload type payload.data] := by
  by_cases hne : payload.data = []
  · refine ⟨.head, ?_⟩
    rw [packetToFlits_nil hne, hne]
  · refine ⟨.headTail, ?_⟩
    rw [packetToFlits_eq, segments_of_length_le (by norm_num) hne h]
    rfl

variable (pkt payload) in
theorem flitToPacket_flitOf (type : FlitType) (hs : s.length ≤ 8) (trans : PayloadPtr)
    (currentCycle : UInt64) :
    ∃ reply, flitToPacket (flitOf pkt payload type s) trans currentCycle = some
      ({ payload := some trans, srcCycle := currentCycle, type := .resp, seqNum := pkt.seqNum,
         vcId := pkt.vcId, priority := pkt.priority }, reply) ∧
      reply.address = payload.address.toUInt32.toUInt64 ∧ reply.data = s.map some ∧
      reply.dataLength = UInt32.ofNat s.length := by
  have hlength : (UInt64.ofNat s.length).toNat = s.length := toNat_ofNat_length (by omega)
  have hle : UInt64.ofNat s.length ≤ dataSize := by
    rw [UInt64.le_iff_toNat_le, hlength]
    exact hs
  have hbytes : (flitOf pkt payload type s).bytes = s.map some := bytes_flitOf type hs
  have hnarrow : (UInt64.ofNat s.length).toUInt32 = UInt32.ofNat s.length := by
    apply UInt32.toNat_inj.mp
    rw [UInt64.toNat_toUInt32, hlength]
    rfl
  unfold flitToPacket
  by_cases hpos : (flitOf pkt payload type s).dataLength > 0
  · have hfits : (flitOf pkt payload type s).dataLength ≤ dataSize := hle
    rw [if_pos hpos, if_pos hfits]
    exact ⟨_, rfl, rfl, hbytes, hnarrow⟩
  · have hzero : s.length = 0 := by
      have hnot := mt UInt64.lt_iff_toNat_lt.mpr hpos
      exact Nat.le_zero.mp (not_lt.mp (hlength ▸ hnot))
    rw [if_neg hpos, List.length_eq_zero_iff.mp hzero]
    exact ⟨_, rfl, rfl, rfl, rfl⟩

theorem toUInt64_toUInt32_eq_iff (a : UInt64) : a.toUInt32.toUInt64 = a ↔ a.toNat < 2 ^ 32 := by
  rw [← UInt64.toNat_inj, UInt32.toNat_toUInt64, UInt64.toNat_toUInt32]
  exact Nat.mod_eq_iff_lt (by norm_num)

theorem Restored.address_lt {flit : Flit} {r : Packet × ReplyPayload} {trans : PayloadPtr}
    {currentCycle : UInt64} (hrestored : Restored pkt payload r) (h : payload.data.length ≤ 8)
    (hflit : packetToFlits pkt payload = some [flit])
    (hr : flitToPacket flit trans currentCycle = some r) : payload.address.toNat < 2 ^ 32 := by
  obtain ⟨type, hflits⟩ := packetToFlits_single pkt h
  obtain rfl := List.singleton_inj.mp (Option.some.inj (hflits.symm.trans hflit))
  obtain ⟨reply, hreply, haddress, -⟩ :=
    flitToPacket_flitOf pkt payload type h trans currentCycle
  obtain rfl := Option.some.inj (hreply.symm.trans hr)
  apply (toUInt64_toUInt32_eq_iff _).mp
  rw [← haddress]
  exact hrestored.address

/-- Whether a packet of one flit comes back from it depends on its address alone. -/
theorem flitToPacket_restores_iff (pkt : Packet) (payload : DataPayload)
    (h : payload.data.length ≤ 8) (trans : PayloadPtr) (currentCycle : UInt64) :
    (∃ flit r, packetToFlits pkt payload = some [flit] ∧
      flitToPacket flit trans currentCycle = some r ∧ Restored pkt payload r) ↔
        payload.address.toNat < 2 ^ 32 := by
  constructor
  · rintro ⟨flit, r, hflit, hr, hrestored⟩
    exact hrestored.address_lt h hflit hr
  · intro hlt
    obtain ⟨type, hflits⟩ := packetToFlits_single pkt h
    obtain ⟨reply, hreply, haddress, hdata, hlength⟩ :=
      flitToPacket_flitOf pkt payload type h trans currentCycle
    have hwhole : reply.address = payload.address :=
      haddress.trans ((toUInt64_toUInt32_eq_iff _).mpr hlt)
    exact ⟨_, _, hflits, hreply, rfl, rfl, rfl, hwhole, hlength, hdata⟩

theorem small_address_restored : ∃ flit r,
    packetToFlits { seqNum := 7 } ⟨0x1000, [0xAB, 0xCD], by decide⟩ = some [flit] ∧
      flitToPacket flit 0 5 = some r ∧
        Restored { seqNum := 7 } ⟨0x1000, [0xAB, 0xCD], by decide⟩ r :=
  (flitToPacket_restores_iff _ _ (by decide) 0 5).mpr (by decide)

/-- A packet at the first address that takes 33 bits. -/
theorem large_address_not_restored : ¬ ∃ flit r,
    packetToFlits {} ⟨0x100000000, [0xAB], by decide⟩ = some [flit] ∧
      flitToPacket flit 0 0 = some r ∧ Restored {} ⟨0x100000000, [0xAB], by decide⟩ r := by
  rintro ⟨flit, r, hflit, hr, hrestored⟩
  have hlt := hrestored.address_lt (by decide) hflit hr
  exact absurd hlt (by decide)

end GemSc
