import GemSc.Noc.Flit
import GemSc.Lib.Segments

/-! A packet's flits are the segments of its payload: nothing is lost, and they are framed except
where the payload is empty. -/

namespace GemSc
open Segments

/-- The data of a flit into which `s` was copied. -/
def written (s : List UInt8) : FlitData := Vector.ofFn fun i => s[i.val]?

def flitOf (pkt : Packet) (payload : DataPayload) (type : FlitType) (s : List UInt8) : Flit where
  packetId := pkt.seqNum
  destAddr := payload.address.toUInt32
  srcAddr := payload.address.toUInt32
  vcId := pkt.vcId
  priority := pkt.priority
  type := type
  data := written s
  dataLength := UInt64.ofNat s.length

variable {pkt : Packet} {payload : DataPayload} {s src : List UInt8} {offset remaining : UInt64}

theorem memcpy_emptyData (hsrc : offset.toNat + remaining.toNat ≤ src.length)
    (hsize : remaining.toNat ≤ 8) : memcpy Flit.emptyData src offset remaining =
      some (written ((src.drop offset.toNat).take remaining.toNat)) := by
  unfold memcpy
  rw [if_pos ⟨hsrc, hsize⟩]
  congr 1
  apply Vector.ext
  intro i hi
  rw [written, Vector.getElem_ofFn, Vector.getElem_ofFn, List.getElem?_take, List.getElem?_drop]
  split
  · rfl
  · simp [Flit.emptyData, Vector.get]

theorem toNat_ofNat_length (h : s.length < 2 ^ 32) : (UInt64.ofNat s.length).toNat = s.length :=
  UInt64.toNat_ofNat_of_lt' (h.trans (by norm_num))

theorem toList_written (hs : s.length ≤ 8) : (written s).toList.take s.length = s.map some := by
  apply List.ext_getElem?
  intro i
  rw [List.getElem?_take, List.getElem?_map]
  split
  · rename_i hi
    rw [List.getElem?_eq_getElem hi, List.getElem?_eq_getElem (by simp; omega)]
    simp [written, hi]
  · rename_i hi
    rw [List.getElem?_eq_none (not_lt.mp hi)]
    rfl

theorem bytes_flitOf (type : FlitType) (hs : s.length ≤ 8) :
    (flitOf pkt payload type s).bytes = s.map some := by
  unfold Flit.bytes
  change (written s).toList.take (UInt64.ofNat s.length).toNat = s.map some
  rw [toNat_ofNat_length (by omega), toList_written hs]

namespace DataPayload

theorem toNat_getDataLength (t : DataPayload) :
    t.getDataLength.toUInt64.toNat = t.data.length := by
  rw [UInt32.toNat_toUInt64, getDataLength, UInt32.toNat_ofNat_of_lt' t.length_lt]

end DataPayload

def closingFlits (pkt : Packet) (payload : DataPayload) (rest : List UInt8) : List Flit :=
  closing (flitOf pkt payload .body) (flitOf pkt payload .tail) (segments 8 rest)

theorem closingFlits_cons {rest : List UInt8} (hrest : 8 < rest.length) :
    closingFlits pkt payload rest =
      flitOf pkt payload .body (rest.take 8) :: closingFlits pkt payload (rest.drop 8) := by
  have hne : rest ≠ [] := List.ne_nil_of_length_pos (by omega)
  have hmore : rest.drop 8 ≠ [] := by
    apply List.ne_nil_of_length_pos
    rw [List.length_drop]
    omega
  unfold closingFlits
  rw [segments_of_ne_nil (by norm_num) hne,
    closing_cons (mt (segments_eq_nil (by norm_num)).mp hmore)]

theorem filled_flit (type : FlitType) (first : List UInt8) {length : UInt64}
    (hlength : s.length = length.toNat) : { (flitOf pkt payload .head first).ofHead type with
      dataLength := length
      data := written s } = flitOf pkt payload type s := by
  obtain rfl : UInt64.ofNat s.length = length := by rw [hlength, UInt64.ofNat_toNat]
  rfl

theorem bodyFlits_eq (first : List UInt8) (flits : List Flit)
    (hrest : offset.toNat + remaining.toNat = payload.data.length) :
    ∃ bodies offset' remaining', bodyFlits (flitOf pkt payload .head first) payload.data flits offset
        remaining = some (flits ++ bodies, offset', remaining') ∧
      offset'.toNat + remaining'.toNat = payload.data.length ∧ remaining'.toNat ≤ 8 ∧
      closingFlits pkt payload (payload.data.drop offset.toNat) =
        bodies ++ closingFlits pkt payload (payload.data.drop offset'.toNat) := by
  have hsize : dataSize.toNat = 8 := rfl
  induction hn : remaining.toNat using Nat.strong_induction_on
    generalizing offset remaining flits with
  | _ n ih =>
    unfold bodyFlits
    by_cases hmore : remaining > dataSize
    · have hlt : 8 < remaining.toNat := UInt64.lt_iff_toNat_lt.mp hmore
      have hlength := payload.length_lt
      have hoffset : (offset + dataSize).toNat = offset.toNat + 8 := by
        rw [UInt64.toNat_add, hsize, Nat.mod_eq_of_lt (by omega)]
      have hremaining : (remaining - dataSize).toNat = remaining.toNat - 8 := by
        rw [UInt64.toNat_sub_of_le _ _ (UInt64.le_of_lt hmore), hsize]
      have hdata : memcpy Flit.emptyData payload.data offset dataSize =
          some (written ((payload.data.drop offset.toNat).take 8)) :=
        memcpy_emptyData (by omega) (le_of_eq hsize)
      have hfull : ((payload.data.drop offset.toNat).take 8).length = dataSize.toNat := by
        rw [List.length_take, List.length_drop]
        omega
      obtain ⟨bodies, offset', remaining', hrun, hend, hshort, hclosing⟩ :=
        ih _ (by omega)
          (flits ++ [flitOf pkt payload .body ((payload.data.drop offset.toNat).take 8)])
          (show (offset + dataSize).toNat + (remaining - dataSize).toNat = _ by omega) rfl
      refine ⟨flitOf pkt payload .body ((payload.data.drop offset.toNat).take 8) :: bodies, offset',
        remaining', ?_, hend, hshort, ?_⟩
      · rw [dif_pos hmore]
        change (memcpy Flit.emptyData payload.data offset dataSize).bind _ = _
        rw [hdata, Option.bind_some, filled_flit .body first hfull, hrun, List.append_assoc,
          List.singleton_append]
      · rw [closingFlits_cons (by rw [List.length_drop]; omega), List.drop_drop, ← hoffset, hclosing,
          List.cons_append]
    · have hle : remaining.toNat ≤ 8 := not_lt.mp fun h => hmore (UInt64.lt_iff_toNat_lt.mpr h)
      refine ⟨[], offset, remaining, ?_, hrest, hle, rfl⟩
      rw [dif_neg hmore, List.append_nil]

theorem multiFlits_eq (first : List UInt8)
    (hrest : offset.toNat + remaining.toNat = payload.data.length) :
    multiFlits (flitOf pkt payload .head first) payload.data offset remaining =
      some (flitOf pkt payload .head first ::
        closingFlits pkt payload (payload.data.drop offset.toNat)) := by
  obtain ⟨bodies, offset', remaining', hrun, hend, hshort, hclosing⟩ :=
    bodyFlits_eq first [flitOf pkt payload .head first] hrest
  have hlast : (payload.data.drop offset'.toNat).length = remaining'.toNat := by
    rw [List.length_drop]
    omega
  unfold multiFlits
  rw [hrun, Option.bind_eq_bind, Option.bind_some, hclosing]
  change (if remaining' > 0 then _ else _) = _
  by_cases hmore : remaining' > 0
  · have hpos : 0 < remaining'.toNat := UInt64.lt_iff_toNat_lt.mp hmore
    have hdata : memcpy Flit.emptyData payload.data offset' remaining' =
        some (written (payload.data.drop offset'.toNat)) := by
      rw [memcpy_emptyData (le_of_eq hend) hshort, List.take_of_length_le (le_of_eq hlast)]
    have hone : closingFlits pkt payload (payload.data.drop offset'.toNat) =
        [flitOf pkt payload .tail (payload.data.drop offset'.toNat)] := by
      unfold closingFlits
      rw [segments_of_length_le (by norm_num) (List.ne_nil_of_length_pos (by omega)) (by omega)]
      rfl
    rw [if_pos hmore, hone]
    change (memcpy Flit.emptyData payload.data offset' remaining').bind _ = _
    rw [hdata, Option.bind_some, filled_flit .tail first hlast]
    rfl
  · have hzero : (payload.data.drop offset'.toNat) = [] := by
      apply List.length_eq_zero_iff.mp
      have hle := mt UInt64.lt_iff_toNat_lt.mpr hmore
      rw [hlast]
      exact Nat.le_zero.mp (not_lt.mp hle)
    rw [if_neg hmore, hzero]
    have hnone : closingFlits pkt payload [] = [] := by
      unfold closingFlits
      rw [segments_nil]
      rfl
    rw [hnone, List.append_nil]
    rfl

namespace DataPayload

def headLength (t : DataPayload) : UInt64 := min t.getDataLength.toUInt64 dataSize

theorem toNat_headLength (t : DataPayload) : t.headLength.toNat = (t.data.take 8).length := by
  rw [headLength, UInt64.toNat_min, toNat_getDataLength, List.length_take, min_comm]
  rfl

theorem getDataLength_pos (t : DataPayload) : t.getDataLength.toUInt64 > 0 ↔ t.data ≠ [] := by
  rw [gt_iff_lt, UInt64.lt_iff_toNat_lt, toNat_getDataLength]
  exact List.length_pos_iff

theorem toNat_remaining (t : DataPayload) :
    (t.getDataLength.toUInt64 - t.headLength).toNat = (t.data.drop 8).length := by
  have hle : t.headLength ≤ t.getDataLength.toUInt64 := by
    rw [UInt64.le_iff_toNat_le, headLength, UInt64.toNat_min]
    exact min_le_left _ _
  rw [UInt64.toNat_sub_of_le _ _ hle, toNat_getDataLength, toNat_headLength, List.length_take,
    List.length_drop]
  omega

end DataPayload

theorem memcpy_head (payload : DataPayload) :
    memcpy Flit.emptyData payload.data 0 payload.headLength =
      some (written (payload.data.take 8)) := by
  have hlength := payload.toNat_headLength
  have hbound : (0 : UInt64).toNat + payload.headLength.toNat ≤ payload.data.length := by
    rw [hlength, List.length_take]
    exact (Nat.zero_add _).trans_le (min_le_right _ _)
  rw [memcpy_emptyData hbound (hlength.trans_le (List.length_take_le ..)), hlength,
    List.length_take, UInt64.toNat_zero, List.drop_zero, ← List.take_eq_take_min]

theorem packetToFlits_nil (h : payload.data = []) :
    packetToFlits pkt payload = some [flitOf pkt payload .head []] := by
  have hzero : ¬ payload.getDataLength.toUInt64 > 0 := mt payload.getDataLength_pos.mp (not_not.mpr h)
  have hlength : (0 : UInt64).toNat + payload.getDataLength.toUInt64.toNat = payload.data.length :=
    (Nat.zero_add _).trans payload.toNat_getDataLength
  unfold packetToFlits
  rw [if_neg hzero]
  change multiFlits (flitOf pkt payload .head []) payload.data 0 _ = _
  rw [multiFlits_eq [] hlength, h, List.drop_nil, closingFlits, segments_nil]
  rfl

theorem packetToFlits_of_ne_nil (h : payload.data ≠ []) : packetToFlits pkt payload =
    if payload.getDataLength.toUInt64 - payload.headLength = 0 then
      some [flitOf pkt payload .headTail (payload.data.take 8)]
    else
      multiFlits (flitOf pkt payload .head (payload.data.take 8)) payload.data payload.headLength
        (payload.getDataLength.toUInt64 - payload.headLength) := by
  have hlength := payload.toNat_headLength.symm
  unfold packetToFlits
  rw [if_pos (payload.getDataLength_pos.mpr h), ← filled_flit .headTail [] hlength,
    ← filled_flit .head [] hlength]
  change (memcpy Flit.emptyData payload.data 0 payload.headLength).bind _ = _
  rw [memcpy_head, Option.bind_some]
  rfl

theorem packetToFlits_eq (pkt : Packet) (payload : DataPayload) : packetToFlits pkt payload =
    some (frames (flitOf pkt payload .head) (flitOf pkt payload .body) (flitOf pkt payload .tail)
      (flitOf pkt payload .headTail) (segments 8 payload.data)) := by
  by_cases hne : payload.data = []
  · rw [packetToFlits_nil hne, hne, segments_nil]
    rfl
  have hremaining := payload.toNat_remaining
  have hhead := payload.toNat_headLength
  rw [packetToFlits_of_ne_nil hne]
  by_cases hdrop : payload.data.drop 8 = []
  · have hzero : payload.getDataLength.toUInt64 - payload.headLength = 0 := by
      apply UInt64.toNat_inj.mp
      rw [hremaining, hdrop]
      rfl
    have hshort : payload.data.length ≤ 8 := List.drop_eq_nil_iff.mp hdrop
    rw [if_pos hzero, segments_of_length_le (by norm_num) hne hshort, List.take_of_length_le hshort]
    rfl
  · have hmore : payload.getDataLength.toUInt64 - payload.headLength ≠ 0 := by
      intro hzero
      rw [hzero] at hremaining
      exact hdrop (List.length_eq_zero_iff.mp hremaining.symm)
    have hlong : 8 < payload.data.length := not_le.mp (mt List.drop_of_length_le hdrop)
    have hfull : payload.headLength.toNat = 8 := by
      rw [hhead, List.length_take]
      exact min_eq_left hlong.le
    have hrest : payload.headLength.toNat +
        (payload.getDataLength.toUInt64 - payload.headLength).toNat = payload.data.length := by
      rw [hfull, hremaining, List.length_drop]
      exact Nat.add_sub_cancel' hlong.le
    rw [if_neg hmore, multiFlits_eq _ hrest, hfull, segments_of_ne_nil (by norm_num) hne,
      frames_cons (mt (segments_eq_nil (by norm_num)).mp hdrop)]
    rfl

structure Flit.OfPacket (pkt : Packet) (payload : DataPayload) (f : Flit) : Prop where
  packetId : f.packetId = pkt.seqNum
  destAddr : f.destAddr = payload.address.toUInt32
  srcAddr : f.srcAddr = payload.address.toUInt32
  vcId : f.vcId = pkt.vcId
  priority : f.priority = pkt.priority

theorem ofPacket_flitOf (type : FlitType) (s : List UInt8) :
    (flitOf pkt payload type s).OfPacket pkt payload := ⟨rfl, rfl, rfl, rfl, rfl⟩

/-- The flits hold the payload, in as many flits as it takes, each of them full but the last. -/
structure Segmented (pkt : Packet) (payload : DataPayload) (flits : List Flit) : Prop where
  count : flits.length = max 1 ((payload.data.length + 7) / 8)
  atMost : ∀ f ∈ flits, f.dataLength.toNat ≤ 8
  full : ∀ f ∈ flits.dropLast, f.dataLength.toNat = 8
  content : flits.flatMap Flit.bytes = payload.data.map some
  metadata : ∀ f ∈ flits, f.OfPacket pkt payload

/-- The segmentation of a packet ends, reads within its payload, and loses nothing of it. -/
theorem packetToFlits_segmented (pkt : Packet) (payload : DataPayload) :
    ∃ flits, packetToFlits pkt payload = some flits ∧ Segmented pkt payload flits := by
  have hk : 0 < 8 := by norm_num
  have hlength : ∀ s ∈ segments 8 payload.data, s.length ≤ 8 := fun s hs => length_le_of_mem hk hs
  have hfits : ∀ type, ∀ s ∈ segments 8 payload.data,
      (flitOf pkt payload type s).dataLength.toNat = s.length := by
    intro type s hs
    exact toNat_ofNat_length ((hlength s hs).trans_lt (by norm_num))
  have hbytes : ∀ type, ∀ s ∈ segments 8 payload.data,
      (flitOf pkt payload type s).bytes = s.map some :=
    fun type s hs => bytes_flitOf type (hlength s hs)
  refine ⟨_, packetToFlits_eq pkt payload, ?_, ?_, ?_, ?_, ?_⟩
  · rw [length_frames, length_segments hk]
  · refine frames_induction (Nat.zero_le 8) fun s hs => ?_
    simp only [hfits _ s hs]
    exact ⟨hlength s hs, hlength s hs, hlength s hs, hlength s hs⟩
  · refine dropLast_frames_induction fun s hs => ?_
    simp only [hfits _ s (List.mem_of_mem_dropLast hs)]
    exact ⟨length_eq_of_mem_dropLast hk hs, length_eq_of_mem_dropLast hk hs⟩
  · rw [flatMap_frames rfl fun s hs => ⟨hbytes _ s hs, hbytes _ s hs, hbytes _ s hs, hbytes _ s hs⟩,
      flatten_segments hk]
  · exact frames_induction (ofPacket_flitOf _ _) fun s _ =>
      ⟨ofPacket_flitOf _ _, ofPacket_flitOf _ _, ofPacket_flitOf _ _, ofPacket_flitOf _ _⟩

def Framed (flits : List Flit) : Prop :=
  flits.map Flit.type = [.headTail] ∨
    ∃ k, flits.map Flit.type = .head :: (List.replicate k .body ++ [.tail])

/-- The last flit closes the packet, and no other one does. -/
def ClosedOnce (flits : List Flit) : Prop :=
  ∃ init last, flits = init ++ [last] ∧ last.Closes ∧ ∀ f ∈ init, ¬ f.Closes

/-- A packet is framed, and one that fits in a flit is what the flit's own constructor makes of it,
in any storage. -/
structure WellFramed (pkt : Packet) (payload : DataPayload) (flits : List Flit) : Prop where
  framed : Framed flits
  closed : ClosedOnce flits
  single : payload.data.length ≤ 8 → ∃ f, flits = [f] ∧ ∀ raw, ∃ g,
    Flit.ofPacket raw pkt payload = some g ∧
      f.type = g.type ∧ f.dataLength = g.dataLength ∧ f.bytes = g.bytes

theorem closedOnce_of_types {flits : List Flit} (types : List FlitType) {type : FlitType}
    (h : flits.map Flit.type = types ++ [type]) (htype : type = .tail ∨ type = .headTail)
    (htypes : ∀ t ∈ types, t ≠ .tail ∧ t ≠ .headTail) : ClosedOnce flits := by
  obtain ⟨init, rest, rfl, hinit, hrest⟩ := List.map_eq_append_iff.mp h
  obtain ⟨last, rfl, hlast⟩ := List.map_eq_singleton_iff.mp hrest
  refine ⟨init, last, rfl, ?_, fun f hf hcloses => ?_⟩
  · rw [← hlast] at htype
    exact htype
  · have hmem : f.type ∈ types := hinit ▸ List.mem_map_of_mem hf
    exact hcloses.elim (htypes _ hmem).1 (htypes _ hmem).2

theorem Framed.closedOnce {flits : List Flit} (h : Framed flits) : ClosedOnce flits := by
  rcases h with h | ⟨k, h⟩
  · exact closedOnce_of_types [] h (.inr rfl) (by simp)
  · refine closedOnce_of_types (.head :: List.replicate k .body) h (.inl rfl) ?_
    rw [List.forall_mem_cons]
    refine ⟨by decide, fun t ht => ?_⟩
    rw [List.eq_of_mem_replicate ht]
    decide

theorem framed_frames (hne : payload.data ≠ []) : Framed (frames (flitOf pkt payload .head)
    (flitOf pkt payload .body) (flitOf pkt payload .tail) (flitOf pkt payload .headTail)
    (segments 8 payload.data)) := by
  unfold Framed
  match hsegs : segments 8 payload.data with
  | [] => exact absurd ((segments_eq_nil (by norm_num)).mp hsegs) hne
  | [s] => exact .inl rfl
  | s :: t :: rest =>
    have hbody : ∀ x, (flitOf pkt payload .body x).type = .body := fun _ => rfl
    have htail : ∀ x, (flitOf pkt payload .tail x).type = .tail := fun _ => rfl
    have hclosing : (closing (flitOf pkt payload .body) (flitOf pkt payload .tail)
        (t :: rest)).map Flit.type = List.replicate rest.length .body ++ [.tail] :=
      map_closing hbody htail t rest
    right
    refine ⟨rest.length, ?_⟩
    rw [frames, List.map_cons, hclosing]
    rfl

theorem memcpy_bytes (dst : FlitData) {length : UInt64}
    (hsrc : offset.toNat + length.toNat ≤ src.length) (hsize : length.toNat ≤ 8) :
    ∃ data, memcpy dst src offset length = some data ∧
      data.toList.take length.toNat = ((src.drop offset.toNat).take length.toNat).map some := by
  refine ⟨_, if_pos ⟨hsrc, hsize⟩, ?_⟩
  apply List.ext_getElem?
  intro i
  rw [List.getElem?_take, List.getElem?_map, List.getElem?_take, List.getElem?_drop]
  split
  · rename_i hi
    rw [List.getElem?_eq_getElem (by simp; omega), List.getElem?_eq_getElem (by omega)]
    simp [hi]
  · rfl

theorem ofPacket_eq (pkt : Packet) (raw : Flit) (hne : payload.data ≠ [])
    (hshort : payload.data.length ≤ 8) :
    ∃ g, Flit.ofPacket raw pkt payload = some g ∧ g.type = .headTail ∧
      g.dataLength = UInt64.ofNat payload.data.length ∧ g.bytes = payload.data.map some := by
  have hlength : payload.headLength.toNat = payload.data.length := by
    rw [payload.toNat_headLength, List.take_of_length_le hshort]
  have hpos : payload.headLength > 0 := by
    rw [gt_iff_lt, UInt64.lt_iff_toNat_lt, hlength]
    exact List.length_pos_iff.mpr hne
  have hbound : (0 : UInt64).toNat + payload.headLength.toNat ≤ payload.data.length := by
    rw [hlength]
    exact (Nat.zero_add _).le
  have hle : payload.getDataLength.toUInt64 ≤ dataSize := by
    rw [UInt64.le_iff_toNat_le, payload.toNat_getDataLength]
    exact hshort
  obtain ⟨data, hdata, hbytes⟩ := memcpy_bytes raw.data hbound (hlength.trans_le hshort)
  refine ⟨{ raw with
    packetId := pkt.seqNum
    destAddr := payload.address.toUInt32
    dataLength := payload.headLength
    data
    type := .headTail }, ?_, rfl, ?_, ?_⟩
  · unfold Flit.ofPacket
    rw [if_pos hle]
    change (if payload.headLength > 0 then _ else _) = _
    rw [if_pos hpos]
    change (memcpy raw.data payload.data 0 payload.headLength).bind _ = _
    rw [hdata]
    rfl
  · rw [← hlength, UInt64.ofNat_toNat]
  · change data.toList.take payload.headLength.toNat = _
    rw [hbytes, hlength, UInt64.toNat_zero, List.drop_zero, List.take_length]

/-- The only flit of an empty payload is a head, which closes nothing. -/
theorem not_framed_of_nil {flits : List Flit} (hnil : payload.data = [])
    (hflits : packetToFlits pkt payload = some flits) : ¬ Framed flits := by
  rw [packetToFlits_nil hnil] at hflits
  obtain rfl := Option.some.inj hflits
  rintro (h | ⟨k, h⟩)
  · cases List.singleton_inj.mp h
  · exact List.append_ne_nil_of_right_ne_nil _ (List.cons_ne_nil _ _) (List.cons.inj h).2.symm

/-- Packets are framed exactly when their payload is not empty. -/
theorem packetToFlits_wellFramed_iff (pkt : Packet) (payload : DataPayload) :
    (∃ flits, packetToFlits pkt payload = some flits ∧ WellFramed pkt payload flits) ↔
      payload.data ≠ [] := by
  constructor
  · rintro ⟨flits, hflits, hframed⟩ hnil
    exact not_framed_of_nil hnil hflits hframed.framed
  · intro hne
    refine ⟨_, packetToFlits_eq pkt payload, framed_frames hne, (framed_frames hne).closedOnce, ?_⟩
    intro hshort
    rw [segments_of_length_le (by norm_num) hne hshort]
    refine ⟨_, rfl, fun raw => ?_⟩
    obtain ⟨g, hg, htype, hlength, hbytes⟩ := ofPacket_eq pkt raw hne hshort
    exact ⟨g, hg, htype.symm, hlength.symm, (bytes_flitOf _ hshort).trans hbytes.symm⟩

/-- The packet of a read request without data. -/
theorem empty_payload_not_framed :
    ¬ ∃ flits, packetToFlits { cmd := .read } ⟨0x1000, [], by decide⟩ = some flits ∧
      WellFramed { cmd := .read } ⟨0x1000, [], by decide⟩ flits := by
  rintro ⟨flits, hflits, hframed⟩
  exact not_framed_of_nil rfl hflits hframed.framed

end GemSc
