import GemSc.Modules.NocRouter

/-! Flits and the segmentation of a packet into them. A read or a write outside of the bytes that
a pointer stands for has no result, and neither has what depends on it. -/

namespace GemSc

/-- `DATA_SIZE`, the bytes of a flit. -/
def dataSize : UInt64 := 8

/-- The data of a flit. A byte that was not written yet is `none`. -/
abbrev FlitData := Vector (Option UInt8) 8

structure Flit where
  packetId : UInt64
  destAddr : UInt32
  srcAddr : UInt32
  vcId : ℤ
  priority : UInt8
  type : FlitType
  data : FlitData
  dataLength : UInt64
  deriving DecidableEq

/-- The attributes of `tlm_generic_payload` that the segmentation reads: `data` are the
`get_data_length()` bytes behind `get_data_ptr()`. -/
structure DataPayload where
  address : UInt64
  data : List UInt8
  length_lt : data.length < 2 ^ 32

namespace DataPayload

def getDataLength (t : DataPayload) : UInt32 := UInt32.ofNat t.data.length

end DataPayload

/-- `memcpy(dst, src + offset, length)` -/
def memcpy (dst : FlitData) (src : List UInt8) (offset length : UInt64) : Option FlitData :=
  if offset.toNat + length.toNat ≤ src.length ∧ length.toNat ≤ 8 then
    some (Vector.ofFn fun i =>
      if i < length.toNat then src[offset.toNat + i]? else dst.get i)
  else
    none

namespace Flit

def emptyData : FlitData := Vector.replicate 8 none

/-- The default constructor. It leaves the data unwritten. -/
def init : Flit := ⟨0, 0, 0, 0, 0, .head, emptyData, 0⟩

/-- `Flit(head_flit, new_type)`, a flit of the same packet. -/
def ofHead (headFlit : Flit) (newType : FlitType) : Flit :=
  { headFlit with type := newType, data := emptyData, dataLength := 0 }

/-- `Flit(pkt)` in storage that holds `raw`. It does not set the other metadata. -/
def ofPacket (raw : Flit) (pkt : Packet) (payload : DataPayload) : Option Flit := do
  let dataLength := min payload.getDataLength.toUInt64 dataSize
  let data ← if dataLength > 0 then memcpy raw.data payload.data 0 dataLength else some raw.data
  return { raw with
    packetId := pkt.seqNum
    destAddr := payload.address.toUInt32
    dataLength
    data
    type := if payload.getDataLength.toUInt64 ≤ dataSize then .headTail else .head }

def bytes (f : Flit) : List (Option UInt8) := f.data.toList.take f.dataLength.toNat

def Closes (f : Flit) : Prop := f.type = .tail ∨ f.type = .headTail

instance : DecidablePred Closes := fun f =>
  inferInstanceAs (Decidable (f.type = .tail ∨ f.type = .headTail))

end Flit

/-- The `while` loop of step 2, with the flits, the offset and the remaining size behind it. -/
def bodyFlits (headFlit : Flit) (src : List UInt8) (flits : List Flit) (offset remaining : UInt64) :
    Option (List Flit × UInt64 × UInt64) :=
  if _h : remaining > dataSize then do
    let bodyFlit := { headFlit.ofHead .body with dataLength := dataSize }
    let data ← memcpy bodyFlit.data src offset dataSize
    bodyFlits headFlit src (flits ++ [{ bodyFlit with data }]) (offset + dataSize)
      (remaining - dataSize)
  else
    some (flits, offset, remaining)
  termination_by remaining.toNat
  decreasing_by
    have hle : dataSize ≤ remaining := UInt64.le_of_lt _h
    rw [UInt64.toNat_sub_of_le _ _ hle]
    have hlt := UInt64.lt_iff_toNat_lt.mp _h
    have hsize : dataSize.toNat = 8 := rfl
    omega

/-- From the head flit on: steps 2 and 3. -/
def multiFlits (headFlit : Flit) (src : List UInt8) (offset remaining : UInt64) :
    Option (List Flit) := do
  let (flits, offset, remaining) ← bodyFlits headFlit src [headFlit] offset remaining
  if remaining > 0 then
    let tailFlit := { headFlit.ofHead .tail with dataLength := remaining }
    let data ← memcpy tailFlit.data src offset remaining
    return flits ++ [{ tailFlit with data }]
  else
    return flits

def packetToFlits (pkt : Packet) (payload : DataPayload) : Option (List Flit) :=
  let headFlit := { Flit.init with
    packetId := pkt.seqNum
    destAddr := payload.address.toUInt32
    srcAddr := payload.address.toUInt32
    vcId := pkt.vcId
    priority := pkt.priority
    type := .head }
  let remaining := payload.getDataLength.toUInt64
  if remaining > 0 then do
    let dataLength := min remaining dataSize
    let data ← memcpy headFlit.data payload.data 0 dataLength
    let headFlit := { headFlit with dataLength, data }
    let remaining := remaining - dataLength
    if remaining = 0 then
      return [{ headFlit with type := .headTail }]
    else
      multiFlits headFlit payload.data dataLength remaining
  else
    multiFlits headFlit payload.data 0 remaining

inductive TlmCommand
  | ignore
  | response
  deriving DecidableEq

inductive TlmResponseStatus
  | incomplete
  | ok
  deriving DecidableEq

/-- The payload that `flitToPacket` makes, as `new` leaves it at first: `data` are the bytes behind
`get_data_ptr()`. -/
structure ReplyPayload where
  command : TlmCommand := .ignore
  address : UInt64 := 0
  responseStatus : TlmResponseStatus := .incomplete
  streamingWidth : UInt32 := 0
  data : List (Option UInt8) := []
  dataLength : UInt32 := 0
  deriving DecidableEq

/-- `flitToPacket` with `trans` as the new payload, at the cycle of the event queue. -/
def flitToPacket (flit : Flit) (trans : PayloadPtr) (currentCycle : UInt64) :
    Option (Packet × ReplyPayload) := do
  let payload : ReplyPayload := {
    command := .response
    address := flit.srcAddr.toUInt64
    responseStatus := .ok
    streamingWidth := flit.dataLength.toUInt32 }
  let payload ←
    if flit.dataLength > 0 then
      -- the copy reads no more than the flit holds
      if flit.dataLength ≤ dataSize then
        some { payload with data := flit.bytes, dataLength := flit.dataLength.toUInt32 }
      else none
    else some payload
  return ({
    payload := some trans
    srcCycle := currentCycle
    type := .resp
    seqNum := flit.packetId
    vcId := flit.vcId
    priority := flit.priority }, payload)

end GemSc
