import GemSc.Lib.Delimited
import GemSc.Noc.MeshFlows
import GemSc.Noc.Segmentation

/-! Packets across the mesh. The flits that come out for a flow of packets are cut after each flit
that closes a packet, and what lies between two cuts is a packet. -/

namespace GemSc
open Delimited Segments RouterMesh

abbrev PacketData := Packet × DataPayload

def flitsOf (p : PacketData) : List Flit := (packetToFlits p.1 p.2).getD []

/-- What the flits of a packet say: its identifier and its bytes. -/
abbrev PacketContents := Option UInt64 × List (Option UInt8)

def contents (p : PacketData) : PacketContents := (some p.1.seqNum, p.2.data.map some)

def reassemble (flits : List Flit) : List PacketContents :=
  (cut Flit.Closes [] flits).map fun frame =>
    (frame.head?.map Flit.packetId, frame.flatMap Flit.bytes)

variable {packets : List PacketData} {flits flits' : List Flit}

theorem reassemble_isPrefix (h : flits <+: flits') : reassemble flits <+: reassemble flits' :=
  (cut_isPrefix h).map _

theorem flitsOf_eq (p : PacketData) : flitsOf p =
    frames (flitOf p.1 p.2 .head) (flitOf p.1 p.2 .body) (flitOf p.1 p.2 .tail)
      (flitOf p.1 p.2 .headTail) (segments 8 p.2.data) := by
  unfold flitsOf
  rw [packetToFlits_eq]
  rfl

theorem group_flitsOf {p : PacketData} (hne : p.2.data ≠ []) : Group Flit.Closes (flitsOf p) := by
  rw [flitsOf_eq]
  exact (framed_frames hne).closedOnce

theorem bytes_flitsOf (p : PacketData) : (flitsOf p).flatMap Flit.bytes = p.2.data.map some := by
  have hk : 0 < 8 := by norm_num
  have hbytes : ∀ type, ∀ s ∈ segments 8 p.2.data, (flitOf p.1 p.2 type s).bytes = s.map some :=
    fun type s hs => bytes_flitOf type (length_le_of_mem hk hs)
  rw [flitsOf_eq, flatMap_frames rfl fun s hs =>
    ⟨hbytes _ s hs, hbytes _ s hs, hbytes _ s hs, hbytes _ s hs⟩, flatten_segments hk]

theorem packetId_flitsOf (p : PacketData) :
    (flitsOf p).head?.map Flit.packetId = some p.1.seqNum := by
  rw [flitsOf_eq]
  match segments 8 p.2.data with
  | [] => rfl
  | [_] => rfl
  | _ :: _ :: _ => rfl

theorem reassemble_flatMap (hne : ∀ p ∈ packets, p.2.data ≠ []) :
    reassemble (packets.flatMap flitsOf) = packets.map contents := by
  have hgroups : ∀ g ∈ packets.map flitsOf, Group Flit.Closes g := by
    intro g hg
    obtain ⟨p, hp, rfl⟩ := List.mem_map.mp hg
    exact group_flitsOf (hne p hp)
  have hcontents : (fun frame : List Flit =>
      (frame.head?.map Flit.packetId, frame.flatMap Flit.bytes)) ∘ flitsOf = contents := by
    funext p
    exact Prod.ext (packetId_flitsOf p) (bytes_flitsOf p)
  unfold reassemble
  rw [List.flatMap_def, cut_flatten hgroups, List.map_map, hcontents]

def nineBytes : PacketData := ({ seqNum := 3 }, ⟨1, [1, 2, 3, 4, 5, 6, 7, 8, 9], by decide⟩)

def nineFlits : List Flit :=
  [flitOf nineBytes.1 nineBytes.2 .head [1, 2, 3, 4, 5, 6, 7, 8],
    flitOf nineBytes.1 nineBytes.2 .tail [9]]

theorem flitsOf_nineBytes : [nineBytes].flatMap flitsOf = nineFlits := by
  have hk : 0 < 8 := by norm_num
  have hne : nineBytes.2.data ≠ [] := List.cons_ne_nil _ _
  have hrest : nineBytes.2.data.drop 8 ≠ [] := List.cons_ne_nil _ _
  rw [List.flatMap_singleton, flitsOf_eq, segments_of_ne_nil hk hne,
    segments_of_length_le hk hrest (by decide)]
  rfl

theorem data_ne_nil_nine : ∀ p ∈ [nineBytes], p.2.data ≠ [] := by
  intro p hp
  rw [List.mem_singleton.mp hp]
  exact List.cons_ne_nil _ _

theorem pair_nodup : ([(0, 0), (1, 0)] : List MeshNode).Nodup := by decide

def nineEdges (t : ℕ) : MeshEdge (rectangle 1 2) Flit :=
  .inTurn _ (fun p => ⟨fun d => (t == 0 || t == 2) && p == (0, 0) && d == .localPort,
    fun _ => nineFlits.getD (t / 2) .init, fun _ => true⟩) [(0, 0), (1, 0)] pair_nodup mem_pair

namespace MeshFlow
variable {header : Flit → UInt64} {rows cols : ℕ}

/-- Whatever else is in the mesh, what is put together from the flits of a flow of packets that
come out are the first of these packets, complete and in order. -/
theorem run_reassembles (flow : MeshFlow header rows cols) (flit : Flit)
    (edges : List (MeshEdge (rectangle rows cols) Flit))
    (henters : flow.EntersAtSource ((new flit).run header (rectangle rows cols) edges))
    (hne : ∀ p ∈ packets, p.2.data ≠ [])
    (hpackets : flow.entered ((new flit).run header (rectangle rows cols) edges) <+:
      packets.flatMap flitsOf) :
    reassemble (flow.left ((new flit).run header (rectangle rows cols) edges)) <+:
      packets.map contents := by
  have hsettled := (settled_new header (rectangle rows cols) flit).run edges
  have hleft := (left_isPrefix hsettled henters).trans hpackets
  rw [← reassemble_flatMap hne]
  exact reassemble_isPrefix hleft

theorem mem_outerPorts_pair : ((0, 0), .localPort) ∈ outerPorts (rectangle 1 2) := by decide

theorem mem_rectangle_pair : (1, 0) ∈ rectangle 1 2 := by decide

def nineFlow : MeshFlow (fun f : Flit => f.destAddr.toUInt64) 1 2 where
  carries := fun f => f.destAddr == 1
  source := ((0, 0), .localPort)
  dest := (1, 0)
  source_mem := mem_outerPorts_pair
  dest_mem := mem_rectangle_pair
  addressed := fun f hf => by
    have haddr : f.destAddr = 1 := eq_of_beq hf
    unfold destination destAddr
    simp only [haddr]
    rfl

theorem entersAtSource_nine (t : ℕ) : nineFlow.EntersAtSource
    (before (fun f => f.destAddr.toUInt64) (rectangle 1 2) .init nineEdges t) := by
  refine entersAtSource_of_foreign (fun t a _ hne hreq => ?_) t
  obtain ⟨p, d⟩ := a
  change ((t == 0 || t == 2) && p == (0, 0) && d == .localPort) = true at hreq
  have hport : ¬ (p = (0, 0) ∧ d = .localPort) := fun h => hne (Prod.ext h.1 h.2)
  grind

theorem run_reassembles_nine :
    reassemble (nineFlow.left ((new .init).run (fun f => f.destAddr.toUInt64) (rectangle 1 2)
        ((List.range 16).map nineEdges))) <+: [nineBytes].map contents := by
  refine run_reassembles nineFlow .init _ (entersAtSource_nine 16) data_ne_nil_nine ?_
  rw [flitsOf_nineBytes]
  decide +kernel

/-- Packets that came in come out some time later, and can be put together again. -/
theorem run_eventuallyReassembles (flow : MeshFlow header rows cols) (flit : Flit)
    (edges : ℕ → MeshEdge (rectangle rows cols) Flit) (hack : Acknowledged header flit edges)
    (henters : ∀ t, flow.EntersAtSource (before header (rectangle rows cols) flit edges t))
    (hne : ∀ p ∈ packets, p.2.data ≠ []) (t : ℕ)
    (hpackets : packets.flatMap flitsOf <+:
      flow.entered (before header (rectangle rows cols) flit edges t)) :
    ∃ t' ≥ t, packets.map contents <+:
      reassemble (flow.left (before header (rectangle rows cols) flit edges t')) := by
  obtain ⟨t', ht', hleft⟩ := exists_left henters hack t
  refine ⟨t', ht', ?_⟩
  rw [← reassemble_flatMap hne]
  exact reassemble_isPrefix (hpackets.trans hleft)

theorem run_eventuallyReassembles_nine : ∃ t' ≥ 3, [nineBytes].map contents <+:
    reassemble (nineFlow.left
      (before (fun f => f.destAddr.toUInt64) (rectangle 1 2) .init nineEdges t')) := by
  refine run_eventuallyReassembles nineFlow .init nineEdges (fun _ _ _ _ => rfl)
    entersAtSource_nine data_ne_nil_nine 3 ?_
  rw [flitsOf_nineBytes]
  decide +kernel

end MeshFlow
end GemSc
