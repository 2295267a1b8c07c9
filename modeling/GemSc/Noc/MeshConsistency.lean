import GemSc.Noc.MeshTopology

/-! In a generated mesh every router is joined with each of its neighbours, once each way, and
no port is used by two connections. -/

namespace GemSc

namespace Side
variable {s s' : Side} {p q : ℕ × ℕ}

def neighbour : Side → ℕ × ℕ → ℕ × ℕ
  | east, p => (p.1, p.2 + 1)
  | west, p => (p.1, p.2 - 1)
  | south, p => (p.1 + 1, p.2)
  | north, p => (p.1 - 1, p.2)

theorem opposite_opposite (s : Side) : s.opposite.opposite = s := by
  cases s <;> rfl

theorem leads_opposite : s.opposite.Leads q p ↔ s.Leads p q := by
  cases s <;> exact Iff.rfl

theorem Leads.neighbour_eq (h : s.Leads p q) : s.neighbour p = q := by
  cases s <;> simp_all [Leads, neighbour]

theorem Leads.unique (h : s.Leads p q) (h' : s'.Leads p q) : s = s' := by
  rw [Leads.eq_def] at h h'
  cases s <;> cases s' <;> grind

theorem outPort_ne_inPort (s s' : Side) : s.outPort ≠ s'.inPort := by
  cases s <;> cases s' <;> decide

theorem outPort_injective : Function.Injective outPort := by
  intro s s' h
  cases s <;> cases s' <;> first | rfl | exact absurd h (by decide)

theorem inPort_injective : Function.Injective inPort := by
  intro s s' h
  cases s <;> cases s' <;> first | rfl | exact absurd h (by decide)

end Side

namespace MeshLink

def maker (l : MeshLink) : ℕ × ℕ :=
  match l.side with
  | .east | .south => l.src
  | .west | .north => l.dst

end MeshLink

namespace MeshTopology
variable {t : MeshTopology} {p q : ℕ × ℕ} {l : MeshLink}

theorem mem_cells : p ∈ t.cells ↔ p.1 < t.rows ∧ p.2 < t.cols := Owners.mem_pairs

theorem nodup_cells (t : MeshTopology) : t.cells.Nodup := Owners.nodup_pairs

theorem mem_cellLinks (hp : p ∈ t.cells) : l ∈ t.cellLinks p ↔
    l.maker = p ∧ l.side.Leads l.src l.dst ∧ l.src ∈ t.cells ∧ l.dst ∈ t.cells := by
  rcases l with ⟨src, side, dst⟩
  simp only [mem_cells] at hp ⊢
  cases side <;> simp only [cellLinks, MeshLink.maker, Side.Leads] <;> grind

theorem mem_links : l ∈ t.links ↔
    l.side.Leads l.src l.dst ∧ l.src ∈ t.cells ∧ l.dst ∈ t.cells := by
  unfold links
  rw [List.mem_flatMap]
  constructor
  · rintro ⟨p, hp, hl⟩
    exact ((mem_cellLinks hp).mp hl).2
  · intro h
    have hmaker : l.maker ∈ t.cells := by
      unfold MeshLink.maker
      split
      exacts [h.2.1, h.2.1, h.2.2, h.2.2]
    exact ⟨l.maker, hmaker, (mem_cellLinks hmaker).mpr ⟨rfl, h⟩⟩

theorem nodup_links (t : MeshTopology) : t.links.Nodup := by
  apply Owners.nodup_flatMap MeshLink.maker t.nodup_cells
  · intro p _
    unfold cellLinks
    split_ifs <;> simp
  · intro p hp l hl
    exact ((mem_cellLinks hp).mp hl).1

/-! The number of links -/

open Finset in
theorem sum_lt_pred (n : ℕ) : ∑ i ∈ range n, (if i < n - 1 then 2 else 0) = 2 * (n - 1) := by
  have hfilter : {i ∈ range n | i < n - 1} = range (n - 1) := by
    ext i
    simp only [mem_filter, mem_range]
    omega
  rw [← sum_filter, hfilter, sum_const, card_range, smul_eq_mul, mul_comm]

theorem length_cellLinks (y x : ℕ) : (t.cellLinks (y, x)).length =
    (if x < t.cols - 1 then 2 else 0) + (if y < t.rows - 1 then 2 else 0) := by
  unfold cellLinks
  rw [List.length_append]
  split_ifs <;> rfl

open Finset in
theorem length_links (t : MeshTopology) :
    t.links.length = t.rows * (2 * (t.cols - 1)) + t.cols * (2 * (t.rows - 1)) := by
  have hsum : t.links.length =
      ∑ y ∈ range t.rows, ∑ x ∈ range t.cols, (t.cellLinks (y, x)).length := by
    unfold links cells
    rw [List.flatMap_assoc]
    simp only [List.flatMap_map, List.length_flatMap]
    rfl
  have hsouth : ∑ y ∈ range t.rows, ∑ _x ∈ range t.cols, (if y < t.rows - 1 then 2 else 0) =
      t.cols * (2 * (t.rows - 1)) := by
    rw [sum_comm, sum_const, card_range, smul_eq_mul, sum_lt_pred]
  rw [hsum]
  simp only [length_cellLinks, sum_add_distrib]
  rw [hsouth, sum_lt_pred, sum_const, card_range, smul_eq_mul]

theorem length_links_of_pos (hrows : 1 ≤ t.rows) (hcols : 1 ≤ t.cols) :
    t.links.length + 2 * t.rows + 2 * t.cols = 4 * t.rows * t.cols := by
  obtain ⟨rows, hr⟩ := Nat.exists_eq_add_of_le hrows
  obtain ⟨cols, hc⟩ := Nat.exists_eq_add_of_le hcols
  rw [length_links, hr, hc, Nat.add_sub_cancel_left, Nat.add_sub_cancel_left]
  ring

end MeshTopology

/-! Ports -/

structure MeshPort where
  cell : ℕ × ℕ
  side : Side
  out : Bool

namespace MeshPort

def name (e : MeshPort) : String :=
  MeshTopology.nodeId e.cell.1 e.cell.2 ++ "." ++
    if e.out then e.side.outPort else e.side.inPort

def link (e : MeshPort) : MeshLink :=
  if e.out then ⟨e.cell, e.side, e.side.neighbour e.cell⟩
  else ⟨e.side.neighbour e.cell, e.side.opposite, e.cell⟩

theorem name_injective : Function.Injective name := by
  rintro ⟨p, s, o⟩ ⟨p', s', o'⟩ h
  have hspec := congrArg parsePortSpec h
  unfold name at hspec
  rw [parsePortSpec_port (MeshTopology.dot_notMem_nodeId _ _),
    parsePortSpec_port (MeshTopology.dot_notMem_nodeId _ _), Prod.mk.injEq,
    MeshTopology.nodeId_inj] at hspec
  obtain ⟨hcell, hport⟩ := hspec
  change p = p' at hcell
  cases o <;> cases o'
  · have hside : s = s' := Side.inPort_injective hport
    rw [hcell, hside]
  · exact absurd hport.symm (Side.outPort_ne_inPort s' s)
  · exact absurd hport (Side.outPort_ne_inPort s s')
  · have hside : s = s' := Side.outPort_injective hport
    rw [hcell, hside]

end MeshPort

def MeshLink.ports (l : MeshLink) : List MeshPort :=
  [⟨l.src, l.side, true⟩, ⟨l.dst, l.side.opposite, false⟩]

theorem MeshLink.link_of_mem_ports {l : MeshLink} {e : MeshPort} (hl : l.side.Leads l.src l.dst)
    (he : e ∈ l.ports) : e.link = l := by
  have hback := (Side.leads_opposite.mpr hl).neighbour_eq
  rcases List.mem_pair.mp he with rfl | rfl
  · simp [MeshPort.link, hl.neighbour_eq]
  · simp [MeshPort.link, hback, Side.opposite_opposite]

namespace MeshTopology
variable {t : MeshTopology} {p q : ℕ × ℕ}

theorem nodup_ports (t : MeshTopology) : (t.links.flatMap MeshLink.ports).Nodup := by
  apply Owners.nodup_flatMap MeshPort.link t.nodup_links
  · intro l _
    simp [MeshLink.ports]
  · intro l hl e he
    exact MeshLink.link_of_mem_ports (mem_links.mp hl).1 he

theorem nodup_endpoints (t : MeshTopology) :
    (t.generateConnections.flatMap fun c => [c.src, c.dst]).Nodup := by
  have hnames : (t.generateConnections.flatMap fun c => [c.src, c.dst]) =
      (t.links.flatMap MeshLink.ports).map MeshPort.name := by
    rw [generateConnections_eq, List.flatMap_map, List.map_flatMap]
    rfl
  rw [hnames]
  exact t.nodup_ports.map MeshPort.name_injective

/-! Connections -/

theorem map_name_generateNodes (t : MeshTopology) :
    t.generateNodes.map NodeDict.name = t.cells.map fun p => nodeId p.1 p.2 := by
  rw [generateNodes_eq, List.map_map]
  rfl

theorem nodeId_mem_names :
    nodeId p.1 p.2 ∈ t.generateNodes.map NodeDict.name ↔ p ∈ t.cells := by
  have hinj : Function.Injective fun p : ℕ × ℕ => nodeId p.1 p.2 := fun _ _ => nodeId_inj.mp
  rw [map_name_generateNodes]
  exact List.mem_map_of_injective hinj

theorem countP_joining {s : Side} (hp : p ∈ t.cells) (hq : q ∈ t.cells) (hs : s.Leads p q) :
    (t.generateConnections.countP fun c => (parsePortSpec c.src).1 = nodeId p.1 p.2 ∧
      (parsePortSpec c.dst).1 = nodeId q.1 q.2) = 1 := by
  have hlink : ⟨p, s, q⟩ ∈ t.links := mem_links.mpr ⟨hs, hp, hq⟩
  have hcount := List.count_eq_one_of_mem t.nodup_links hlink
  rw [generateConnections_eq, List.countP_map, ← hcount]
  refine List.countP_congr fun l hl => ?_
  simp only [Function.comp_apply, MeshLink.connection, parsePortSpec_port (dot_notMem_nodeId _ _),
    nodeId_inj, decide_eq_true_eq, beq_iff_eq]
  constructor
  · rintro ⟨rfl, rfl⟩
    rw [hs.unique (mem_links.mp hl).1]
  · rintro rfl
    exact ⟨rfl, rfl⟩

structure Consistent (t : MeshTopology) : Prop where
  names : (t.generateNodes.map NodeDict.name).Nodup
  nodeCount : t.generateNodes.length = t.rows * t.cols
  joins : ∀ c ∈ t.generateConnections, ∃ (p q : ℕ × ℕ) (side : Side), side.Leads p q ∧
    nodeId p.1 p.2 ∈ t.generateNodes.map NodeDict.name ∧
    nodeId q.1 q.2 ∈ t.generateNodes.map NodeDict.name ∧
    c.src = nodeId p.1 p.2 ++ "." ++ side.outPort ∧
    c.dst = nodeId q.1 q.2 ++ "." ++ side.opposite.inPort
  once : ∀ p q : ℕ × ℕ, (∃ side : Side, side.Leads p q) →
    nodeId p.1 p.2 ∈ t.generateNodes.map NodeDict.name →
    nodeId q.1 q.2 ∈ t.generateNodes.map NodeDict.name →
    (t.generateConnections.countP fun c => (parsePortSpec c.src).1 = nodeId p.1 p.2 ∧
      (parsePortSpec c.dst).1 = nodeId q.1 q.2) = 1
  connectionCount : t.generateConnections.length + 2 * t.rows + 2 * t.cols = 4 * t.rows * t.cols
  endpoints : (t.generateConnections.flatMap fun c => [c.src, c.dst]).Nodup

theorem generated_consistent (t : MeshTopology) (hrows : 1 ≤ t.rows) (hcols : 1 ≤ t.cols) :
    t.Consistent where
  names := by
    rw [map_name_generateNodes]
    exact t.nodup_cells.map fun _ _ => nodeId_inj.mp
  nodeCount := by
    rw [generateNodes_eq, List.length_map]
    simp [cells]
  joins c hc := by
    rw [generateConnections_eq] at hc
    obtain ⟨l, hl, rfl⟩ := List.mem_map.mp hc
    obtain ⟨hleads, hsrc, hdst⟩ := mem_links.mp hl
    exact ⟨l.src, l.dst, l.side, hleads, nodeId_mem_names.mpr hsrc, nodeId_mem_names.mpr hdst,
      rfl, rfl⟩
  once p q hside hp hq := by
    obtain ⟨s, hs⟩ := hside
    exact countP_joining (nodeId_mem_names.mp hp) (nodeId_mem_names.mp hq) hs
  connectionCount := by
    rw [generateConnections_eq, List.length_map]
    exact length_links_of_pos hrows hcols
  endpoints := t.nodup_endpoints

/-- A mesh of one row. -/
theorem generated_consistent_line : MeshTopology.Consistent ⟨1, 3⟩ :=
  generated_consistent ⟨1, 3⟩ (by decide) (by decide)

end MeshTopology
end GemSc
