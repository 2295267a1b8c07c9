import GemSc.Noc.MeshConsistency
import GemSc.Noc.MeshDelivery

/-! The connections that the generator writes for a mesh are those between the routers on the nodes
of the mesh. -/

namespace GemSc
open RouterMesh MeshTopology

def Side.direction : Side → Direction
  | .east => .east
  | .west => .west
  | .south => .south
  | .north => .north

def MeshNode.cell (p : MeshNode) : ℕ × ℕ := (p.2.toNat, p.1.toNat)

namespace MeshWiring
variable {rows cols : ℕ} {p q : MeshNode} {s s' : Side}

theorem direction_injective : Function.Injective Side.direction := by
  intro s s' h
  cases s <;> cases s' <;> first | rfl | cases h

theorem direction_ne_localPort (s : Side) : s.direction ≠ .localPort := by
  cases s <;> decide

theorem direction_opposite (s : Side) : s.opposite.direction = s.direction.opposite := by
  cases s <;> rfl

theorem mem_cells_iff : p.cell ∈ cells ⟨rows, cols⟩ ↔ p ∈ rectangle rows cols := by
  rw [mem_cells, mem_rectangle]
  exact and_comm

theorem leads_of_eq_add_one {a b : UInt32} (h : b.toNat = a.toNat + 1) :
    b = a + 1 ∧ a = b - 1 := by
  have heq : b = a + 1 := by
    apply UInt32.toNat_inj.mp
    rw [toNat_add_one (b := b) (by omega), h]
  exact ⟨heq, by rw [heq, add_sub_cancel_right]⟩

theorem toNat_succ {a : UInt32} {n : ℕ} (hn : n < 2 ^ 32) (ha : a.toNat < n)
    (h : (a + 1).toNat < n) : (a + 1).toNat = a.toNat + 1 := by
  rw [UInt32.toNat_add] at h ⊢
  change (a.toNat + 1) % 2 ^ 32 < n at h
  change (a.toNat + 1) % 2 ^ 32 = a.toNat + 1
  omega

theorem toNat_pred {a : UInt32} {n : ℕ} (hn : n < 2 ^ 32) (h : (a - 1).toNat < n) :
    a.toNat = (a - 1).toNat + 1 := by
  have hadd : a - 1 + 1 = a := sub_add_cancel a 1
  have hnat := congrArg UInt32.toNat hadd
  rw [UInt32.toNat_add] at hnat
  change ((a - 1).toNat + 1) % 2 ^ 32 = a.toNat at hnat
  omega

theorem leads_iff (hrows : rows < 2 ^ 32) (hcols : cols < 2 ^ 32) (hp : p ∈ rectangle rows cols)
    (hq : q ∈ rectangle rows cols) : s.Leads p.cell q.cell ↔ q = p.hop s.direction := by
  obtain ⟨px, py⟩ := p
  obtain ⟨qx, qy⟩ := q
  rw [mem_rectangle] at hp hq
  unfold MeshNode.cell
  constructor
  · intro h
    cases s with
    | east =>
      obtain ⟨hy, hx⟩ := Prod.mk.inj h
      exact Prod.ext (leads_of_eq_add_one hx).1 (UInt32.toNat_inj.mp hy)
    | west =>
      obtain ⟨hy, hx⟩ := Prod.mk.inj h
      exact Prod.ext (leads_of_eq_add_one hx).2 (UInt32.toNat_inj.mp hy.symm)
    | south =>
      obtain ⟨hy, hx⟩ := Prod.mk.inj h
      exact Prod.ext (UInt32.toNat_inj.mp hx) (leads_of_eq_add_one hy).1
    | north =>
      obtain ⟨hy, hx⟩ := Prod.mk.inj h
      exact Prod.ext (UInt32.toNat_inj.mp hx.symm) (leads_of_eq_add_one hy).2
  · intro h
    cases s with
    | east =>
      obtain ⟨rfl, rfl⟩ := Prod.mk.inj h
      exact Prod.ext rfl (toNat_succ hcols hp.1 hq.1)
    | west =>
      obtain ⟨rfl, rfl⟩ := Prod.mk.inj h
      exact Prod.ext rfl (toNat_pred hcols hq.1)
    | south =>
      obtain ⟨rfl, rfl⟩ := Prod.mk.inj h
      exact Prod.ext (toNat_succ hrows hp.2 hq.2) rfl
    | north =>
      obtain ⟨rfl, rfl⟩ := Prod.mk.inj h
      exact Prod.ext (toNat_pred hrows hq.2) rfl

theorem connection_eq (l : MeshLink) : l.connection =
    ⟨MeshPort.name ⟨l.src, l.side, true⟩, MeshPort.name ⟨l.dst, l.side.opposite, false⟩⟩ := rfl

/-- The generator connects an output with an input exactly when the routers on the nodes of the mesh
have that connection. -/
theorem generates_iff_faces (rows cols : ℕ) (hrows : rows < 2 ^ 32) (hcols : cols < 2 ^ 32)
    (p q : MeshNode) (hp : p ∈ rectangle rows cols) (hq : q ∈ rectangle rows cols) (s s' : Side) :
    (⟨MeshPort.name ⟨p.cell, s, true⟩, MeshPort.name ⟨q.cell, s', false⟩⟩ : ConnectionDict) ∈
        generateConnections ⟨rows, cols⟩ ↔
      Faces (rectangle rows cols) p s.direction ∧ q = p.hop s.direction ∧
        s'.direction = s.direction.opposite := by
  rw [generateConnections_eq]
  constructor
  · intro h
    obtain ⟨l, hl, heq⟩ := List.mem_map.mp h
    rw [connection_eq] at heq
    obtain ⟨hsrc, hdst⟩ := ConnectionDict.mk.inj heq
    obtain ⟨hfrom, hside, -⟩ := MeshPort.mk.inj (MeshPort.name_injective hsrc)
    obtain ⟨hto, hopposite, -⟩ := MeshPort.mk.inj (MeshPort.name_injective hdst)
    obtain ⟨hleads, -, -⟩ := mem_links.mp hl
    rw [hfrom, hside, hto] at hleads
    have hhop := (leads_iff hrows hcols hp hq).mp hleads
    refine ⟨⟨direction_ne_localPort s, hhop ▸ hq⟩, hhop, ?_⟩
    rw [← hopposite, hside, direction_opposite]
  · rintro ⟨-, hhop, hopposite⟩
    have hside : s' = s.opposite := direction_injective (hopposite.trans (direction_opposite s).symm)
    subst hside
    refine List.mem_map.mpr ⟨⟨p.cell, s, q.cell⟩, mem_links.mpr ⟨?_, ?_, ?_⟩, rfl⟩
    · exact (leads_iff hrows hcols hp hq).mpr hhop
    · exact mem_cells_iff.mpr hp
    · exact mem_cells_iff.mpr hq

/-- In a mesh of two routers the only ways are those between the two. -/
theorem generates_iff_faces_pair :
    (⟨MeshPort.name ⟨MeshNode.cell (0, 0), .east, true⟩,
        MeshPort.name ⟨MeshNode.cell (1, 0), .west, false⟩⟩ : ConnectionDict) ∈
        generateConnections ⟨1, 2⟩ ↔
      Faces (rectangle 1 2) (0, 0) Side.east.direction ∧
        ((1, 0) : MeshNode) = MeshNode.hop Side.east.direction (0, 0) ∧
        Side.west.direction = Side.east.direction.opposite :=
  generates_iff_faces 1 2 (by norm_num) (by norm_num) (0, 0) (1, 0) (by decide) (by decide) .east
    .west

end MeshWiring
end GemSc
