import GemSc.Config.Names
import GemSc.Lib.Owners

/-! The generator of mesh configurations. -/

namespace GemSc

structure MeshTopology where
  rows : ℕ
  cols : ℕ

structure NodeDict where
  name : String
  type : String
  deriving DecidableEq

structure ConnectionDict where
  src : String
  dst : String
  deriving DecidableEq

namespace MeshTopology

def nodeId (y x : ℕ) : String := "r" ++ toString y ++ "_" ++ toString x

def generateNodes (t : MeshTopology) : List NodeDict :=
  (List.range t.rows).foldl (fun nodes y =>
    (List.range t.cols).foldl (fun nodes x => nodes ++ [⟨nodeId y x, "Router"⟩]) nodes) []

/-- What the body of the loops of `generate_connections` appends. -/
def cellConnections (t : MeshTopology) (y x : ℕ) : List ConnectionDict :=
  let current := nodeId y x
  (if x < t.cols - 1 then
    let east := nodeId y (x + 1)
    [⟨current ++ ".E_out", east ++ ".W_in"⟩, ⟨east ++ ".W_out", current ++ ".E_in"⟩]
  else []) ++
  (if y < t.rows - 1 then
    let south := nodeId (y + 1) x
    [⟨current ++ ".S_out", south ++ ".N_in"⟩, ⟨south ++ ".N_out", current ++ ".S_in"⟩]
  else [])

def generateConnections (t : MeshTopology) : List ConnectionDict :=
  (List.range t.rows).foldl (fun connections y =>
    (List.range t.cols).foldl (fun connections x => connections ++ t.cellConnections y x)
      connections) []

end MeshTopology

inductive Side
  | east
  | west
  | south
  | north
  deriving DecidableEq

namespace Side

def opposite : Side → Side
  | east => west
  | west => east
  | south => north
  | north => south

def outPort : Side → String
  | east => "E_out"
  | west => "W_out"
  | south => "S_out"
  | north => "N_out"

def inPort : Side → String
  | east => "E_in"
  | west => "W_in"
  | south => "S_in"
  | north => "N_in"

/-- The side of `p`, in row `p.1` and column `p.2`, that `q` lies at. -/
def Leads : Side → ℕ × ℕ → ℕ × ℕ → Prop
  | east, p, q => q = (p.1, p.2 + 1)
  | west, p, q => p = (q.1, q.2 + 1)
  | south, p, q => q = (p.1 + 1, p.2)
  | north, p, q => p = (q.1 + 1, q.2)

end Side

structure MeshLink where
  src : ℕ × ℕ
  side : Side
  dst : ℕ × ℕ
  deriving DecidableEq

namespace MeshLink

def connection (l : MeshLink) : ConnectionDict where
  src := MeshTopology.nodeId l.src.1 l.src.2 ++ "." ++ l.side.outPort
  dst := MeshTopology.nodeId l.dst.1 l.dst.2 ++ "." ++ l.side.opposite.inPort

end MeshLink

namespace MeshTopology
variable (t : MeshTopology)

def cells : List (ℕ × ℕ) :=
  (List.range t.rows).flatMap fun y => (List.range t.cols).map fun x => (y, x)

def cellLinks (p : ℕ × ℕ) : List MeshLink :=
  (if p.2 < t.cols - 1 then
    [⟨p, .east, (p.1, p.2 + 1)⟩, ⟨(p.1, p.2 + 1), .west, p⟩] else []) ++
  (if p.1 < t.rows - 1 then
    [⟨p, .south, (p.1 + 1, p.2)⟩, ⟨(p.1 + 1, p.2), .north, p⟩] else [])

def links : List MeshLink := t.cells.flatMap t.cellLinks

/-! Names and ports -/

theorem notMem_digits {c : Char} (hc : c.isDigit = false) (n : ℕ) : c ∉ (toString n).toList := by
  intro hmem
  have hdigit := Nat.isDigit_of_mem_toDigits (by decide) le_rfl (Nat.toList_repr ▸ hmem)
  rw [hc] at hdigit
  contradiction

theorem toList_nodeId (y x : ℕ) :
    (nodeId y x).toList = 'r' :: ((toString y).toList ++ '_' :: (toString x).toList) := by
  simp [nodeId]

-- The underscore is the only character of a name that is no digit, after the first.
theorem nodeId_inj {p q : ℕ × ℕ} : nodeId p.1 p.2 = nodeId q.1 q.2 ↔ p = q := by
  constructor
  · intro heq
    have hlist := congrArg String.toList heq
    rw [toList_nodeId, toList_nodeId, List.cons_inj_right,
      List.append_cons_inj_of_notMem (notMem_digits rfl _) (notMem_digits rfl _)] at hlist
    have hrow := Nat.repr_injective (String.toList_injective hlist.1)
    have hcol := Nat.repr_injective (String.toList_injective hlist.2.2)
    exact Prod.ext hrow hcol
  · intro heq
    rw [heq]

theorem dot_notMem_nodeId (y x : ℕ) : '.' ∉ (nodeId y x).toList := by
  have hrow : '.' ∉ (toString y).toList := notMem_digits rfl y
  have hcol : '.' ∉ (toString x).toList := notMem_digits rfl x
  rw [toList_nodeId]
  simp only [List.mem_cons, List.mem_append, not_or]
  exact ⟨by decide, hrow, by decide, hcol⟩

/-! The loops -/

theorem generateNodes_eq : t.generateNodes = t.cells.map fun p => ⟨nodeId p.1 p.2, "Router"⟩ := by
  unfold generateNodes
  rw [Owners.foldl_pairs, ← List.map_eq_flatMap]
  rfl

theorem cellConnections_eq (y x : ℕ) :
    t.cellConnections y x = (t.cellLinks (y, x)).map MeshLink.connection := by
  have port (name : String) (port : String) : name ++ "." ++ port = name ++ ("." ++ port) :=
    String.append_assoc
  unfold cellConnections cellLinks
  rw [List.map_append]
  refine congrArg₂ (· ++ ·) ?_ ?_
  · split_ifs
    · simp only [List.map_cons, List.map_nil, MeshLink.connection, port]
      rfl
    · rfl
  · split_ifs
    · simp only [List.map_cons, List.map_nil, MeshLink.connection, port]
      rfl
    · rfl

theorem generateConnections_eq : t.generateConnections = t.links.map MeshLink.connection := by
  unfold generateConnections links
  rw [Owners.foldl_pairs, List.map_flatMap]
  exact congrArg (List.flatMap · t.cells) (funext fun p => t.cellConnections_eq p.1 p.2)

end MeshTopology
end GemSc
