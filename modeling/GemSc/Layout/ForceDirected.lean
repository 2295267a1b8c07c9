import Mathlib

/-! The layout of a topology: nodes are placed, and then moved by forces that push them apart
and pull each group together. Numbers are exact, in an ordered field; a division by zero in a
placement is an error. The two forces, the square root and the trigonometric functions, and the
orders in which unordered maps are gone through, are parameters. -/

namespace GemSc

structure Point (K : Type) where
  x : K
  y : K
  vx : K
  vy : K
  deriving DecidableEq

structure HashOrder (α : Type) where
  visit : List α → List α
  perm : ∀ l, (visit l).Perm l

structure LayoutParams (K : Type) where
  repulsion : K → K
  confinement : K → K
  sqrt : K → K
  cos : K → K
  sin : K → K
  pi : K
  toInt : K → ℤ
  groupOrder : HashOrder ((_ : String) × String)
  centerOrder : HashOrder ((_ : String) × List (Point K))

/-- The forces of the layout over the rationals, with the roots of squares and the first terms
of the two series. -/
def rationalParams : LayoutParams ℚ where
  repulsion d := 100 * 100 / (d + 1 / 1000000)
  confinement dist := 5 / 100 * dist
  sqrt q := q.num.toNat.sqrt / q.den.sqrt
  cos angle := 1 - angle * angle / 2
  sin angle := angle
  pi := 355 / 113
  toInt q := if 0 ≤ q then ⌊q⌋ else ⌈q⌉
  groupOrder := ⟨fun l => l, fun l => .refl l⟩
  centerOrder := ⟨fun l => l, fun l => .refl l⟩

inductive ArithFault
  | divisionByZero
  deriving DecidableEq

section
variable {α : Type} [Zero α] [DecidableEq α]

def checkedDiv [Div α] (a b : α) : Except ArithFault α :=
  if b = 0 then .error .divisionByZero else .ok (a / b)

def checkedMod [Mod α] (a b : α) : Except ArithFault α :=
  if b = 0 then .error .divisionByZero else .ok (a % b)

end

structure ForceDirectedLayout (K : Type) where
  nodes : List String
  positions : String → Option (Point K)
  nodeToGroup : AList fun _ : String => String
  fixedNodes : Finset String
  temperature : K

variable {K : Type} [Field K]

def Point.at (x y : K) : Point K := ⟨x, y, 0, 0⟩

def maxIter : ℕ := 150

namespace ForceDirectedLayout

def initial : ForceDirectedLayout K where
  nodes := []
  positions _ := none
  nodeToGroup := ∅
  fixedNodes := ∅
  temperature := 100

variable (s : ForceDirectedLayout K)

/-! Maps -/

def setPosition (name : String) (p : Point K) : ForceDirectedLayout K :=
  { s with positions := Function.update s.positions name (some p) }

/-- `positions[name]` -/
def position (name : String) : Point K := (s.positions name).getD (.at 0 0)

/-- The entry that `positions[name]` makes where there is none. -/
def touch (name : String) : ForceDirectedLayout K := s.setPosition name (s.position name)

/-- `node_to_group[node]` -/
def groupOf (node : String) : String := (s.nodeToGroup.lookup node).getD ""

def setGroup (node group : String) : ForceDirectedLayout K :=
  { s with nodeToGroup := s.nodeToGroup.insert node group }

def touchGroup (node : String) : ForceDirectedLayout K := s.setGroup node (s.groupOf node)

def eachPosition (f : Point K → Point K) : ForceDirectedLayout K :=
  { s with positions := fun name => (s.positions name).map fun p =>
      if name ∈ s.fixedNodes then p else f p }

variable [LinearOrder K]

def addNode (name : String) (x y : K) : ForceDirectedLayout K :=
  let s := { s with nodes := s.nodes ++ [name] }
  if 0 ≤ x ∧ 0 ≤ y then
    { s.setPosition name (.at x y) with fixedNodes := insert name s.fixedNodes }
  else s.setPosition name (.at 0 0)

/-! Placement -/

def placeEach (spot : ℕ → Except ArithFault (Point K)) (members : List String) :
    Except ArithFault (ForceDirectedLayout K) :=
  members.zipIdx.foldlM (fun s m =>
    if m.1 ∈ s.fixedNodes then .ok s else do
      let p ← spot m.2
      .ok (s.setPosition m.1 p)) s

end ForceDirectedLayout

structure PlacementGrid (K : Type) where
  cols : ℕ
  rows : ℕ
  cellW : K
  cellH : K

namespace PlacementGrid
variable [LinearOrder K]

def make (n : ℕ) (w h : K) : Except ArithFault (PlacementGrid K) := do
  let cols := max 1 n.sqrt
  let rows ← checkedDiv (n + cols - 1) cols
  let cellW ← checkedDiv w (max 1 (cols - 1) : ℕ)
  let cellH ← checkedDiv h (max 1 (rows - 1) : ℕ)
  .ok ⟨cols, rows, cellW, cellH⟩

def spot (grid : PlacementGrid K) (left top : K) (i : ℕ) : Except ArithFault (Point K) := do
  let row ← checkedDiv i grid.cols
  let col ← checkedMod i grid.cols
  .ok (.at (left + col * grid.cellW) (top + row * grid.cellH))

end PlacementGrid

variable [LinearOrder K] (params : LayoutParams K)

def circleSpot (n : ℕ) (centerX centerY radius : K) (i : ℕ) : Except ArithFault (Point K) := do
  let angle ← checkedDiv (2 * params.pi * i) (n : K)
  .ok (.at (centerX + radius * params.cos angle) (centerY + radius * params.sin angle))

def linearSpot (n : ℕ) (centerX centerY : K) (i : ℕ) : Except ArithFault (Point K) :=
  let spacing := 60
  .ok (.at (centerX - ((n - 1 : ℕ) : K) * spacing / 2 + i * spacing) centerY)

/-- `draws` are the answers of `rand`, two for each node. -/
def randomSpot (width height : K) (draws : ℕ → ℕ × ℕ) (i : ℕ) : Except ArithFault (Point K) := do
  let x ← if params.toInt (width - 200) = 0 then .error .divisionByZero
    else .ok (((draws i).1 : ℤ).tmod (params.toInt (width - 200)))
  let y ← if params.toInt (height - 200) = 0 then .error .divisionByZero
    else .ok (((draws i).2 : ℤ).tmod (params.toInt (height - 200)))
  .ok (.at ((x + 100 : ℤ) : K) ((y + 100 : ℤ) : K))

namespace ForceDirectedLayout
variable (s : ForceDirectedLayout K)

/-- The name of the group is not used. -/
def setGroupPlacement (_groupName : String) (members : List String) (style : String)
    (centerX centerY radius : K) : Except ArithFault (ForceDirectedLayout K) :=
  let n := members.length
  if n = 0 then .ok s
  else if style = "grid" then do
    let w := 2 * radius
    let h := 2 * radius
    let grid ← PlacementGrid.make n w h
    s.placeEach (grid.spot (centerX - w / 2) (centerY - h / 2)) members
  else if style = "circle" ∨ style = "radial" then
    s.placeEach (circleSpot params n centerX centerY radius) members
  else if style = "linear" then s.placeEach (linearSpot n centerX centerY) members
  else .ok s

def setInitialPlacement (type : String) (width height : K) (draws : ℕ → ℕ × ℕ) :
    Except ArithFault (ForceDirectedLayout K) :=
  let n := s.nodes.length
  if n = 0 then .ok s
  else if type = "grid" then do
    let grid ← PlacementGrid.make n (width - 200) (height - 200)
    s.placeEach (grid.spot 100 100) s.nodes
  else if type = "circle" then
    let radius := min width height * (35 / 100)
    s.placeEach (circleSpot params n (width / 2) (height / 2) radius) s.nodes
  else s.placeEach (randomSpot params width height draws) s.nodes

/-! Forces -/

/-- What is added to `positions[name].vx` and `.vy`. -/
def accelerate (name : String) (ax ay : K) : ForceDirectedLayout K :=
  let p := s.position name
  s.setPosition name { p with vx := p.vx + ax, vy := p.vy + ay }

def distance (dx dy : K) : K := params.sqrt (dx * dx + dy * dy) + 1 / 1000000

def repel (a b : String) (s : ForceDirectedLayout K) : ForceDirectedLayout K :=
  let s := (s.touch a).touch b
  let dx := (s.position a).x - (s.position b).x
  let dy := (s.position a).y - (s.position b).y
  let dist := distance params dx dy
  let force := params.repulsion dist
  let fx := force * dx / dist
  let fy := force * dy / dist
  let s := if a ∈ s.fixedNodes then s else s.accelerate a (-fx) (-fy)
  if b ∈ s.fixedNodes then s else s.accelerate b fx fy

def repelPairs : List String → ForceDirectedLayout K → ForceDirectedLayout K
  | [], s => s
  | a :: rest, s => repelPairs rest (rest.foldl (fun s b => repel params a b s) s)

def applyRepulsion : ForceDirectedLayout K := repelPairs params s.nodes s

abbrev GroupCenters (K : Type) := AList fun _ : String => List (Point K)

def collect (acc : ForceDirectedLayout K × GroupCenters K) (entry : (_ : String) × String) :
    ForceDirectedLayout K × GroupCenters K :=
  if entry.2 = "" then acc
  else
    let s := acc.1.touch entry.1
    (s, acc.2.insert entry.2 ((acc.2.lookup entry.2).getD [] ++ [s.position entry.1]))

def confine (group : String) (centerX centerY : K) (s : ForceDirectedLayout K) (node : String) :
    ForceDirectedLayout K :=
  let s := s.touchGroup node
  if s.groupOf node = group ∧ node ∉ s.fixedNodes then
    let s := s.touch node
    let dx := (s.position node).x - centerX
    let dy := (s.position node).y - centerY
    let dist := distance params dx dy
    let force := params.confinement dist
    s.accelerate node (-(force * dx / dist)) (-(force * dy / dist))
  else s

def confineGroup (s : ForceDirectedLayout K) (center : (_ : String) × List (Point K)) :
    ForceDirectedLayout K :=
  if center.2 = [] then s
  else
    let centerX := (center.2.map Point.x).sum / center.2.length
    let centerY := (center.2.map Point.y).sum / center.2.length
    s.nodes.foldl (confine params center.1 centerX centerY) s

def applyGroupConfinement : ForceDirectedLayout K :=
  let gathered := (params.groupOrder.visit s.nodeToGroup.entries).foldl collect (s, ∅)
  (params.centerOrder.visit gathered.2.entries).foldl (confineGroup params) gathered.1

/-! The run -/

def damp (p : Point K) : Point K := { p with vx := p.vx * (8 / 10), vy := p.vy * (8 / 10) }

/-- The last loop of an iteration. -/
def move (temperature width height : K) (p : Point K) : Point K :=
  let x := p.x + p.vx * temperature / maxIter
  let y := p.y + p.vy * temperature / maxIter
  .at (max 50 (min x (width - 50))) (max 50 (min y (height - 50)))

/-- An iteration of `run`. `applyAttraction` changes nothing but a variable of its own. -/
def iteration (width height : K) (s : ForceDirectedLayout K) : ForceDirectedLayout K :=
  let s := s.eachPosition damp
  let s := s.applyRepulsion params
  let s := s.applyGroupConfinement params
  let s := s.eachPosition (move s.temperature width height)
  { s with temperature := s.temperature * (95 / 100) }

def run (width height : K) : ForceDirectedLayout K := (iteration params width height)^[maxIter] s

end ForceDirectedLayout

inductive LayoutCall (K : Type)
  | addNode (name : String) (x y : K)
  | setGroup (node group : String)
  | setGroupPlacement (groupName : String) (members : List String) (style : String)
      (centerX centerY radius : K)
  | setInitialPlacement (type : String) (width height : K) (draws : ℕ → ℕ × ℕ)
  | run (width height : K)

namespace LayoutCall

def apply (s : ForceDirectedLayout K) : LayoutCall K → Except ArithFault (ForceDirectedLayout K)
  | addNode name x y => .ok (s.addNode name x y)
  | setGroup node group => .ok (s.setGroup node group)
  | setGroupPlacement groupName members style centerX centerY radius =>
    s.setGroupPlacement params groupName members style centerX centerY radius
  | setInitialPlacement type width height draws =>
    s.setInitialPlacement params type width height draws
  | run width height => .ok (s.run params width height)

/-- An initial placement is regular, and a run has room inside its frame. -/
def Allowed : LayoutCall K → Prop
  | setInitialPlacement type _ _ _ => type = "grid" ∨ type = "circle"
  | run width height => 100 ≤ width ∧ 100 ≤ height
  | _ => True

def applyAll (calls : List (LayoutCall K)) : Except ArithFault (ForceDirectedLayout K) :=
  calls.foldlM (apply params) .initial

end LayoutCall
end GemSc
