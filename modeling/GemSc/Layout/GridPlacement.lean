import GemSc.Layout.ForceDirected
import GemSc.Lib.ExceptFold
import GemSc.Lib.GridCells
import GemSc.Lib.Writes

/-! The grid placement of a group puts its members into cells of their own, inside the square
around the centre. -/

namespace GemSc

section
variable {α : Type} [Zero α] [DecidableEq α] {a b : α}

theorem checkedDiv_eq [Div α] (hb : b ≠ 0) : checkedDiv a b = .ok (a / b) := if_neg hb

theorem checkedMod_eq [Mod α] (hb : b ≠ 0) : checkedMod a b = .ok (a % b) := if_neg hb

end

variable {K : Type}

namespace ForceDirectedLayout
variable {s : ForceDirectedLayout K} {spot : ℕ → Except ArithFault (Point K)}
  {members : List String} {place : ℕ → Point K}

def write (s : ForceDirectedLayout K) (entries : List (String × Option (Point K))) :
    ForceDirectedLayout K :=
  { s with positions := Writes.writeAll s.positions entries }

theorem placeEach_eq (hspot : ∀ i, spot i = .ok (place i))
    (hfree : ∀ name ∈ members, name ∉ s.fixedNodes) :
    s.placeEach spot members =
      .ok (s.write (members.zipIdx.map fun m => (m.1, some (place m.2)))) := by
  have hloop : ∀ (l : List (String × ℕ)) (s : ForceDirectedLayout K),
      (∀ m ∈ l, m.1 ∉ s.fixedNodes) →
      l.foldlM (fun s m => if m.1 ∈ s.fixedNodes then .ok s else do
        let p ← spot m.2
        .ok (s.setPosition m.1 p)) s =
          Except.ok (s.write (l.map fun m => (m.1, some (place m.2)))) := by
    intro l
    induction l with
    | nil =>
      intro s _
      rfl
    | cons m l ih =>
      intro s hl
      rw [List.forall_mem_cons] at hl
      rw [List.foldlM_cons, if_neg hl.1, hspot]
      exact ih (s.setPosition m.1 (place m.2)) hl.2
  exact hloop _ s fun m hm => hfree m.1 (List.fst_mem_of_mem_zipIdx hm)

theorem exists_placeEach (hspot : ∀ i, spot i = .ok (place i))
    (hfree : ∀ name ∈ members, name ∉ s.fixedNodes) (hnodup : members.Nodup) :
    ∃ s', s.placeEach spot members = .ok s' ∧
      ∀ i name, members[i]? = some name → s'.positions name = some (place i) := by
  have hkeys : ((members.zipIdx.map fun m => (m.1, some (place m.2))).map Prod.fst).Nodup := by
    rw [List.map_map]
    exact (List.zipIdx_map_fst 0 members).symm ▸ hnodup
  refine ⟨_, placeEach_eq hspot hfree, fun i name hi => ?_⟩
  apply Writes.writeAll_of_mem hkeys
  exact List.mem_map.mpr ⟨(name, i), List.mk_mem_zipIdx_iff_getElem?.mpr hi, rfl⟩

end ForceDirectedLayout

variable [Field K]

namespace PlacementGrid
variable {grid : PlacementGrid K} {n : ℕ} {w h : K}

def ofCount (n : ℕ) (w h : K) : PlacementGrid K :=
  let cols := max 1 n.sqrt
  let rows := (n + cols - 1) / cols
  ⟨cols, rows, w / (max 1 (cols - 1) : ℕ), h / (max 1 (rows - 1) : ℕ)⟩

theorem spot_eq (hcols : grid.cols ≠ 0) (left top : K) (i : ℕ) :
    grid.spot left top i = .ok (.at (left + (i % grid.cols : ℕ) * grid.cellW)
      (top + (i / grid.cols : ℕ) * grid.cellH)) := by
  unfold spot
  rw [checkedDiv_eq hcols, checkedMod_eq hcols]
  rfl

theorem ofCount_cols_pos (n : ℕ) (w h : K) : 0 < (ofCount n w h).cols :=
  Nat.lt_of_lt_of_le Nat.one_pos (Nat.le_max_left 1 n.sqrt)

def crossing (grid : PlacementGrid K) (w h left top : K) (i : ℕ) : Point K :=
  .at (GridCells.line left w grid.cols (i % grid.cols))
    (GridCells.line top h grid.rows (i / grid.cols))

theorem spot_ofCount (n : ℕ) (w h left top : K) (i : ℕ) :
    (ofCount n w h).spot left top i = .ok ((ofCount n w h).crossing w h left top i) :=
  spot_eq (ofCount_cols_pos n w h).ne' left top i

variable [LinearOrder K] [IsStrictOrderedRing K]

theorem make_eq (n : ℕ) (w h : K) : make n w h = .ok (ofCount n w h) := by
  have hcols : max 1 n.sqrt ≠ 0 := (ofCount_cols_pos n w h).ne'
  have hsize (m : ℕ) : ((max 1 (m - 1) : ℕ) : K) ≠ 0 := (GridCells.divisor_pos m).ne'
  refine ExceptFold.bind_eq_ok.mpr ⟨_, checkedDiv_eq hcols, ?_⟩
  refine ExceptFold.bind_eq_ok.mpr ⟨_, checkedDiv_eq (hsize _), ?_⟩
  exact ExceptFold.bind_eq_ok.mpr ⟨_, checkedDiv_eq (hsize _), rfl⟩

structure Holds (grid : PlacementGrid K) (s : ForceDirectedLayout K) (members : List String)
    (centerX centerY radius : K) : Prop where
  cells : ∀ i name, members[i]? = some name → ∃ row col, checkedDiv i grid.cols = .ok row ∧
    checkedMod i grid.cols = .ok col ∧ row < grid.rows ∧ col < grid.cols ∧
    s.positions name = some (.at (centerX - radius + col * grid.cellW)
      (centerY - radius + row * grid.cellH))
  inside : ∀ name ∈ members, ∃ p, s.positions name = some p ∧
    p.x ∈ Set.Icc (centerX - radius) (centerX + radius) ∧
    p.y ∈ Set.Icc (centerY - radius) (centerY + radius)
  apart : ∀ name ∈ members, ∀ name' ∈ members, name ≠ name' → ∀ p p',
    s.positions name = some p → s.positions name' = some p' → (p.x, p.y) ≠ (p'.x, p'.y)

variable {s : ForceDirectedLayout K} {members : List String} {centerX centerY radius : K}

theorem holds_of_crossings (hradius : 0 < radius)
    (hplace : ∀ i name, members[i]? = some name → s.positions name =
      some (grid.crossing (2 * radius) (2 * radius) (centerX - radius) (centerY - radius) i))
    (hgrid : grid = ofCount members.length (2 * radius) (2 * radius)) :
    grid.Holds s members centerX centerY radius := by
  have hwidth : 0 < 2 * radius := mul_pos two_pos hradius
  have hcols : 0 < grid.cols := hgrid ▸ ofCount_cols_pos members.length (2 * radius) (2 * radius)
  have hrow : ∀ i name, members[i]? = some name → i / grid.cols < grid.rows := by
    intro i name hi
    have hlt : i < members.length := (List.getElem?_eq_some_iff.mp hi).1
    rw [hgrid] at hcols ⊢
    exact GridCells.row_lt hcols hlt
  have hcol (i : ℕ) : i % grid.cols < grid.cols := Nat.mod_lt i hcols
  have hend (c : K) : c - radius + 2 * radius = c + radius := by ring
  constructor
  · intro i name hi
    refine ⟨i / grid.cols, i % grid.cols, checkedDiv_eq hcols.ne', checkedMod_eq hcols.ne',
      hrow i name hi, hcol i, ?_⟩
    rw [hplace i name hi, hgrid]
    rfl
  · intro name hname
    obtain ⟨i, hi⟩ := List.mem_iff_getElem?.mp hname
    have hx := GridCells.line_mem_Icc (centerX - radius) hwidth.le (hcol i)
    have hy := GridCells.line_mem_Icc (centerY - radius) hwidth.le (hrow i name hi)
    rw [hend] at hx hy
    exact ⟨_, hplace i name hi, hx, hy⟩
  · intro name hname name' hname' hne p p' hp hp' heq
    obtain ⟨i, hi⟩ := List.mem_iff_getElem?.mp hname
    obtain ⟨j, hj⟩ := List.mem_iff_getElem?.mp hname'
    rw [hplace i name hi, Option.some_inj] at hp
    rw [hplace j name' hj, Option.some_inj] at hp'
    rw [← hp, ← hp', Prod.mk.injEq] at heq
    -- Equal places are equal lines, and so the same cell.
    have hcell : i = j :=
      GridCells.eq_of_row_col ((GridCells.line_inj hwidth).mp heq.2)
        ((GridCells.line_inj hwidth).mp heq.1)
    rw [hcell, hj, Option.some_inj] at hi
    exact hne hi.symm

end PlacementGrid

namespace ForceDirectedLayout
variable [LinearOrder K] [IsStrictOrderedRing K]

theorem setGroupPlacement_grid (params : LayoutParams K) (s : ForceDirectedLayout K)
    (groupName : String) (members : List String) (centerX centerY radius : K)
    (hmembers : 1 ≤ members.length) (hnodup : members.Nodup)
    (hfree : ∀ name ∈ members, name ∉ s.fixedNodes) (hradius : 0 < radius) :
    ∃ grid s', PlacementGrid.make members.length (2 * radius) (2 * radius) = .ok grid ∧
      s.setGroupPlacement params groupName members "grid" centerX centerY radius = .ok s' ∧
      grid.Holds s' members centerX centerY radius := by
  have hhalf : 2 * radius / 2 = radius := mul_div_cancel_left₀ radius two_ne_zero
  have hmake := PlacementGrid.make_eq members.length (2 * radius) (2 * radius)
  obtain ⟨s', hplaced, hplace⟩ := exists_placeEach
    (PlacementGrid.spot_ofCount members.length (2 * radius) (2 * radius) (centerX - radius)
      (centerY - radius)) hfree hnodup
  refine ⟨_, s', hmake, ?_, PlacementGrid.holds_of_crossings hradius hplace rfl⟩
  unfold setGroupPlacement
  rw [if_neg (Nat.ne_of_gt hmembers), if_pos rfl]
  refine ExceptFold.bind_eq_ok.mpr ⟨_, hmake, ?_⟩
  rw [hhalf]
  exact hplaced

/-- Five members take two columns and three rows, the last of them half empty. -/
theorem setGroupPlacement_grid_five : ∃ (grid : PlacementGrid ℚ) (s' : ForceDirectedLayout ℚ),
    PlacementGrid.make 5 (2 * 80) (2 * 80) = .ok grid ∧
      setGroupPlacement rationalParams .initial "cluster" ["a", "b", "c", "d", "e"] "grid" 300 200
        80 = .ok s' ∧ grid.Holds s' ["a", "b", "c", "d", "e"] 300 200 80 :=
  setGroupPlacement_grid rationalParams .initial "cluster" ["a", "b", "c", "d", "e"] 300 200 80
    (by decide) (by decide) (fun _ _ => Finset.notMem_empty _) (by norm_num)

end ForceDirectedLayout
end GemSc
