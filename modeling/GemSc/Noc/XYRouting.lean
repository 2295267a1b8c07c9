import GemSc.Lib.Descent
import GemSc.Noc.ScTlmRouter

/-! The way of a flit through the mesh: along the row to the column of its destination, then along
the column. -/

namespace GemSc
open Function Descent ScTlmRouter

abbrev MeshNode := UInt32 × UInt32

namespace MeshNode

def hop : Direction → MeshNode → MeshNode
  | .north, (x, y) => (x, y - 1)
  | .east, (x, y) => (x + 1, y)
  | .south, (x, y) => (x, y + 1)
  | .west, (x, y) => (x - 1, y)
  | .localPort, (x, y) => (x, y)

/-- `|dx| + |dy|` -/
def distance (p q : MeshNode) : ℕ := Nat.dist p.1.toNat q.1.toNat + Nat.dist p.2.toNat q.2.toNat

end MeshNode

def Direction.Horizontal (d : Direction) : Prop := d = .east ∨ d = .west

instance : DecidablePred Direction.Horizontal := fun d =>
  inferInstanceAs (Decidable (d = .east ∨ d = .west))

section
variable {F : Type*} (header : F → UInt64) (flit : F)

def destAddr : ℕ := (header flit).toNat % 2 ^ 16

def destination : MeshNode :=
  (UInt32.ofNat (destAddr header flit % 4), UInt32.ofNat (destAddr header flit / 4))

def heading (p : MeshNode) : Direction := computeRoute header p.1 p.2 flit

def nextNode (p : MeshNode) : MeshNode := p.hop (heading header flit p)

/-- The way of a flit from the router at `p`. -/
structure XYRoute (p : MeshNode) : Prop where
  columns : ∀ k, ((nextNode header flit)^[k] p).1.toNat ≤ 3
  rowFirst : ∀ i j, i < j → (heading header flit ((nextNode header flit)^[j] p)).Horizontal →
    (heading header flit ((nextNode header flit)^[i] p)).Horizontal
  revisitsNone : ∀ i j, i < j → j ≤ p.distance (destination header flit) →
    (nextNode header flit)^[i] p ≠ (nextNode header flit)^[j] p
  arrives : (nextNode header flit)^[p.distance (destination header flit)] p = destination header flit
  notBefore : ∀ k < p.distance (destination header flit),
    (nextNode header flit)^[k] p ≠ destination header flit
  leaves : ∀ q, heading header flit q = .localPort ↔ q = destination header flit

variable {header flit} {p : MeshNode}

theorem destAddr_lt : destAddr header flit < 2 ^ 16 := Nat.mod_lt _ (by norm_num)

theorem toNat_destination_x : (destination header flit).1.toNat = destAddr header flit % 4 := by
  have hlt := Nat.mod_lt (destAddr header flit) (by norm_num : 0 < 4)
  exact UInt32.toNat_ofNat_of_lt' (hlt.trans (by norm_num))

theorem toNat_destination_y : (destination header flit).2.toNat = destAddr header flit / 4 := by
  have hle := Nat.div_le_self (destAddr header flit) 4
  exact UInt32.toNat_ofNat_of_lt' ((hle.trans_lt destAddr_lt).trans (by norm_num))

variable (header flit) in
theorem heading_eq (p : MeshNode) : heading header flit p =
    if p.1 ≠ (destination header flit).1 then
      (if (destination header flit).1 > p.1 then .east else .west)
    else if p.2 ≠ (destination header flit).2 then
      (if (destination header flit).2 > p.2 then .south else .north)
    else .localPort := by
  have haddr : (header flit &&& 0xFFFF).toUInt32.toNat = destAddr header flit := by
    rw [UInt64.toNat_toUInt32, UInt64.toNat_and, destAddr]
    have hmask : (header flit).toNat &&& (0xFFFF : UInt64).toNat = (header flit).toNat % 2 ^ 16 :=
      Nat.and_two_pow_sub_one_eq_mod _ 16
    rw [hmask]
    exact Nat.mod_eq_of_lt (destAddr_lt.trans (by norm_num))
  have hx : (header flit &&& 0xFFFF).toUInt32 % 4 = (destination header flit).1 := by
    apply UInt32.toNat_inj.mp
    rw [UInt32.toNat_mod, haddr, toNat_destination_x]
    rfl
  have hy : (header flit &&& 0xFFFF).toUInt32 / 4 = (destination header flit).2 := by
    apply UInt32.toNat_inj.mp
    rw [UInt32.toNat_div, haddr, toNat_destination_y]
    rfl
  unfold heading computeRoute
  simp only [hx, hy]

variable (header flit) in
/-- What one hop does: it goes towards the column of the destination, along that column towards the
destination, or the flit is there. -/
inductive Hop (p : MeshNode) : Prop
  | row (dir : (heading header flit p).Horizontal) (column : p.1 ≠ (destination header flit).1)
      (y : (nextNode header flit p).2 = p.2)
      (x : (p.1.toNat < (destination header flit).1.toNat ∧
          (nextNode header flit p).1.toNat = p.1.toNat + 1) ∨
        ((destination header flit).1.toNat < p.1.toNat ∧
          (nextNode header flit p).1.toNat + 1 = p.1.toNat))
  | column (dir : heading header flit p = .south ∨ heading header flit p = .north)
      (column : p.1 = (destination header flit).1) (x : (nextNode header flit p).1 = p.1)
      (y : (p.2.toNat < (destination header flit).2.toNat ∧
          (nextNode header flit p).2.toNat = p.2.toNat + 1) ∨
        ((destination header flit).2.toNat < p.2.toNat ∧
          (nextNode header flit p).2.toNat + 1 = p.2.toNat))
  | there (dir : heading header flit p = .localPort) (arrived : p = destination header flit)
      (stays : nextNode header flit p = p)

theorem toNat_add_one {a b : UInt32} (h : a.toNat < b.toNat) : (a + 1).toNat = a.toNat + 1 := by
  have hlt := b.toNat_lt
  rw [UInt32.toNat_add]
  exact Nat.mod_eq_of_lt (by
    change a.toNat + 1 < 2 ^ 32
    omega)

theorem toNat_sub_one {a b : UInt32} (h : b.toNat < a.toNat) : (a - 1).toNat + 1 = a.toNat := by
  have hle : (1 : UInt32) ≤ a := by
    rw [UInt32.le_iff_toNat_le]
    exact Nat.one_le_of_lt h
  rw [UInt32.toNat_sub_of_le _ _ hle]
  exact Nat.sub_add_cancel (Nat.one_le_of_lt h)

theorem lt_of_ne_of_not_gt {a b : UInt32} (hne : a ≠ b) (h : ¬ b > a) : b.toNat < a.toNat := by
  have hnat : a.toNat ≠ b.toNat := mt UInt32.toNat_inj.mp hne
  have hle : b.toNat ≤ a.toNat := not_lt.mp fun hlt => h (UInt32.lt_iff_toNat_lt.mpr hlt)
  exact lt_of_le_of_ne hle hnat.symm

theorem hop_cases (header : F → UInt64) (flit : F) (p : MeshNode) : Hop header flit p := by
  have heq := heading_eq header flit p
  by_cases hx : p.1 = (destination header flit).1
  · rw [if_neg (not_not.mpr hx)] at heq
    by_cases hy : p.2 = (destination header flit).2
    · rw [if_neg (not_not.mpr hy)] at heq
      refine .there heq (Prod.ext hx hy) ?_
      rw [nextNode, heq, MeshNode.hop]
    · rw [if_pos hy] at heq
      by_cases hlt : (destination header flit).2 > p.2
      · rw [if_pos hlt] at heq
        have hnext : nextNode header flit p = (p.1, p.2 + 1) := by rw [nextNode, heq, MeshNode.hop]
        have hnat := UInt32.lt_iff_toNat_lt.mp hlt
        refine .column (.inl heq) hx ?_ (.inl ⟨hnat, ?_⟩) <;> rw [hnext]
        exact toNat_add_one hnat
      · rw [if_neg hlt] at heq
        have hnext : nextNode header flit p = (p.1, p.2 - 1) := by rw [nextNode, heq, MeshNode.hop]
        have hnat := lt_of_ne_of_not_gt hy hlt
        refine .column (.inr heq) hx ?_ (.inr ⟨hnat, ?_⟩) <;> rw [hnext]
        exact toNat_sub_one hnat
  · rw [if_pos hx] at heq
    by_cases hlt : (destination header flit).1 > p.1
    · rw [if_pos hlt] at heq
      have hnext : nextNode header flit p = (p.1 + 1, p.2) := by rw [nextNode, heq, MeshNode.hop]
      have hnat := UInt32.lt_iff_toNat_lt.mp hlt
      refine .row (.inl heq) hx ?_ (.inl ⟨hnat, ?_⟩) <;> rw [hnext]
      exact toNat_add_one hnat
    · rw [if_neg hlt] at heq
      have hnext : nextNode header flit p = (p.1 - 1, p.2) := by rw [nextNode, heq, MeshNode.hop]
      have hnat := lt_of_ne_of_not_gt hx hlt
      refine .row (.inr heq) hx ?_ (.inr ⟨hnat, ?_⟩) <;> rw [hnext]
      exact toNat_sub_one hnat

theorem horizontal_iff (p : MeshNode) :
    (heading header flit p).Horizontal ↔ p.1 ≠ (destination header flit).1 := by
  cases hop_cases header flit p with
  | row dir column y x => exact iff_of_true dir column
  | column dir column x y =>
    refine iff_of_false ?_ (not_not.mpr column)
    rcases dir with dir | dir <;> rw [dir] <;> decide
  | there dir arrived stays =>
    refine iff_of_false ?_ (not_not.mpr (congrArg Prod.fst arrived))
    rw [dir]
    decide

theorem heading_eq_localPort_iff (p : MeshNode) :
    heading header flit p = .localPort ↔ p = destination header flit := by
  cases hop_cases header flit p with
  | row dir column y x =>
    refine iff_of_false (fun heq => ?_) fun heq => column (congrArg Prod.fst heq)
    rcases dir with dir | dir <;> cases dir.symm.trans heq
  | column dir column x y =>
    refine iff_of_false (fun heq => ?_) fun heq => ?_
    · rcases dir with dir | dir <;> cases dir.symm.trans heq
    · rw [heq] at y
      omega
  | there dir arrived stays => exact iff_of_true dir arrived

theorem distance_eq_zero_iff {q : MeshNode} : p.distance q = 0 ↔ p = q := by
  unfold MeshNode.distance
  rw [Nat.add_eq_zero_iff]
  constructor
  · rintro ⟨hx, hy⟩
    exact Prod.ext (UInt32.toNat_inj.mp (Nat.eq_of_dist_eq_zero hx))
      (UInt32.toNat_inj.mp (Nat.eq_of_dist_eq_zero hy))
  · rintro rfl
    exact ⟨Nat.dist_self _, Nat.dist_self _⟩

variable (header flit) in
theorem descends_nextNode : Descends (nextNode header flit)
    fun p => p.distance (destination header flit) := by
  intro p hne
  change (nextNode header flit p).distance _ + 1 = p.distance _
  unfold MeshNode.distance Nat.dist
  cases hop_cases header flit p with
  | row dir column y x =>
    rw [y]
    omega
  | column dir column x y =>
    rw [x]
    omega
  | there dir arrived stays => exact absurd (distance_eq_zero_iff.mpr arrived) hne

theorem nextNode_columns (h : p.1.toNat ≤ 3) : (nextNode header flit p).1.toNat ≤ 3 := by
  have hdest : (destination header flit).1.toNat ≤ 3 := by
    rw [toNat_destination_x]
    omega
  cases hop_cases header flit p with
  | row dir column y x => omega
  | column dir column x y => rwa [x]
  | there dir arrived stays => rwa [stays]

theorem nextNode_settled (h : p.1 = (destination header flit).1) :
    (nextNode header flit p).1 = (destination header flit).1 := by
  cases hop_cases header flit p with
  | row dir column y x => exact absurd h column
  | column dir column x y => exact x.trans h
  | there dir arrived stays => rwa [stays]

variable (header flit) in
/-- From any router of the four columns a flit takes the shortest way to its destination, first
along the row and then along the column. -/
theorem xyRoute (p : MeshNode) (h : p.1.toNat ≤ 3) : XYRoute header flit p where
  columns := by
    intro k
    induction k with
    | zero => exact h
    | succ k ih =>
      rw [iterate_succ_apply']
      exact nextNode_columns ih
  rowFirst := by
    intro i j hij
    rw [horizontal_iff, horizontal_iff]
    -- once the column is right it stays so
    refine mt fun hi => ?_
    obtain ⟨k, rfl⟩ := Nat.exists_eq_add_of_le hij.le
    induction k with
    | zero => exact absurd hij (lt_irrefl _)
    | succ k ih =>
      rw [← Nat.add_assoc, iterate_succ_apply']
      apply nextNode_settled
      rcases Nat.eq_zero_or_pos k with rfl | hk
      · exact hi
      · exact ih (by omega)
  revisitsNone := fun i j hij hj => (descends_nextNode header flit).ne p hij hj
  arrives := distance_eq_zero_iff.mp ((descends_nextNode header flit).reaches p)
  notBefore := fun k hk heq =>
    (descends_nextNode header flit).not_before p hk (distance_eq_zero_iff.mpr heq)
  leaves := heading_eq_localPort_iff

theorem xyRoute_across : XYRoute (fun header : UInt64 => header) 14 (0, 0) :=
  xyRoute _ _ _ (by decide)

end
end GemSc
