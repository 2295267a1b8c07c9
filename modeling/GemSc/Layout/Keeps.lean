import GemSc.Layout.GridPlacement
import GemSc.Lib.LoopFrame

/-! What the placements, the forces and a run leave alone: the fixed nodes stay where they are,
and no entry of `positions` is lost. -/

namespace GemSc
variable {K : Type}

/-- What the code leaves as it was: the fixed nodes, and the entries of `positions`. -/
structure ForceDirectedLayout.Keeps (s s' : ForceDirectedLayout K) : Prop where
  fixedNodes : s'.fixedNodes = s.fixedNodes
  pinned : ∀ name ∈ s.fixedNodes, ∀ p, s.positions name = some p → s'.positions name = some p
  entries : ∀ name, (s.positions name).isSome → (s'.positions name).isSome

namespace ForceDirectedLayout
variable {s s' s'' : ForceDirectedLayout K} {name : String} {p : Point K}

theorem Keeps.refl (s : ForceDirectedLayout K) : s.Keeps s :=
  ⟨rfl, fun _ _ _ h => h, fun _ h => h⟩

theorem Keeps.trans (h : s.Keeps s') (h' : s'.Keeps s'') : s.Keeps s'' where
  fixedNodes := h'.fixedNodes.trans h.fixedNodes
  pinned name hname p hp :=
    h'.pinned name (h.fixedNodes.symm ▸ hname) p (h.pinned name hname p hp)
  entries name hname := h'.entries name (h.entries name hname)

instance : Std.Refl (Keeps (K := K)) := ⟨Keeps.refl⟩

instance : IsTrans (ForceDirectedLayout K) Keeps := ⟨fun _ _ _ => Keeps.trans⟩

/-! Writes -/

theorem setPosition_self : (s.setPosition name p).positions name = some p :=
  Function.update_self (β := fun _ => Option (Point K)) name (some p) s.positions

theorem setPosition_of_ne {other : String} (h : other ≠ name) :
    (s.setPosition name p).positions other = s.positions other :=
  Function.update_of_ne (β := fun _ => Option (Point K)) h (some p) s.positions

theorem keeps_setPosition (h : name ∈ s.fixedNodes → ∀ q, s.positions name = some q → q = p) :
    s.Keeps (s.setPosition name p) where
  fixedNodes := rfl
  pinned other hother q hq := by
    by_cases heq : other = name
    · rw [heq] at hother hq ⊢
      rw [setPosition_self, h hother q hq]
    · rw [setPosition_of_ne heq, hq]
  entries other hother := by
    by_cases heq : other = name
    · rw [heq, setPosition_self]
      rfl
    · rwa [setPosition_of_ne heq]

theorem keeps_of_free (h : name ∉ s.fixedNodes) : s.Keeps (s.setPosition name p) :=
  keeps_setPosition fun hname => absurd hname h

theorem keeps_setGroup (node group : String) : s.Keeps (s.setGroup node group) :=
  ⟨rfl, fun _ _ _ h => h, fun _ h => h⟩

theorem keeps_setTemperature (t : K) : s.Keeps { s with temperature := t } :=
  ⟨rfl, fun _ _ _ h => h, fun _ h => h⟩

theorem keeps_eachPosition (f : Point K → Point K) : s.Keeps (s.eachPosition f) where
  fixedNodes := rfl
  pinned name hname p hp := by
    change (s.positions name).map _ = some p
    rw [hp, Option.map_some, if_pos hname]
  entries name hname := Option.isSome_map.trans hname

/-! Forces -/

section
variable [Field K] (params : LayoutParams K)

theorem keeps_touch (name : String) : s.Keeps (s.touch name) := by
  apply keeps_setPosition
  intro _ q hq
  rw [position, hq, Option.getD_some]

theorem keeps_accelerate (h : name ∉ s.fixedNodes) (ax ay : K) :
    s.Keeps (s.accelerate name ax ay) := keeps_of_free h

theorem keeps_guarded (name : String) (ax ay : K) :
    s.Keeps (if name ∈ s.fixedNodes then s else s.accelerate name ax ay) := by
  split_ifs with hfixed
  · exact .refl s
  · exact keeps_accelerate hfixed ax ay

theorem keeps_repel (a b : String) (s : ForceDirectedLayout K) : s.Keeps (repel params a b s) := by
  have htouch : s.Keeps ((s.touch a).touch b) := (keeps_touch a).trans (keeps_touch b)
  exact (htouch.trans (keeps_guarded a _ _)).trans (keeps_guarded b _ _)

theorem keeps_repelPairs (nodes : List String) (s : ForceDirectedLayout K) :
    s.Keeps (repelPairs params nodes s) := by
  induction nodes generalizing s with
  | nil => exact .refl s
  | cons a rest ih =>
    have hfirst : s.Keeps (rest.foldl (fun s b => repel params a b s) s) :=
      LoopFrame.foldl_rel (fun s b _ => keeps_repel params a b s) s
    exact hfirst.trans (ih _)

theorem keeps_collect (entries : List ((_ : String) × String)) (s : ForceDirectedLayout K)
    (centers : GroupCenters K) : s.Keeps (entries.foldl collect (s, centers)).1 := by
  induction entries generalizing s centers with
  | nil => exact .refl s
  | cons entry entries ih =>
    rw [List.foldl_cons]
    unfold collect
    split_ifs
    · exact ih s centers
    · exact (keeps_touch entry.1).trans (ih ..)

theorem keeps_confine (group : String) (centerX centerY : K) (s : ForceDirectedLayout K)
    (node : String) : s.Keeps (confine params group centerX centerY s node) := by
  have hgroup : s.Keeps (s.touchGroup node) := keeps_setGroup node _
  unfold confine
  dsimp only
  split_ifs with h
  · have hfree : node ∉ ((s.touchGroup node).touch node).fixedNodes := h.2
    exact (hgroup.trans (keeps_touch node)).trans (keeps_accelerate hfree _ _)
  · exact hgroup

theorem keeps_confineGroup (s : ForceDirectedLayout K)
    (center : (_ : String) × List (Point K)) : s.Keeps (confineGroup params s center) := by
  unfold confineGroup
  split_ifs
  · exact .refl s
  · exact LoopFrame.foldl_rel (fun s node _ => keeps_confine params _ _ _ s node) s

theorem keeps_applyGroupConfinement (s : ForceDirectedLayout K) :
    s.Keeps (s.applyGroupConfinement params) := by
  have hgathered := keeps_collect (params.groupOrder.visit s.nodeToGroup.entries) s ∅
  exact hgathered.trans (LoopFrame.foldl_rel (fun s center _ => keeps_confineGroup params s center) _)

def withVelocities (s : ForceDirectedLayout K) : ForceDirectedLayout K :=
  ((s.eachPosition damp).applyRepulsion params).applyGroupConfinement params

theorem keeps_withVelocities (s : ForceDirectedLayout K) : s.Keeps (s.withVelocities params) := by
  have hpushed : s.Keeps ((s.eachPosition damp).applyRepulsion params) :=
    (keeps_eachPosition damp).trans (keeps_repelPairs params _ _)
  exact hpushed.trans (keeps_applyGroupConfinement params _)

variable [LinearOrder K]

theorem keeps_iteration (width height : K) (s : ForceDirectedLayout K) :
    s.Keeps (iteration params width height s) :=
  ((keeps_withVelocities params s).trans (keeps_eachPosition _)).trans (keeps_setTemperature _)

theorem keeps_run (width height : K) (s : ForceDirectedLayout K) :
    s.Keeps (s.run params width height) :=
  LoopFrame.iterate_rel (keeps_iteration params width height) maxIter s

theorem exists_move_of_iteration (width height : K) (hentry : (s.positions name).isSome)
    (hfree : name ∉ s.fixedNodes) : ∃ temperature p,
      (iteration params width height s).positions name =
        some (move temperature width height p) := by
  have hkeeps := keeps_withVelocities params s
  obtain ⟨p, hp⟩ := Option.isSome_iff_exists.mp (hkeeps.entries name hentry)
  refine ⟨(s.withVelocities params).temperature, p, ?_⟩
  change ((s.withVelocities params).positions name).map _ = _
  rw [hp, Option.map_some, if_neg (hkeeps.fixedNodes ▸ hfree)]
  rfl

theorem exists_move_of_run (width height : K) (hentry : (s.positions name).isSome)
    (hfree : name ∉ s.fixedNodes) : ∃ temperature p,
      (s.run params width height).positions name = some (move temperature width height p) := by
  have hbefore : s.Keeps ((iteration params width height)^[149] s) :=
    LoopFrame.iterate_rel (keeps_iteration params width height) 149 s
  unfold run maxIter
  rw [Function.iterate_succ_apply']
  exact exists_move_of_iteration params width height (hbefore.entries name hentry)
    (hbefore.fixedNodes ▸ hfree)

end

/-! Placements -/

theorem keeps_placeEach {spot : ℕ → Except ArithFault (Point K)} (members : List String)
    (hspot : ∀ i, ∃ p, spot i = .ok p) (s : ForceDirectedLayout K) :
    ∃ s', s.placeEach spot members = .ok s' ∧ s.Keeps s' := by
  refine LoopFrame.exists_foldlM_rel (fun s m _ => ?_) s
  by_cases hfixed : m.1 ∈ s.fixedNodes
  · exact ⟨s, if_pos hfixed, .refl s⟩
  · obtain ⟨p, hp⟩ := hspot m.2
    refine ⟨s.setPosition m.1 p, ?_, keeps_of_free hfixed⟩
    rw [if_neg hfixed, hp]
    rfl

end ForceDirectedLayout

variable [Field K] [LinearOrder K] [IsStrictOrderedRing K] (params : LayoutParams K)

theorem exists_circleSpot {n : ℕ} (hn : n ≠ 0) (centerX centerY radius : K) (i : ℕ) :
    ∃ p, circleSpot params n centerX centerY radius i = .ok p := by
  unfold circleSpot
  rw [checkedDiv_eq (Nat.cast_ne_zero.mpr hn)]
  exact ⟨_, rfl⟩

namespace ForceDirectedLayout
variable {s : ForceDirectedLayout K} {name : String}

theorem keeps_placeGrid (n : ℕ) (w h left top : K) (members : List String)
    (s : ForceDirectedLayout K) :
    ∃ s', (PlacementGrid.make n w h >>= fun grid => s.placeEach (grid.spot left top) members) =
      .ok s' ∧ s.Keeps s' := by
  have hspot (i : ℕ) : ∃ p, (PlacementGrid.ofCount n w h).spot left top i = .ok p :=
    ⟨_, PlacementGrid.spot_ofCount n w h left top i⟩
  obtain ⟨s', hs', hkeeps⟩ := keeps_placeEach members hspot s
  exact ⟨s', ExceptFold.bind_eq_ok.mpr ⟨_, PlacementGrid.make_eq n w h, hs'⟩, hkeeps⟩

theorem keeps_setGroupPlacement (groupName : String) (members : List String) (style : String)
    (centerX centerY radius : K) (s : ForceDirectedLayout K) :
    ∃ s', s.setGroupPlacement params groupName members style centerX centerY radius = .ok s' ∧
      s.Keeps s' := by
  unfold setGroupPlacement
  by_cases hn : members.length = 0
  · rw [if_pos hn]
    exact ⟨s, rfl, .refl s⟩
  rw [if_neg hn]
  split_ifs
  · exact keeps_placeGrid ..
  · exact keeps_placeEach members (exists_circleSpot params hn centerX centerY radius) s
  · exact keeps_placeEach members (fun _ => ⟨_, rfl⟩) s
  · exact ⟨s, rfl, .refl s⟩

theorem keeps_setInitialPlacement {type : String} (htype : type = "grid" ∨ type = "circle")
    (width height : K) (draws : ℕ → ℕ × ℕ) (s : ForceDirectedLayout K) :
    ∃ s', s.setInitialPlacement params type width height draws = .ok s' ∧ s.Keeps s' := by
  unfold setInitialPlacement
  by_cases hn : s.nodes.length = 0
  · rw [if_pos hn]
    exact ⟨s, rfl, .refl s⟩
  rw [if_neg hn]
  rcases htype with rfl | rfl
  · rw [if_pos rfl]
    exact keeps_placeGrid ..
  · rw [if_neg (by decide), if_pos rfl]
    exact keeps_placeEach s.nodes (exists_circleSpot params hn _ _ _) s

/-! The frame -/

theorem clamp_mem {x size : K} (hsize : 100 ≤ size) :
    max 50 (min x (size - 50)) ∈ Set.Icc 50 (size - 50) := by
  have hroom : (50 : K) ≤ size - 50 := by linarith
  exact ⟨le_max_left .., max_le hroom (min_le_right ..)⟩

theorem move_mem {temperature width height : K} (hwidth : 100 ≤ width) (hheight : 100 ≤ height)
    (p : Point K) : (move temperature width height p).x ∈ Set.Icc 50 (width - 50) ∧
      (move temperature width height p).y ∈ Set.Icc 50 (height - 50) :=
  ⟨clamp_mem hwidth, clamp_mem hheight⟩

end ForceDirectedLayout

end GemSc
