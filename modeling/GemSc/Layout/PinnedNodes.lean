import GemSc.Layout.Keeps

/-! After a node is added with a place of its own, nothing moves it, and a run leaves every other
node inside its frame. -/

namespace GemSc
variable {K : Type} {name other : String} {x y : K}

namespace LayoutCall
variable {calls : List (LayoutCall K)} {call : LayoutCall K}

def added : LayoutCall K → Option String
  | addNode name _ _ => some name
  | _ => none

theorem mem_filterMap_added (h : addNode name x y ∈ calls) : name ∈ calls.filterMap added :=
  List.mem_filterMap.mpr ⟨addNode name x y, h, rfl⟩

theorem mem_of_mem_concat (hcall : call.added = none) (h : addNode name x y ∈ calls ++ [call]) :
    addNode name x y ∈ calls := by
  rcases List.mem_append.mp h with h | h
  · exact h
  · rw [← List.mem_singleton.mp h] at hcall
    contradiction

end LayoutCall

variable [Field K] [LinearOrder K]

namespace ForceDirectedLayout
variable {s : ForceDirectedLayout K}

theorem addNode_of_ne (h : other ≠ name) :
    (s.addNode name x y).positions other = s.positions other := by
  unfold addNode
  split_ifs <;> exact setPosition_of_ne h

theorem addNode_self (s : ForceDirectedLayout K) (name : String) (x y : K) :
    (s.addNode name x y).positions name =
      some (if 0 ≤ x ∧ 0 ≤ y then .at x y else .at 0 0) := by
  unfold addNode
  split_ifs <;> exact setPosition_self

theorem mem_addNode_fixedNodes : other ∈ (s.addNode name x y).fixedNodes ↔
    (other = name ∧ 0 ≤ x ∧ 0 ≤ y) ∨ other ∈ s.fixedNodes := by
  unfold addNode
  split_ifs with h
  · simp [h]
  · simp [h, setPosition]

end ForceDirectedLayout

namespace LayoutCall
variable {calls : List (LayoutCall K)} {call : LayoutCall K} {s s' : ForceDirectedLayout K}

structure Respected (calls : List (LayoutCall K)) (s : ForceDirectedLayout K) : Prop where
  entries : ∀ name x y, addNode name x y ∈ calls → (s.positions name).isSome
  fixed : ∀ name ∈ s.fixedNodes, name ∈ calls.filterMap added
  pinned : ∀ name x y, addNode name x y ∈ calls → 0 ≤ x → 0 ≤ y →
    name ∈ s.fixedNodes ∧ s.positions name = some (.at x y)
  free : ∀ name x y, addNode name x y ∈ calls → ¬(0 ≤ x ∧ 0 ≤ y) → name ∉ s.fixedNodes

theorem respected_initial : Respected (K := K) [] .initial where
  entries _ _ _ h := absurd h List.not_mem_nil
  fixed _ h := absurd h (Finset.notMem_empty _)
  pinned _ _ _ h := absurd h List.not_mem_nil
  free _ _ _ h := absurd h List.not_mem_nil

theorem Respected.keep (h : Respected calls s) (hkeeps : s.Keeps s') (hcall : call.added = none) :
    Respected (calls ++ [call]) s' where
  entries name x y hmem :=
    hkeeps.entries name (h.entries name x y (mem_of_mem_concat hcall hmem))
  fixed name hname := by
    rw [hkeeps.fixedNodes] at hname
    rw [List.filterMap_append]
    exact List.mem_append_left _ (h.fixed name hname)
  pinned name x y hmem hx hy := by
    obtain ⟨hfixed, hpos⟩ := h.pinned name x y (mem_of_mem_concat hcall hmem) hx hy
    exact ⟨hkeeps.fixedNodes.symm ▸ hfixed, hkeeps.pinned name hfixed _ hpos⟩
  free name x y hmem hxy := by
    rw [hkeeps.fixedNodes]
    exact h.free name x y (mem_of_mem_concat hcall hmem) hxy

theorem Respected.add (h : Respected calls s) (hnew : name ∉ calls.filterMap added) (x y : K) :
    Respected (calls ++ [addNode name x y]) (s.addNode name x y) := by
  have hcases : ∀ other x' y', addNode other x' y' ∈ calls ++ [addNode name x y] →
      (other ≠ name ∧ addNode other x' y' ∈ calls) ∨ (other = name ∧ x' = x ∧ y' = y) := by
    intro other x' y' hmem
    rcases List.mem_append.mp hmem with hold | hlast
    · exact .inl ⟨ne_of_mem_of_not_mem (mem_filterMap_added hold) hnew, hold⟩
    · exact .inr (addNode.inj (List.mem_singleton.mp hlast))
  constructor
  · intro other x' y' hmem
    rcases hcases other x' y' hmem with ⟨hne, hold⟩ | ⟨rfl, -, -⟩
    · rw [ForceDirectedLayout.addNode_of_ne hne]
      exact h.entries other x' y' hold
    · rw [ForceDirectedLayout.addNode_self]
      rfl
  · intro other hother
    rw [List.filterMap_append]
    rcases ForceDirectedLayout.mem_addNode_fixedNodes.mp hother with ⟨rfl, -⟩ | hother
    · exact List.mem_append_right _ (List.mem_singleton_self other)
    · exact List.mem_append_left _ (h.fixed other hother)
  · intro other x' y' hmem hx hy
    rw [ForceDirectedLayout.mem_addNode_fixedNodes]
    rcases hcases other x' y' hmem with ⟨hne, hold⟩ | ⟨rfl, rfl, rfl⟩
    · rw [ForceDirectedLayout.addNode_of_ne hne]
      obtain ⟨hfixed, hpos⟩ := h.pinned other x' y' hold hx hy
      exact ⟨.inr hfixed, hpos⟩
    · rw [ForceDirectedLayout.addNode_self, if_pos ⟨hx, hy⟩]
      exact ⟨.inl ⟨rfl, hx, hy⟩, rfl⟩
  · intro other x' y' hmem hxy
    rw [ForceDirectedLayout.mem_addNode_fixedNodes, not_or]
    rcases hcases other x' y' hmem with ⟨hne, hold⟩ | ⟨rfl, rfl, rfl⟩
    · exact ⟨fun heq => hne heq.1, h.free other x' y' hold hxy⟩
    · exact ⟨fun heq => hxy heq.2, fun hfixed => hnew (h.fixed other hfixed)⟩

/-! Sequences of calls -/

theorem applyAll_concat {params : LayoutParams K} (h : applyAll params calls = .ok s)
    (hcall : apply params s call = .ok s') : applyAll params (calls ++ [call]) = .ok s' :=
  ExceptFold.foldlM_append_ok.mpr ⟨s, h, ExceptFold.foldlM_cons_ok.mpr ⟨s', hcall, rfl⟩⟩

variable [IsStrictOrderedRing K] (params : LayoutParams K)

theorem Respected.exists_apply (h : Respected calls s) (hallowed : call.Allowed)
    (hnew : ∀ name, call.added = some name → name ∉ calls.filterMap added) :
    ∃ s', apply params s call = .ok s' ∧ Respected (calls ++ [call]) s' := by
  cases call with
  | addNode name x y => exact ⟨_, rfl, h.add (hnew name rfl) x y⟩
  | setGroup node group =>
    exact ⟨_, rfl, h.keep (ForceDirectedLayout.keeps_setGroup node group) rfl⟩
  | setGroupPlacement groupName members style centerX centerY radius =>
    obtain ⟨s', hs', hkeeps⟩ := ForceDirectedLayout.keeps_setGroupPlacement params groupName
      members style centerX centerY radius s
    exact ⟨s', hs', h.keep hkeeps rfl⟩
  | setInitialPlacement type width height draws =>
    obtain ⟨s', hs', hkeeps⟩ :=
      ForceDirectedLayout.keeps_setInitialPlacement params hallowed width height draws s
    exact ⟨s', hs', h.keep hkeeps rfl⟩
  | run width height =>
    exact ⟨_, rfl, h.keep (ForceDirectedLayout.keeps_run params width height s) rfl⟩

theorem exists_respected (honce : (calls.filterMap added).Nodup)
    (hallowed : ∀ call ∈ calls, call.Allowed) :
    ∃ s, applyAll params calls = .ok s ∧ Respected calls s := by
  induction calls using List.reverseRecOn with
  | nil => exact ⟨.initial, rfl, respected_initial⟩
  | append_singleton calls call ih =>
    rw [List.filterMap_append, List.nodup_append] at honce
    have hfirst : ∀ c ∈ calls, c.Allowed :=
      fun c hc => hallowed c (List.mem_append_left _ hc)
    obtain ⟨s, hs, hrespected⟩ := ih honce.1 hfirst
    have hlast : call.Allowed := hallowed call (List.mem_append_right _ (List.mem_singleton_self _))
    have hnew : ∀ name, call.added = some name → name ∉ calls.filterMap added := by
      intro name hname hmem
      have hadded : name ∈ [call].filterMap added :=
        List.mem_filterMap.mpr ⟨call, List.mem_singleton_self call, hname⟩
      exact honce.2.2 name hmem name hadded rfl
    obtain ⟨s', hs', hrespected'⟩ := hrespected.exists_apply params hlast hnew
    exact ⟨s', applyAll_concat hs hs', hrespected'⟩

/-- The calls of any layout so far: its fixed nodes are where they were added, and after a run the
others are inside its frame. -/
theorem pinned_and_framed (calls : List (LayoutCall K)) (honce : (calls.filterMap added).Nodup)
    (hallowed : ∀ call ∈ calls, call.Allowed) :
    ∃ s, applyAll params calls = .ok s ∧
      (∀ name x y, addNode name x y ∈ calls → 0 ≤ x → 0 ≤ y →
        s.positions name = some (.at x y)) ∧
      ∀ before width height, calls = before ++ [run width height] →
        ∀ name x y, addNode name x y ∈ calls → ¬(0 ≤ x ∧ 0 ≤ y) →
          ∃ p, s.positions name = some p ∧ p.x ∈ Set.Icc 50 (width - 50) ∧
            p.y ∈ Set.Icc 50 (height - 50) := by
  obtain ⟨s, hs, hrespected⟩ := exists_respected params honce hallowed
  refine ⟨s, hs, fun name x y hmem hx hy => (hrespected.pinned name x y hmem hx hy).2, ?_⟩
  rintro before width height rfl name x y hmem hxy
  have hsize : 100 ≤ width ∧ 100 ≤ height :=
    hallowed (run width height) (List.mem_append_right _ (List.mem_singleton_self _))
  rw [List.filterMap_append, List.nodup_append] at honce
  obtain ⟨s₀, hs₀, hbefore⟩ := exists_respected params honce.1
    fun c hc => hallowed c (List.mem_append_left _ hc)
  have hlast : applyAll params (before ++ [run width height]) = .ok (s₀.run params width height) :=
    applyAll_concat hs₀ rfl
  rw [hs] at hlast
  have hmem' : addNode name x y ∈ before := mem_of_mem_concat rfl hmem
  obtain ⟨t, p, hp⟩ := ForceDirectedLayout.exists_move_of_run params width height
    (hbefore.entries name x y hmem') (hbefore.free name x y hmem' hxy)
  rw [Except.ok.inj hlast]
  exact ⟨_, hp, ForceDirectedLayout.move_mem hsize.1 hsize.2 p⟩

def sampleCalls : List (LayoutCall ℚ) :=
  [addNode "cpu" 100 40, addNode "l1" (-1) (-1), addNode "mem" (-1) (-1), setGroup "l1" "caches",
    setGroupPlacement "caches" ["l1", "cpu"] "grid" 200 200 80,
    setInitialPlacement "grid" 600 400 fun i => (i, i), run 600 400]

theorem pinned_and_framed_sample : ∃ s, applyAll rationalParams sampleCalls = .ok s ∧
    (∀ name x y, addNode name x y ∈ sampleCalls → 0 ≤ x → 0 ≤ y →
      s.positions name = some (.at x y)) ∧
    ∀ before width height, sampleCalls = before ++ [run width height] →
      ∀ name x y, addNode name x y ∈ sampleCalls → ¬(0 ≤ x ∧ 0 ≤ y) →
        ∃ p, s.positions name = some p ∧ p.x ∈ Set.Icc 50 (width - 50) ∧
          p.y ∈ Set.Icc 50 (height - 50) :=
  pinned_and_framed rationalParams sampleCalls (by decide) (by
    unfold sampleCalls
    simp only [List.forall_mem_cons, Allowed]
    norm_num)

end LayoutCall
end GemSc
