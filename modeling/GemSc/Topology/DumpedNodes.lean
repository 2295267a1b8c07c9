import GemSc.Topology.DumpedEdges

/-! The nodes of a dumped topology are the instances, at their own places or inside the picture. The
dump completes when the groups name no others. -/

namespace GemSc
open ExceptFold

namespace TopologyDumper
variable {K L : Type} [Field K] [LinearOrder K] {f : ModuleFactory L} {w : World} {config : Json}
  {style : String} {groupNames : List String} {calls : List (LayoutCall K)}

theorem of_placeGroup {groupName : String} (h : placeGroup f w config groupName = .ok calls)
    {call : LayoutCall K} (hcall : call ∈ calls) : call.added = none ∧ call.Allowed := by
  obtain ⟨placement, -, h⟩ := bind_eq_ok.mp h
  obtain ⟨grouped, hgrouped, h⟩ := bind_eq_ok.mp h
  cases h
  rcases List.mem_append.mp hcall with hcall | hcall
  · split_ifs at hcall
    · rw [List.mem_singleton.mp hcall]
      exact ⟨rfl, trivial⟩
    · exact absurd hcall List.not_mem_nil
  · obtain ⟨memberCalls, hmem, hcall⟩ := List.mem_flatten.mp hcall
    obtain ⟨member, -, hmember⟩ := exists_mem_of_mapM_ok hgrouped hmem
    obtain ⟨obj, -, hmember⟩ := bind_eq_ok.mp hmember
    cases hmember
    split_ifs at hcall
    · exact absurd hcall List.not_mem_nil
    · rw [List.mem_singleton.mp hcall]
      exact ⟨rfl, trivial⟩

omit [LinearOrder K] in
theorem added_addInstance (e : String × ObjPtr) :
    (addInstance w e : LayoutCall K).added = some e.1 := by
  unfold addInstance
  simp only
  split_ifs <;> rfl

structure Calls (f : ModuleFactory L) (w : World) (calls : List (LayoutCall K)) : Prop where
  added : calls.filterMap LayoutCall.added = f.instances.map (·.1)
  allowed : ∀ call ∈ calls, call.Allowed
  instances : ∀ e ∈ f.instances, addInstance w e ∈ calls

theorem Calls.append (h : Calls f w calls) {more : List (LayoutCall K)}
    (hmore : ∀ call ∈ more, call.added = none ∧ call.Allowed) : Calls f w (calls ++ more) where
  added := by
    have hnone : more.filterMap LayoutCall.added = [] :=
      List.filterMap_eq_nil_iff.mpr fun call hcall => (hmore call hcall).1
    rw [List.filterMap_append, hnone, List.append_nil]
    exact h.added
  allowed call hcall := by
    rcases List.mem_append.mp hcall with hcall | hcall
    · exact h.allowed call hcall
    · exact (hmore call hcall).2
  instances e he := List.mem_append_left _ (h.instances e he)

theorem calls_added : Calls f w (f.getAllInstances.map (addInstance (K := K) w)) where
  added := by
    rw [List.filterMap_map]
    have hname : (LayoutCall.added ∘ addInstance (K := K) w) = fun e => some e.1 := by
      funext e
      exact added_addInstance e
    rw [hname]
    exact congrFun (List.filterMap_eq_map (f := fun e : String × ObjPtr => e.1)) _
  allowed call hcall := by
    obtain ⟨e, -, rfl⟩ := List.mem_map.mp hcall
    unfold addInstance
    simp only
    split_ifs <;> trivial
  instances e he := List.mem_map_of_mem he

variable {params : LayoutParams K} {order : HashOrder String} {g : DotGraph K}

theorem dumpToDot_ok (h : dumpToDot f w config params order = .ok g) : ∃ style calls layout,
    config.value Json.getString "layout.style" "auto" = .ok style ∧
      layoutCalls f w config style (order.visit (w.groups.map (·.1)).dedup) = .ok calls ∧
      LayoutCall.applyAll params calls = .ok layout ∧
      f.getAllInstances.mapM (printNode w style layout.positions) = .ok g.nodes := by
  unfold dumpToDot at h
  obtain ⟨style, hstyle, h⟩ := bind_eq_ok.mp h
  obtain ⟨calls, hcalls, h⟩ := bind_eq_ok.mp h
  obtain ⟨layout, hlayout, h⟩ := bind_eq_ok.mp h
  obtain ⟨nodes, hnodes, h⟩ := bind_eq_ok.mp h
  cases h
  exact ⟨style, calls, layout, mapError_eq_ok.mp hstyle, mapError_eq_ok.mp hcalls,
    mapError_eq_ok.mp hlayout, hnodes⟩

variable [IsStrictOrderedRing K]

theorem layoutCalls_ok (h : layoutCalls f w config style groupNames = .ok calls) :
    ∃ before, Calls f w before ∧ Calls f w calls ∧
      calls = before ++ if style = "auto" then [.run 800 600] else [] := by
  obtain ⟨groups, hgroups, h⟩ := bind_eq_ok.mp h
  cases h
  have hinitial : Calls f w (f.getAllInstances.map (addInstance (K := K) w) ++
      if style = "auto" then [.setInitialPlacement "grid" 800 600 fun _ => (0, 0)] else []) := by
    refine calls_added.append fun call hcall => ?_
    split_ifs at hcall
    · rw [List.mem_singleton.mp hcall]
      exact ⟨rfl, Or.inl rfl⟩
    · exact absurd hcall List.not_mem_nil
  have hgroup : ∀ call ∈ groups.flatten, call.added = none ∧ call.Allowed := by
    intro call hcall
    obtain ⟨groupCalls, hmem, hcall⟩ := List.mem_flatten.mp hcall
    obtain ⟨groupName, -, hplaced⟩ := exists_mem_of_mapM_ok hgroups hmem
    exact of_placeGroup hplaced hcall
  have hgrouped := hinitial.append hgroup
  refine ⟨_, hgrouped, hgrouped.append fun call hcall => ?_, rfl⟩
  split_ifs at hcall
  · rw [List.mem_singleton.mp hcall]
    refine ⟨rfl, ?_⟩
    change (100 : K) ≤ 800 ∧ (100 : K) ≤ 600
    norm_num
  · exact absurd hcall List.not_mem_nil

def PlacementsRead (config : Json) (w : World) : Prop :=
  ∀ name ∈ w.groups.map (·.1), ∃ placement, getGroupPlacement config name "circle" = .ok placement

omit [LinearOrder K] [IsStrictOrderedRing K] in
theorem exists_placeGroup_iff {name placement : String}
    (hplacement : getGroupPlacement config name "circle" = .ok placement) :
    (∃ calls, placeGroup (K := K) f w config name = .ok calls) ↔
      ∀ member ∈ ModuleGroup.getMembers w.groups name, (f.getInstance member).isSome := by
  have hmember : ∀ member, (∃ calls : List (LayoutCall K), groupMember f w name member = .ok calls) ↔
      (f.getInstance member).isSome := by
    intro member
    unfold groupMember derefInstance
    cases f.getInstance member with
    | none =>
      exact ⟨fun h => absurd h.choose_spec (fun hcalls => nomatch hcalls), fun h => nomatch h⟩
    | some obj => exact ⟨fun _ => rfl, fun _ => ⟨_, rfl⟩⟩
  have hall := exists_mapM_ok (f := groupMember (K := K) f w name)
    (l := ModuleGroup.getMembers w.groups name)
  simp only [hmember] at hall
  rw [← hall]
  unfold placeGroup
  constructor
  · rintro ⟨calls, h⟩
    obtain ⟨_, -, h⟩ := bind_eq_ok.mp h
    obtain ⟨grouped, hgrouped, -⟩ := bind_eq_ok.mp h
    exact ⟨grouped, hgrouped⟩
  · rintro ⟨grouped, hgrouped⟩
    exact ⟨_, bind_eq_ok.mpr ⟨placement, hplacement, bind_eq_ok.mpr ⟨grouped, hgrouped, rfl⟩⟩⟩

variable (style order) in
omit [LinearOrder K] [IsStrictOrderedRing K] in
theorem exists_layoutCalls_iff (hplacements : PlacementsRead config w) :
    (∃ calls, layoutCalls (K := K) f w config style
        (order.visit (w.groups.map (·.1)).dedup) = .ok calls) ↔
      ∀ name, ∀ member ∈ ModuleGroup.getMembers w.groups name, (f.getInstance member).isSome := by
  have hnames : ∀ name, name ∈ order.visit (w.groups.map (·.1)).dedup ↔
      name ∈ w.groups.map (·.1) := fun name => by
    rw [(order.perm _).mem_iff, List.mem_dedup]
  have hgroups := exists_mapM_ok (f := placeGroup (K := K) f w config)
    (l := order.visit (w.groups.map (·.1)).dedup)
  unfold layoutCalls
  constructor
  · rintro ⟨calls, h⟩ name member hmember
    obtain ⟨groups, hok, -⟩ := bind_eq_ok.mp h
    by_cases hname : name ∈ w.groups.map (·.1)
    · obtain ⟨placement, hplacement⟩ := hplacements name hname
      have hplaced := hgroups.mp ⟨groups, hok⟩ name ((hnames name).mpr hname)
      exact (exists_placeGroup_iff hplacement).mp hplaced member hmember
    · have hnone : w.groups.lookup name = none := by
        rw [List.lookup_eq_none_iff]
        intro e he
        rw [bne_iff_ne]
        rintro rfl
        exact hname (List.mem_map_of_mem he)
      unfold ModuleGroup.getMembers at hmember
      rw [hnone] at hmember
      exact absurd hmember List.not_mem_nil
  · intro h
    obtain ⟨groups, hok⟩ := hgroups.mpr fun name hname => by
      obtain ⟨placement, hplacement⟩ := hplacements name ((hnames name).mp hname)
      exact (exists_placeGroup_iff hplacement).mpr (h name)
    exact ⟨_, bind_eq_ok.mpr ⟨groups, hok, rfl⟩⟩

omit [LinearOrder K] [IsStrictOrderedRing K] in
theorem nullDeref_of_placeGroup {name placement : String} {e : Fault}
    (hplacement : getGroupPlacement config name "circle" = .ok placement)
    (h : placeGroup (K := K) f w config name = .error e) : e = .nullDeref := by
  unfold placeGroup at h
  rcases bind_eq_error.mp h with h | ⟨_, -, h⟩
  · rw [hplacement] at h
    cases h
  rcases bind_eq_error.mp h with h | ⟨_, -, h⟩
  · refine error_of_mapM h fun member _ e' h => ?_
    rcases bind_eq_error.mp h with h | ⟨_, -, h⟩
    · unfold derefInstance at h
      cases hinstance : f.getInstance member with
      | none =>
        rw [hinstance] at h
        cases h
        rfl
      | some obj =>
        rw [hinstance] at h
        cases h
    · cases h
  · cases h

omit [LinearOrder K] [IsStrictOrderedRing K] in
theorem nullDeref_of_layoutCalls {e : Fault} (hplacements : PlacementsRead config w)
    (h : layoutCalls (K := K) f w config style (order.visit (w.groups.map (·.1)).dedup) = .error e) :
    e = .nullDeref := by
  unfold layoutCalls at h
  rcases bind_eq_error.mp h with h | ⟨_, -, h⟩
  · refine error_of_mapM h fun name hname e' h => ?_
    rw [(order.perm _).mem_iff, List.mem_dedup] at hname
    obtain ⟨placement, hplacement⟩ := hplacements name hname
    exact nullDeref_of_placeGroup hplacement h
  · cases h

omit [Field K] [LinearOrder K] [IsStrictOrderedRing K] in
theorem printNode_auto_ok {positions : String → Option (Point K)} {e : String × ObjPtr}
    {node : DotNode K} (h : printNode w "auto" positions e = .ok node) :
    ∃ pos, positions e.1 = some pos ∧ node = ⟨e.1, some (.placed pos.x pos.y)⟩ := by
  unfold printNode at h
  cases hpos : positions e.1 with
  | none =>
    rw [hpos] at h
    cases h
  | some pos =>
    rw [hpos] at h
    cases h
    exact ⟨pos, rfl, rfl⟩

theorem place_of_run {calls : List (LayoutCall K)} {s : ForceDirectedLayout K}
    (hrespected : LayoutCall.Respected calls s) {e : String × ObjPtr}
    (hadded : addInstance w e ∈ calls) {pos : Point K}
    (hpos : (s.run params 800 600).positions e.1 = some pos) :
    if (w.object e.2).layout.valid then
      pos.x = (w.object e.2).layout.x ∧ pos.y = (w.object e.2).layout.y
    else pos.x ∈ Set.Icc 50 750 ∧ pos.y ∈ Set.Icc 50 550 := by
  unfold addInstance at hadded
  by_cases hvalid : (w.object e.2).layout.valid = true
  · simp only [if_pos hvalid] at hadded
    rw [if_pos hvalid]
    obtain ⟨hx, hy⟩ := (Bool.and_eq_true_iff.mp hvalid).imp of_decide_eq_true of_decide_eq_true
    obtain ⟨hfixed, hplace⟩ := hrespected.pinned _ _ _ hadded (Int.cast_nonneg hx) (Int.cast_nonneg hy)
    have hkept := (ForceDirectedLayout.keeps_run params 800 600 s).pinned e.1 hfixed _ hplace
    rw [hkept] at hpos
    cases hpos
    exact ⟨rfl, rfl⟩
  · simp only [if_neg hvalid] at hadded
    rw [if_neg hvalid]
    have hout : ¬ ((0 : K) ≤ -1 ∧ (0 : K) ≤ -1) := by norm_num
    obtain ⟨t, p, hp⟩ := ForceDirectedLayout.exists_move_of_run params 800 600
      (hrespected.entries _ _ _ hadded) (hrespected.free _ _ _ hadded hout)
    rw [hp] at hpos
    cases hpos
    have hframe : (ForceDirectedLayout.move t 800 600 p).x ∈ Set.Icc (50 : K) (800 - 50) ∧
        (ForceDirectedLayout.move t 800 600 p).y ∈ Set.Icc (50 : K) (600 - 50) :=
      ForceDirectedLayout.move_mem (by norm_num) (by norm_num) p
    have hwidth : (800 : K) - 50 = 750 := by norm_num
    have hheight : (600 : K) - 50 = 550 := by norm_num
    rw [hwidth, hheight] at hframe
    exact hframe

theorem places_of_dumpToDot (hstyle : config.value Json.getString "layout.style" "auto" = .ok "auto")
    (h : dumpToDot f w config params order = .ok g) :
    g.nodes.map DotNode.name = f.instances.map (·.1) ∧
      ∀ e ∈ f.instances, ∃ x y : K, ⟨e.1, some (.placed x y)⟩ ∈ g.nodes ∧
        if (w.object e.2).layout.valid then
          x = (w.object e.2).layout.x ∧ y = (w.object e.2).layout.y
        else x ∈ Set.Icc 50 750 ∧ y ∈ Set.Icc 50 550 := by
  obtain ⟨style, calls, layout, hstyle', hcalls, hlayout, hnodes⟩ := dumpToDot_ok h
  rw [hstyle] at hstyle'
  cases hstyle'
  obtain ⟨before, hbefore, -, rfl⟩ := layoutCalls_ok hcalls
  rw [if_pos rfl] at hlayout
  have honce : (before.filterMap LayoutCall.added).Nodup := by
    rw [hbefore.added]
    exact f.nodup
  obtain ⟨s, hs, hrespected⟩ := LayoutCall.exists_respected params honce hbefore.allowed
  have hrun : LayoutCall.applyAll params (before ++ [.run 800 600]) = .ok (s.run params 800 600) :=
    LayoutCall.applyAll_concat hs rfl
  rw [hlayout] at hrun
  cases hrun
  refine ⟨map_of_mapM_ok hnodes fun e node hnode => ?_, fun e he => ?_⟩
  · obtain ⟨pos, -, rfl⟩ := printNode_auto_ok hnode
    rfl
  · obtain ⟨node, hmem, hnode⟩ := mem_of_mapM_ok hnodes he
    obtain ⟨pos, hpos, rfl⟩ := printNode_auto_ok hnode
    exact ⟨pos.x, pos.y, hmem, place_of_run hrespected (hbefore.instances e he) hpos⟩

variable (params) in
theorem exists_dumpToDot {calls : List (LayoutCall K)}
    (hstyle : config.value Json.getString "layout.style" "auto" = .ok style)
    (hcalls : layoutCalls f w config style (order.visit (w.groups.map (·.1)).dedup) = .ok calls) :
    ∃ g, dumpToDot f w config params order = .ok g := by
  obtain ⟨-, -, hall, -⟩ := layoutCalls_ok hcalls
  have honce : (calls.filterMap LayoutCall.added).Nodup := by
    rw [hall.added]
    exact f.nodup
  obtain ⟨layout, hlayout, hrespected⟩ := LayoutCall.exists_respected params honce hall.allowed
  have hnodes : ∀ e ∈ f.getAllInstances, ∃ node, printNode w style layout.positions e = .ok node := by
    intro e he
    have hentry : (layout.positions e.1).isSome := by
      have hadded := hall.instances e he
      unfold addInstance at hadded
      simp only at hadded
      split_ifs at hadded
      · exact hrespected.entries _ _ _ hadded
      · exact hrespected.entries _ _ _ hadded
    obtain ⟨pos, hpos⟩ := Option.isSome_iff_exists.mp hentry
    unfold printNode
    rw [hpos]
    split_ifs <;> exact ⟨_, rfl⟩
  obtain ⟨nodes, hnodes⟩ := exists_mapM_ok.mpr hnodes
  unfold dumpToDot
  exact ⟨_, bind_eq_ok.mpr ⟨style, mapError_eq_ok.mpr hstyle, bind_eq_ok.mpr ⟨calls,
    mapError_eq_ok.mpr hcalls, bind_eq_ok.mpr ⟨layout, mapError_eq_ok.mpr hlayout,
      bind_eq_ok.mpr ⟨nodes, hnodes, rfl⟩⟩⟩⟩⟩

/-- The dump completes when all members of the groups are instances, and dereferences null otherwise. No
division and no look-up of the layout fails. -/
theorem dumpToDot_completes_iff
    (hstyle : config.value Json.getString "layout.style" "auto" = .ok style)
    (hplacements : PlacementsRead config w) :
    ((∃ g, dumpToDot f w config params order = .ok g) ↔
      ∀ name, ∀ member ∈ ModuleGroup.getMembers w.groups name, (f.getInstance member).isSome) ∧
    (dumpToDot f w config params order = .error (.json .nullDeref) ↔
      ∃ name, ∃ member ∈ ModuleGroup.getMembers w.groups name, f.getInstance member = none) := by
  have hcompletes : (∃ g, dumpToDot f w config params order = .ok g) ↔
      ∀ name, ∀ member ∈ ModuleGroup.getMembers w.groups name, (f.getInstance member).isSome := by
    rw [← exists_layoutCalls_iff (K := K) style order hplacements]
    constructor
    · rintro ⟨g, h⟩
      obtain ⟨style', calls, layout, hstyle', hcalls, -, -⟩ := dumpToDot_ok h
      rw [hstyle] at hstyle'
      cases hstyle'
      exact ⟨calls, hcalls⟩
    · rintro ⟨calls, hcalls⟩
      exact exists_dumpToDot params hstyle hcalls
  refine ⟨hcompletes, fun hfault => ?_, ?_⟩
  · have hnot : ¬ ∀ name, ∀ member ∈ ModuleGroup.getMembers w.groups name,
        (f.getInstance member).isSome := by
      intro hall
      obtain ⟨g, h⟩ := hcompletes.mpr hall
      rw [hfault] at h
      cases h
    push Not at hnot
    obtain ⟨name, member, hmember, hnone⟩ := hnot
    exact ⟨name, member, hmember, Option.not_isSome_iff_eq_none.mp hnone⟩
  · rintro ⟨name, member, hmember, hnone⟩
    -- the member stops the loop over the groups
    cases hcalls : layoutCalls (K := K) f w config style
        (order.visit (w.groups.map (·.1)).dedup) with
    | ok calls =>
      have hall := (exists_layoutCalls_iff style order hplacements).mp ⟨calls, hcalls⟩
      have hsome := hall name member hmember
      rw [hnone] at hsome
      cases hsome
    | error e =>
      cases nullDeref_of_layoutCalls hplacements hcalls
      unfold dumpToDot
      refine bind_eq_error.mpr (.inr ⟨style, mapError_eq_ok.mpr hstyle, bind_eq_error.mpr (.inl ?_)⟩)
      exact mapError_error hcalls

/-- With the style `auto` each instance is one node: at its own place where it has one, and otherwise
inside the picture, whatever the forces and the groups. -/
theorem dumpToDot_places (hstyle : config.value Json.getString "layout.style" "auto" = .ok "auto")
    (hplacements : PlacementsRead config w)
    (hmembers : ∀ name, ∀ member ∈ ModuleGroup.getMembers w.groups name,
      (f.getInstance member).isSome) :
    ∃ g, dumpToDot f w config params order = .ok g ∧
      g.nodes.map DotNode.name = f.instances.map (·.1) ∧
      ∀ e ∈ f.instances, ∃ x y : K, ⟨e.1, some (.placed x y)⟩ ∈ g.nodes ∧
        if (w.object e.2).layout.valid then
          x = (w.object e.2).layout.x ∧ y = (w.object e.2).layout.y
        else x ∈ Set.Icc 50 750 ∧ y ∈ Set.Icc 50 550 := by
  obtain ⟨calls, hcalls⟩ := (exists_layoutCalls_iff (K := K) "auto" order hplacements).mpr hmembers
  obtain ⟨g, h⟩ := exists_dumpToDot params hstyle hcalls
  exact ⟨g, h, places_of_dumpToDot hstyle h⟩

/-- A group of a node in its own place and one without. -/
theorem dumpToDot_places_cpuCache : ∃ g,
    dumpToDot cpuCache cpuCacheWorld (.object []) rationalParams ⟨id, .refl⟩ = .ok g ∧
      g.nodes.map DotNode.name = cpuCache.instances.map (·.1) ∧
      ∀ e ∈ cpuCache.instances, ∃ x y : ℚ, ⟨e.1, some (.placed x y)⟩ ∈ g.nodes ∧
        if (cpuCacheWorld.object e.2).layout.valid then
          x = (cpuCacheWorld.object e.2).layout.x ∧ y = (cpuCacheWorld.object e.2).layout.y
        else x ∈ Set.Icc 50 750 ∧ y ∈ Set.Icc 50 550 := by
  refine dumpToDot_places rfl (fun _ _ => ⟨"circle", rfl⟩) fun name member hmember => ?_
  have hgroup : ModuleGroup.getMembers cpuCacheWorld.groups name =
      if name == "all" then ["cpu", "cache"] else [] := by
    change ([("all", ["cpu", "cache"])].lookup name).getD [] = _
    rw [List.lookup_cons]
    cases name == "all" <;> rfl
  rw [hgroup] at hmember
  split_ifs at hmember
  · simp only [List.mem_cons, List.not_mem_nil, or_false] at hmember
    rcases hmember with rfl | rfl <;> rfl
  · exact absurd hmember List.not_mem_nil

/-- Without the cache among the instances. -/
theorem dumpToDot_completes_iff_cpu :
    ((∃ g, dumpToDot cpuAlone cpuCacheWorld (.object []) rationalParams ⟨id, .refl⟩ = .ok g) ↔
      ∀ name, ∀ member ∈ ModuleGroup.getMembers cpuCacheWorld.groups name,
        (cpuAlone.getInstance member).isSome) ∧
    dumpToDot cpuAlone cpuCacheWorld (.object []) rationalParams ⟨id, .refl⟩ =
      .error (.json .nullDeref) := by
  have hmember : "cache" ∈ ModuleGroup.getMembers cpuCacheWorld.groups "all" := by decide
  have hplacements : PlacementsRead (.object []) cpuCacheWorld := fun _ _ => ⟨"circle", rfl⟩
  refine ⟨(dumpToDot_completes_iff rfl hplacements).1, ?_⟩
  exact (dumpToDot_completes_iff rfl hplacements).2.mpr ⟨"all", "cache", hmember, rfl⟩

/-- What a factory instantiates is not registered, so the dump of it is empty, or dereferences null
for the first member of a group. -/
theorem dumpToDot_of_instantiateAll {env : Env} {fuel : ℕ} {eq : EventQueue (SimEvent ObjPtr L)}
    {f' : ModuleFactory L} {w' : World} {cfg : Json}
    (h : (ModuleFactory.new eq).instantiateAll env fuel cfg w = .ok (f', w'))
    (hstyle : config.value Json.getString "layout.style" "auto" = .ok style)
    (hplacements : PlacementsRead config w') :
    ((∃ g, dumpToDot f' w' config params order = .ok g) ↔
      ∀ name, ModuleGroup.getMembers w'.groups name = []) ∧
    ∀ g, dumpToDot f' w' config params order = .ok g → g.nodes = [] ∧ g.edges = [] := by
  obtain ⟨c, -, h⟩ := bind_eq_ok.mp h
  cases h
  have hnone : ∀ name, ¬ ((ModuleFactory.new eq).getInstance name).isSome :=
    fun _ hsome => nomatch hsome
  refine ⟨⟨?_, fun hempty => ?_⟩, fun g hg => ⟨?_, ?_⟩⟩
  · rintro ⟨g, hg⟩ name
    obtain ⟨style', calls, layout, hstyle', hcalls, -, -⟩ := dumpToDot_ok hg
    have hmembers := (exists_layoutCalls_iff (K := K) style' order hplacements).mp ⟨calls, hcalls⟩ name
    exact List.eq_nil_iff_forall_not_mem.mpr fun member hmem => hnone member (hmembers member hmem)
  · obtain ⟨calls, hcalls⟩ := (exists_layoutCalls_iff (K := K) style order hplacements).mpr
      fun name member hmem => absurd hmem (by rw [hempty name]; exact List.not_mem_nil)
    exact exists_dumpToDot params hstyle hcalls
  · obtain ⟨style', calls, layout, -, -, -, hnodes⟩ := dumpToDot_ok hg
    exact (Except.ok.inj hnodes).symm
  · rw [edges_of_dumpToDot hg]
    rfl

section
open Json

/-- The configuration of the layout demo. -/
def chipConfig : Json := object
  [("connections", array
    [object [("dst", string "l1"), ("latency", int 2), ("src", string "group:cpus")]]),
   ("groups", object [("cpus", array [string "cpu0"])]),
   ("modules", array
    [object [("layout", object [("x", int 100), ("y", int 200)]), ("name", string "cpu0"),
      ("type", string "CPUSim")]])]

def chipTypes : World where
  registry :=
    { modules := fun _ => none
      objects := fun t => if t = "CPUSim" then some fun _ => none else none }

def chipFile : Env :=
  (Env.plain (fun file => if file = "chip.json" then some (some chipConfig) else none)
    dotStarRegex).including 6

def chipInstantiated : ModuleFactory Unit × World :=
  valueOr (.new .new, chipTypes)
    ((ModuleFactory.new .new).instantiateAll chipFile 1 (string "chip.json") chipTypes)

theorem dumpToDot_of_instantiateAll_chip :
    ((∃ g, dumpToDot chipInstantiated.1 chipInstantiated.2 (.object []) rationalParams ⟨id, .refl⟩ =
        .ok g) ↔ ∀ name, ModuleGroup.getMembers chipInstantiated.2.groups name = []) ∧
    ∀ g, dumpToDot chipInstantiated.1 chipInstantiated.2 (.object []) rationalParams ⟨id, .refl⟩ =
      .ok g → g.nodes = [] ∧ g.edges = [] := by
  have hreturns : ((ModuleFactory.new (L := Unit) .new).instantiateAll
      chipFile 1 (string "chip.json") chipTypes).isOk := by decide +kernel
  have hinstantiated : (ModuleFactory.new .new).instantiateAll chipFile 1 (string "chip.json")
      chipTypes = .ok (chipInstantiated.1, chipInstantiated.2) :=
    eq_ok_valueOr (d := (.new .new, chipTypes)) hreturns
  exact dumpToDot_of_instantiateAll hinstantiated rfl fun _ _ => ⟨"circle", rfl⟩

end

end TopologyDumper
end GemSc
