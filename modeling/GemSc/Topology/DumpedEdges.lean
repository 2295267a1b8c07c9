import GemSc.Topology.TopologyDumper

/-! The edges of a dumped topology are the links between its instances, each once. -/

namespace GemSc
open ExceptFold

namespace TopologyDumper
variable {K L : Type} [Field K] [LinearOrder K] {f : ModuleFactory L} {w : World} {config : Json}
  {params : LayoutParams K} {order : HashOrder String} {g : DotGraph K}
  {instances : List (String × ObjPtr)} {edges l : List (String × String)} {a b : String}

def Linked (w : World) (instances : List (String × ObjPtr)) (a b : String) : Prop :=
  ∃ src dst i j, (a, src) ∈ instances ∧ dst ∈ instances.map (·.2) ∧
    i < (w.labels src false).length ∧ j < (w.labels dst true).length ∧
    (w.wires ⟨src, false, i⟩).sendTarget = some ⟨dst, true, j⟩ ∧ (w.object dst).name = b

theorem findOwner_eq_some {port : PortRef} {dst : ObjPtr} :
    findOwner w port instances = some dst ↔ dst ∈ instances.map (·.2) ∧
      ∃ j < (w.labels dst true).length, port = ⟨dst, true, j⟩ := by
  unfold findOwner
  constructor
  · intro h
    obtain ⟨e, he, rfl⟩ := Option.map_eq_some_iff.mp h
    have hport := List.find?_some he
    simp only [Bool.and_eq_true, beq_iff_eq, decide_eq_true_eq] at hport
    obtain ⟨⟨hup, howner⟩, hid⟩ := hport
    refine ⟨List.mem_map_of_mem (List.mem_of_find?_eq_some he), port.id, hid, ?_⟩
    rw [← howner, ← hup]
  · rintro ⟨hdst, j, hj, rfl⟩
    obtain ⟨e, he, rfl⟩ := List.mem_map.mp hdst
    cases hfind : instances.find? fun e' =>
        (⟨e.2, true, j⟩ : PortRef).isUpstream && (⟨e.2, true, j⟩ : PortRef).owner == e'.2 &&
          decide ((⟨e.2, true, j⟩ : PortRef).id < (w.labels e'.2 true).length) with
    | none =>
      have hnone := List.find?_eq_none.mp hfind e he
      simp [hj] at hnone
    | some e' =>
      have hport := List.find?_some hfind
      simp only [Bool.true_and, Bool.and_eq_true, beq_iff_eq] at hport
      rw [Option.map_some, hport.1]

theorem mem_downstreamPorts {src : ObjPtr} {port : PortRef} : port ∈ downstreamPorts w src ↔
    ∃ i < (w.labels src false).length, port = ⟨src, false, i⟩ := by
  unfold downstreamPorts
  rw [List.mem_map]
  constructor
  · rintro ⟨i, hi, rfl⟩
    exact ⟨i, List.mem_range.mp hi, rfl⟩
  · rintro ⟨i, hi, rfl⟩
    exact ⟨i, List.mem_range.mpr hi, rfl⟩

theorem mem_links : (a, b) ∈ links w instances ↔ Linked w instances a b := by
  unfold links
  rw [List.mem_flatMap]
  constructor
  · rintro ⟨e, he, hport⟩
    obtain ⟨port, hport, hlink⟩ := List.mem_filterMap.mp hport
    obtain ⟨i, hi, rfl⟩ := mem_downstreamPorts.mp hport
    obtain ⟨peer, hpeer, hlink⟩ := Option.bind_eq_some_iff.mp hlink
    obtain ⟨dst, hdst, hlink⟩ := Option.bind_eq_some_iff.mp hlink
    cases hlink
    obtain ⟨hmem, j, hj, rfl⟩ := findOwner_eq_some.mp hdst
    exact ⟨e.2, dst, i, j, he, hmem, hi, hj, hpeer, rfl⟩
  · rintro ⟨src, dst, i, j, he, hdst, hi, hj, hpeer, rfl⟩
    refine ⟨(a, src), he, List.mem_filterMap.mpr
      ⟨⟨src, false, i⟩, mem_downstreamPorts.mpr ⟨i, hi, rfl⟩, ?_⟩⟩
    have howner : findOwner w ⟨dst, true, j⟩ instances = some dst :=
      findOwner_eq_some.mpr ⟨hdst, j, hj, rfl⟩
    rw [hpeer]
    change (findOwner w ⟨dst, true, j⟩ instances >>= _) = _
    rw [howner]
    rfl

theorem nodup_foldl_addEdge (h : (edges.map edgeKey).Nodup) (l : List (String × String)) :
    ((l.foldl addEdge edges).map edgeKey).Nodup := by
  induction l generalizing edges with
  | nil => exact h
  | cons e l ih =>
    refine ih ?_
    unfold addEdge
    split_ifs with hmem
    · exact h
    · rw [List.map_append, List.nodup_append]
      refine ⟨h, List.nodup_singleton _, fun x hx y hy heq => ?_⟩
      rw [List.map_singleton, List.mem_singleton] at hy
      rw [heq, hy] at hx
      exact hmem hx

theorem mem_of_mem_foldl_addEdge {e : String × String} (h : e ∈ l.foldl addEdge edges) :
    e ∈ edges ∨ e ∈ l := by
  induction l generalizing edges with
  | nil => exact Or.inl h
  | cons e' l ih =>
    rcases ih h with h | h
    · unfold addEdge at h
      split_ifs at h
      · exact Or.inl h
      · rcases List.mem_append.mp h with h | h
        · exact Or.inl h
        · rw [List.mem_singleton.mp h]
          exact Or.inr (List.mem_cons_self ..)
    · exact Or.inr (List.mem_cons_of_mem _ h)

theorem key_mem_foldl_addEdge {e : String × String} (h : edgeKey e ∈ edges.map edgeKey ∨ e ∈ l) :
    edgeKey e ∈ (l.foldl addEdge edges).map edgeKey := by
  induction l generalizing edges with
  | nil =>
    rcases h with h | h
    · exact h
    · exact absurd h List.not_mem_nil
  | cons e' l ih =>
    refine ih ?_
    unfold addEdge
    rcases h with h | h
    · left
      split_ifs
      · exact h
      · rw [List.map_append]
        exact List.mem_append_left _ h
    · rcases List.mem_cons.mp h with rfl | h
      · left
        split_ifs with hmem
        · exact hmem
        · rw [List.map_append]
          exact List.mem_append_right _ (List.mem_singleton_self _)
      · exact Or.inr h

/-- The source of a key ends before its first `>`. -/
theorem edgeKey_inj {a' b' : String} (ha : '>' ∉ a.toList) (ha' : '>' ∉ a'.toList)
    (h : edgeKey (a, b) = edgeKey (a', b')) : (a, b) = (a', b') := by
  have hsplit : ∀ {x y : String}, '>' ∉ x.toList →
      (edgeKey (x, y)).toList.takeWhile (· ≠ '>') = x.toList ++ ['-'] ∧
        (edgeKey (x, y)).toList.dropWhile (· ≠ '>') = '>' :: y.toList := by
    intro x y hx
    have hkey : (edgeKey (x, y)).toList = (x.toList ++ ['-']) ++ '>' :: y.toList := by
      unfold edgeKey
      rw [String.toList_append, String.toList_append]
      simp
    have hall : ∀ c ∈ x.toList ++ ['-'], decide (c ≠ '>') = true := by
      intro c hc
      rw [decide_eq_true_iff]
      rintro rfl
      rcases List.mem_append.mp hc with hc | hc
      · exact hx hc
      · exact absurd (List.mem_singleton.mp hc) (by decide)
    rw [hkey]
    constructor
    · rw [List.takeWhile_append_of_pos hall]
      simp
    · rw [List.dropWhile_append_of_pos hall]
      simp
  obtain ⟨htake, hdrop⟩ := hsplit (y := b) ha
  obtain ⟨htake', hdrop'⟩ := hsplit (y := b') ha'
  rw [h, htake'] at htake
  rw [h, hdrop'] at hdrop
  have hsrc : a'.toList = a.toList := List.append_cancel_right htake
  have hdst : b'.toList = b.toList := (List.cons.inj hdrop).2
  rw [String.toList_inj.mp hsrc, String.toList_inj.mp hdst]

theorem nodup_allEdges : (allEdges w instances).Nodup := by
  have hstart : (([] : List (String × String)).map edgeKey).Nodup := List.nodup_nil
  exact List.Nodup.of_map edgeKey (nodup_foldl_addEdge hstart (links w instances))

theorem mem_allEdges (hplain : ∀ e ∈ instances, '>' ∉ e.1.toList) :
    (a, b) ∈ allEdges w instances ↔ Linked w instances a b := by
  rw [← mem_links]
  unfold allEdges
  constructor
  · intro h
    rcases mem_of_mem_foldl_addEdge h with h | h
    · exact absurd h List.not_mem_nil
    · exact h
  · intro h
    have hsource : ∀ a' b', (a', b') ∈ links w instances → '>' ∉ a'.toList := by
      intro a' b' hlink
      obtain ⟨src, _, _, _, hsrc, _⟩ := mem_links.mp hlink
      exact hplain (a', src) hsrc
    obtain ⟨e, he, hkey⟩ := List.mem_map.mp (key_mem_foldl_addEdge (Or.inr h))
    have hlink : e ∈ links w instances :=
      (mem_of_mem_foldl_addEdge he).resolve_left List.not_mem_nil
    have heq : e = (a, b) := edgeKey_inj (hsource e.1 e.2 hlink) (hsource a b h) hkey
    rw [← heq]
    exact he

/-- The first port of `src` that is bound to a port of an object of that name, whose owner may be
another object than an instance. -/
def IsFirstTo (w : World) (src : ObjPtr) (b : String) (port : PortRef) : Prop :=
  ∃ before after, downstreamPorts w src = before ++ port :: after ∧
    (∃ peer, (w.wires port).sendTarget = some peer ∧ (w.object peer.owner).name = b) ∧
    ∀ q ∈ before, ∀ peer, (w.wires q).sendTarget = some peer → (w.object peer.owner).name ≠ b

theorem edgeDelay_of_linked {src dst : ObjPtr} {i j : ℕ} (hi : i < (w.labels src false).length)
    (hpeer : (w.wires ⟨src, false, i⟩).sendTarget = some ⟨dst, true, j⟩) :
    ∃ port, IsFirstTo w src (w.object dst).name port ∧
      edgeDelay w src (w.object dst).name = (w.wires port).delayCycles := by
  unfold edgeDelay
  cases hfind : (downstreamPorts w src).find? fun port =>
      (w.wires port).sendTarget.any fun peer => (w.object peer.owner).name == (w.object dst).name with
  | none =>
    have hnone := List.find?_eq_none.mp hfind ⟨src, false, i⟩ (mem_downstreamPorts.mpr ⟨i, hi, rfl⟩)
    rw [hpeer] at hnone
    simp at hnone
  | some port =>
    obtain ⟨hport, before, after, hsplit, hothers⟩ := List.find?_eq_some_iff_append.mp hfind
    obtain ⟨peer, hpeer', hname⟩ := (Option.any_eq_true ..).mp hport
    refine ⟨port, ⟨before, after, hsplit, ⟨peer, hpeer', eq_of_beq hname⟩, ?_⟩, rfl⟩
    intro q hq peer' hbound heq
    have hother := hothers q hq
    rw [hbound, Option.any_some, heq, beq_self_eq_true] at hother
    exact absurd hother (by decide)

theorem edges_of_dumpToDot (h : dumpToDot f w config params order = .ok g) :
    g.edges = (allEdges w f.getAllInstances).map (printEdge f w) := by
  unfold dumpToDot at h
  obtain ⟨style, -, h⟩ := bind_eq_ok.mp h
  obtain ⟨calls, -, h⟩ := bind_eq_ok.mp h
  obtain ⟨layout, -, h⟩ := bind_eq_ok.mp h
  obtain ⟨nodes, -, h⟩ := bind_eq_ok.mp h
  cases h
  rfl

/-- The dumped graph has one edge for each two instances with a link from the first to the second, and
for no others. Its label is the delay of the first port that is bound to an object of that name. -/
theorem dumpToDot_edges (hplain : ∀ e ∈ f.instances, '>' ∉ e.1.toList)
    (h : dumpToDot f w config params order = .ok g) :
    (g.edges.map fun e => (e.src, e.dst)).Nodup ∧
    (∀ a b, (a, b) ∈ g.edges.map (fun e => (e.src, e.dst)) ↔ Linked w f.instances a b) ∧
    ∀ e ∈ g.edges, ∃ src, f.getInstance e.src = some src ∧
      ∃ port, IsFirstTo w src e.dst port ∧ e.delay = (w.wires port).delayCycles := by
  have hpairs : g.edges.map (fun e => (e.src, e.dst)) = allEdges w f.instances := by
    rw [edges_of_dumpToDot h, List.map_map]
    exact List.map_id _
  refine ⟨?_, fun a b => ?_, fun e he => ?_⟩
  · rw [hpairs]
    exact nodup_allEdges
  · rw [hpairs]
    exact mem_allEdges hplain
  · rw [edges_of_dumpToDot h] at he
    obtain ⟨⟨a, b⟩, hab, rfl⟩ := List.mem_map.mp he
    obtain ⟨src, dst, i, j, hsrc, -, hi, -, hpeer, rfl⟩ := (mem_allEdges hplain).mp hab
    have hinstance : f.getInstance a = some src := Assignments.lookup_of_nodup f.nodup hsrc
    obtain ⟨port, hfirst, hdelay⟩ := edgeDelay_of_linked hi hpeer
    refine ⟨src, hinstance, port, hfirst, ?_⟩
    rw [← hdelay]
    unfold printEdge
    rw [hinstance]
    rfl

def cpuCacheWorld : World :=
  ({ registry := ⟨fun _ => none, fun _ => none⟩
     groups := [("all", ["cpu", "cache"])]
     object := fun p =>
      if p = 0 then ⟨"cpu", some (PortManager.empty.addDownstreamPort [4] [] "mem"), ⟨100, 40⟩⟩
      else ⟨"cache", some (PortManager.empty.addUpstreamPort [4] [] "cpu"), {}⟩ } : World).link
    ⟨0, false, 0⟩ ⟨1, true, 0⟩ 5

def cpuCache : ModuleFactory Unit := ⟨.new, [("cpu", 0), ("cache", 1)], by decide⟩

def cpuAlone : ModuleFactory Unit := ⟨.new, [("cpu", 0)], by decide⟩

def manualConfig : Json := .object [("layout.style", .string "manual")]

def cpuCacheGraph : DotGraph ℚ :=
  valueOr ⟨[], [], []⟩ (dumpToDot cpuCache cpuCacheWorld manualConfig rationalParams ⟨id, .refl⟩)

theorem dumpToDot_edges_cpuCache :
    (cpuCacheGraph.edges.map fun e => (e.src, e.dst)).Nodup ∧
    (∀ a b, (a, b) ∈ cpuCacheGraph.edges.map (fun e => (e.src, e.dst)) ↔
      Linked cpuCacheWorld cpuCache.instances a b) ∧
    ∀ e ∈ cpuCacheGraph.edges, ∃ src, cpuCache.getInstance e.src = some src ∧
      ∃ port, IsFirstTo cpuCacheWorld src e.dst port ∧
        e.delay = (cpuCacheWorld.wires port).delayCycles := by
  have hcompletes : (dumpToDot (K := ℚ) cpuCache cpuCacheWorld manualConfig rationalParams
      ⟨id, .refl⟩).isOk := by decide +kernel
  exact dumpToDot_edges (by decide) (eq_ok_valueOr hcompletes)

end TopologyDumper
end GemSc
