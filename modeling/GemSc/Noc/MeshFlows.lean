import GemSc.Noc.MeshProgress

/-! A flow of flits from one port of the surroundings to one node. All of them go the same way, and
they come out in the order in which they came in. -/

namespace GemSc
open Function ScTlmRouter RouterMesh

/-- The flits that come in at a port and go to a node of the mesh. -/
structure MeshFlow {F : Type*} (header : F → UInt64) (rows cols : ℕ) where
  carries : F → Bool
  source : MeshNode × Direction
  dest : MeshNode
  source_mem : source ∈ outerPorts (rectangle rows cols)
  dest_mem : dest ∈ rectangle rows cols
  addressed : ∀ f, carries f → destination header f = dest

namespace MeshFlow
variable {F : Type*} {header : F → UInt64} {rows cols : ℕ} (flow : MeshFlow header rows cols)

/-- No other port lets in flits of the flow. -/
def EntersAtSource (m : RouterMesh F) : Prop :=
  ∀ a ∈ outerPorts (rectangle rows cols), a ≠ flow.source →
    ∀ f ∈ m.accepted a.1 a.2, flow.carries f = false

def entered (m : RouterMesh F) : List F :=
  (m.accepted flow.source.1 flow.source.2).filter flow.carries

def left (m : RouterMesh F) : List F := (m.popped flow.dest .localPort).filter flow.carries

def hops : ℕ := flow.source.1.distance flow.dest

def node (f : F) (k : ℕ) : MeshNode := (nextNode header f)^[k] flow.source.1

def arrival (f : F) : ℕ → Direction
  | 0 => flow.source.2
  | k + 1 => (heading header f (flow.node f k)).opposite

def stream (m : RouterMesh F) (f : F) (k : ℕ) : List F :=
  (m.accepted (flow.node f k) (flow.arrival f k)).filter flow.carries

variable {flow} {m : RouterMesh F} {f g : F} {k : ℕ}

theorem heading_congr (h : destination header g = destination header f) (p : MeshNode) :
    heading header g p = heading header f p := by
  rw [heading_eq header g, heading_eq header f, h]

theorem heading_carried (hf : flow.carries f) (hg : flow.carries g) (p : MeshNode) :
    heading header g p = heading header f p :=
  heading_congr ((flow.addressed g hg).trans (flow.addressed f hf).symm) p

variable (flow f) in
theorem node_succ (k : ℕ) :
    flow.node f (k + 1) = (flow.node f k).hop (heading header f (flow.node f k)) :=
  iterate_succ_apply' ..

theorem node_mem (hf : flow.carries f) (k : ℕ) : flow.node f k ∈ rectangle rows cols := by
  induction k with
  | zero => exact (mem_outerPorts.mp flow.source_mem).1
  | succ k ih =>
    have hdest : destination header f ∈ rectangle rows cols := by
      rw [flow.addressed f hf]
      exact flow.dest_mem
    rw [node_succ]
    exact nextNode_mem_rectangle ih hdest

theorem node_hops (hf : flow.carries f) : flow.node f flow.hops = flow.dest := by
  have hreaches := (descends_nextNode header f).reaches flow.source.1
  unfold node hops
  rw [← flow.addressed f hf]
  exact distance_eq_zero_iff.mp hreaches

theorem heading_eq_localPort (hf : flow.carries f) (hk : k ≤ flow.hops) :
    heading header f (flow.node f k) = .localPort ↔ k = flow.hops := by
  rw [heading_eq_localPort_iff, ← distance_eq_zero_iff]
  have hdistance := (descends_nextNode header f).iterate flow.source.1 (k := k) (by
    rw [flow.addressed f hf]
    exact hk)
  have hhops : flow.source.1.distance (destination header f) = flow.hops := by
    rw [flow.addressed f hf]
    rfl
  rw [hhops] at hdistance
  unfold node
  omega

theorem node_injective (hf : flow.carries f) {i j : ℕ} (hi : i ≤ flow.hops) (hj : j ≤ flow.hops)
    (heq : flow.node f i = flow.node f j) : i = j := by
  have hne : ∀ {i j : ℕ}, i < j → j ≤ flow.hops → flow.node f i ≠ flow.node f j := by
    intro i j hij hj
    refine (descends_nextNode header f).ne flow.source.1 hij ?_
    rw [flow.addressed f hf]
    exact hj
  rcases lt_trichotomy i j with hlt | rfl | hgt
  · exact absurd heq (hne hlt hj)
  · rfl
  · exact absurd heq.symm (hne hgt hi)

theorem faces_node (hf : flow.carries f) (hk : k < flow.hops) :
    Faces (rectangle rows cols) (flow.node f k) (heading header f (flow.node f k)) := by
  refine ⟨fun heq => hk.ne ((heading_eq_localPort hf hk.le).mp heq), ?_⟩
  rw [← node_succ]
  exact node_mem hf (k + 1)

theorem mem_accepted {p : MeshNode} {e : Direction × F} (he : e ∈ m.took p) :
    e.2 ∈ m.accepted p e.1 :=
  List.mem_map_of_mem (List.mem_filter.mpr ⟨he, decide_eq_true rfl⟩)

theorem exists_took {p : MeshNode} {d : Direction} {g : F} (hg : g ∈ m.pushed header p d) :
    ∃ dir, (dir, g) ∈ m.took p := by
  obtain ⟨e, he, rfl⟩ := List.mem_map.mp hg
  exact ⟨e.1, (List.mem_filter.mp he).1⟩

theorem exists_sender (hm : Settled header (rectangle rows cols) m) {p : MeshNode}
    (hp : p ∈ rectangle rows cols) {d : Direction} (hd : Faces (rectangle rows cols) p d) {g : F}
    (hg : g ∈ m.accepted p d) :
    heading header g (p.hop d) = d.opposite ∧ ∃ dir, (dir, g) ∈ m.took (p.hop d) := by
  have hpushed := hm.pushed_inner hd.2 (faces_opposite hp hd)
  rw [hop_opposite, opposite_opposite] at hpushed
  have hmem : g ∈ m.pushed header (p.hop d) d.opposite := by
    rw [hpushed]
    exact List.mem_append_left _ hg
  exact ⟨hm.kept.heading_eq hmem, exists_took hmem⟩

theorem exists_node (hm : Settled header (rectangle rows cols) m) (henters : flow.EntersAtSource m)
    (hf : flow.carries f) {p : MeshNode} (hp : p ∈ rectangle rows cols) {e : Direction × F}
    (he : e ∈ m.took p) (hcarried : flow.carries e.2) :
    ∃ k ≤ flow.hops, p = flow.node f k ∧ e.1 = flow.arrival f k := by
  -- backwards along the way, on which the distance grows up to that of the farthest node
  set farthest := (rectangle rows cols).sup fun p => p.distance flow.dest with hfarthest
  have hbound : ∀ q ∈ rectangle rows cols, q.distance flow.dest ≤ farthest :=
    fun q hq => Finset.le_sup (f := fun p : MeshNode => p.distance flow.dest) hq
  induction hn : farthest - p.distance flow.dest using Nat.strong_induction_on
    generalizing p e with
  | _ n ih =>
    by_cases hd : Faces (rectangle rows cols) p e.1
    · obtain ⟨hheading, dir, htook⟩ := exists_sender hm hp hd (mem_accepted he)
      have hfarther := remaining_hop (opposite_ne_localPort hd.1) hheading
      rw [hop_opposite] at hfarther
      unfold RouterMesh.remaining at hfarther
      rw [flow.addressed e.2 hcarried] at hfarther
      have hle := hbound _ hd.2
      obtain ⟨k, hk, hnode, -⟩ := ih _ (by omega) hd.2 htook hcarried rfl
      have hdir : heading header f (flow.node f k) = e.1.opposite := by
        rw [← hnode, ← heading_carried hf hcarried]
        exact hheading
      have hlt : k < flow.hops := by
        refine lt_of_le_of_ne hk fun heq => ?_
        rw [(heading_eq_localPort hf hk).mpr heq] at hdir
        exact opposite_ne_localPort hd.1 hdir.symm
      refine ⟨k + 1, hlt, ?_, ?_⟩
      · rw [node_succ, hdir, ← hnode, hop_opposite]
      · change e.1 = (heading header f (flow.node f k)).opposite
        rw [hdir, opposite_opposite]
    · have hsource : (p, e.1) = flow.source := by
        by_contra hne
        have hnot := henters (p, e.1) (mem_outerPorts.mpr ⟨hp, hd⟩) hne e.2 (mem_accepted he)
        rw [hcarried] at hnot
        exact Bool.false_ne_true hnot.symm
      exact ⟨0, Nat.zero_le _, congrArg Prod.fst hsource, congrArg Prod.snd hsource⟩

theorem arrival_eq (hm : Settled header (rectangle rows cols) m) (henters : flow.EntersAtSource m)
    (hf : flow.carries f) (hk : k ≤ flow.hops) {e : Direction × F}
    (he : e ∈ m.took (flow.node f k)) (hcarried : flow.carries e.2) :
    e.1 = flow.arrival f k := by
  obtain ⟨j, hj, hnode, harrival⟩ := exists_node hm henters hf (node_mem hf k) he hcarried
  rw [node_injective hf hk hj hnode]
  exact harrival

theorem filter_map_filter {β γ : Type*} (key : β → Bool) (g : β → γ) (P : γ → Bool) (l : List β)
    (h : ∀ b ∈ l, P (g b) → key b) : ((l.filter key).map g).filter P = (l.map g).filter P := by
  rw [List.filter_map, List.filter_map, List.filter_filter]
  congr 1
  refine List.filter_congr fun b hb => ?_
  cases hP : P (g b) with
  | false => simp [hP]
  | true => simp [hP, h b hb hP]

theorem stream_eq (hm : Settled header (rectangle rows cols) m) (henters : flow.EntersAtSource m)
    (hf : flow.carries f) (hk : k ≤ flow.hops) :
    flow.stream m f k = ((m.took (flow.node f k)).map Prod.snd).filter flow.carries :=
  filter_map_filter _ _ _ _ fun _ he hcarried =>
    decide_eq_true (arrival_eq hm henters hf hk he hcarried)

theorem pushed_eq (hm : Settled header (rectangle rows cols) m) (henters : flow.EntersAtSource m)
    (hf : flow.carries f) (hk : k ≤ flow.hops) :
    (m.pushed header (flow.node f k) (heading header f (flow.node f k))).filter flow.carries =
      flow.stream m f k := by
  rw [stream_eq hm henters hf hk]
  refine filter_map_filter _ _ _ _ fun e _ hcarried => decide_eq_true ?_
  rw [(hm.kept _).currX, (hm.kept _).currY]
  exact heading_carried hf hcarried _

theorem stream_succ (hm : Settled header (rectangle rows cols) m) (henters : flow.EntersAtSource m)
    (hf : flow.carries f) (hk : k < flow.hops) :
    flow.stream m f (k + 1) <+: flow.stream m f k := by
  have hpushed := hm.pushed_inner (node_mem hf k) (faces_node hf hk)
  rw [← pushed_eq hm henters hf hk.le, hpushed]
  unfold stream
  rw [node_succ]
  exact (List.prefix_append _ _).filter _

theorem stream_isPrefix (hm : Settled header (rectangle rows cols) m)
    (henters : flow.EntersAtSource m) (hf : flow.carries f) (hk : k ≤ flow.hops) :
    flow.stream m f k <+: flow.entered m := by
  induction k with
  | zero => exact List.prefix_rfl
  | succ k ih =>
    exact (stream_succ hm henters hf hk).trans (ih (Nat.le_of_succ_le hk))

theorem pushed_dest (hm : Settled header (rectangle rows cols) m) (henters : flow.EntersAtSource m)
    (hf : flow.carries f) : (m.pushed header flow.dest .localPort).filter flow.carries =
      flow.stream m f flow.hops := by
  rw [← pushed_eq hm henters hf le_rfl, (heading_eq_localPort hf le_rfl).mpr rfl, node_hops hf]

theorem filter_eq_nil_of_none (hnone : ∀ f, flow.carries f = false) (l : List F) :
    l.filter flow.carries = [] :=
  List.filter_eq_nil_iff.mpr fun f _ => by simp [hnone f]

theorem left_isPrefix (hm : Settled header (rectangle rows cols) m)
    (henters : flow.EntersAtSource m) : flow.left m <+: flow.entered m := by
  by_cases hsome : ∃ f, flow.carries f = true
  · obtain ⟨f, hf⟩ := hsome
    have hqueued : m.pushed header flow.dest .localPort =
        m.popped flow.dest .localPort ++ m.buffer flow.dest .localPort := (hm.kept _).queued _
    have hleft : flow.left m <+: flow.stream m f flow.hops := by
      rw [← pushed_dest hm henters hf, hqueued]
      exact (List.prefix_append _ _).filter _
    exact hleft.trans (stream_isPrefix hm henters hf le_rfl)
  · have hnone : ∀ f, flow.carries f = false := fun f => by
      by_contra hne
      exact hsome ⟨f, Bool.eq_true_of_not_eq_false hne⟩
    unfold left
    rw [filter_eq_nil_of_none hnone]
    exact List.nil_prefix

/-- In every run the flits of a flow come out in the order in which they came in, each of them
once. -/
theorem run_inOrder (flow : MeshFlow header rows cols) (flit : F)
    (edges : List (MeshEdge (rectangle rows cols) F))
    (henters : flow.EntersAtSource ((new flit).run header (rectangle rows cols) edges)) :
    flow.left ((new flit).run header (rectangle rows cols) edges) <+:
      flow.entered ((new flit).run header (rectangle rows cols) edges) :=
  left_isPrefix ((settled_new header (rectangle rows cols) flit).run edges) henters

theorem entersAtSource_of_foreign {flit : F} {edges : ℕ → MeshEdge (rectangle rows cols) F}
    (hforeign : ∀ t, ∀ a ∈ outerPorts (rectangle rows cols), a ≠ flow.source →
      ((edges t).env a.1).reqIn a.2 = true →
        flow.carries (((edges t).env a.1).flitIn a.2) = false) (t : ℕ) :
    flow.EntersAtSource (before header (rectangle rows cols) flit edges t) := by
  intro a ha hne
  induction t with
  | zero => exact fun f hf => absurd hf List.not_mem_nil
  | succ t ih =>
    obtain ⟨more, haccepted, hoffered⟩ := accepted_edge_outer header
      (before header (rectangle rows cols) flit edges t) (edges t) (mem_outerPorts.mp ha).2
    rw [before_succ, haccepted]
    intro f hf
    rcases List.mem_append.mp hf with hf | hf
    · exact ih f hf
    · obtain ⟨hreq, rfl⟩ := hoffered f hf
      exact hforeign t a ha hne hreq

def pairFlow : MeshFlow (fun header : UInt64 => header) 1 2 where
  carries := fun f => [0x00001, 0x10001, 0x20001].contains f
  source := ((0, 0), .localPort)
  dest := (1, 0)
  source_mem := by decide
  dest_mem := by decide
  addressed := fun f hf => by
    have hmem : f ∈ ([0x00001, 0x10001, 0x20001] : List UInt64) := List.contains_iff_mem.mp hf
    fin_cases hmem <;> decide

theorem entersAtSource_pair (t : ℕ) :
    pairFlow.EntersAtSource (before (fun header => header) (rectangle 1 2) 0 (pairEdges 0) t) := by
  refine entersAtSource_of_foreign (fun t a _ hne _ => ?_) t
  have hnone : ∀ n, pairFlow.carries ((pairTraffic a).getD n 0) = false := by
    intro n
    have hlocal : ¬ a = ((0, 0), .localPort) := hne
    unfold pairTraffic
    rw [if_neg hlocal]
    split_ifs
    · cases n <;> rfl
    · cases n <;> rfl
    · rfl
  exact hnone (t / 2)

theorem run_inOrder_pair :
    pairFlow.left ((RouterMesh.new 0).run (fun header => header) (rectangle 1 2)
        ((List.range 12).map (pairEdges 0))) <+:
      pairFlow.entered ((RouterMesh.new 0).run (fun header => header) (rectangle 1 2)
        ((List.range 12).map (pairEdges 0))) :=
  run_inOrder pairFlow 0 _ (entersAtSource_pair 12)

section
variable {flit : F} {edges : ℕ → MeshEdge (rectangle rows cols) F}
  (henters : ∀ t, flow.EntersAtSource (before header (rectangle rows cols) flit edges t))
include henters

theorem exists_stream_succ (hf : flow.carries f) (hk : k < flow.hops) (t : ℕ) :
    ∃ t' ≥ t, flow.stream (before header (rectangle rows cols) flit edges t) f k <+:
      flow.stream (before header (rectangle rows cols) flit edges t') f (k + 1) := by
  have hlink := link_run header flit edges (node_mem hf k) (faces_node hf hk)
  obtain ⟨t', ht', hcrossed⟩ := hlink.exists_accepted t
  refine ⟨t', ht', ?_⟩
  rw [← pushed_eq (settled_before header flit edges t) (henters t) hf hk.le]
  unfold stream
  rw [node_succ]
  exact hcrossed.filter flow.carries

theorem exists_stream (hf : flow.carries f) (hk : k ≤ flow.hops) (t : ℕ) :
    ∃ t' ≥ t, flow.entered (before header (rectangle rows cols) flit edges t) <+:
      flow.stream (before header (rectangle rows cols) flit edges t') f k := by
  induction k with
  | zero => exact ⟨t, le_rfl, List.prefix_rfl⟩
  | succ k ih =>
    obtain ⟨t', ht', hstream⟩ := ih (Nat.le_of_succ_le hk)
    obtain ⟨t'', ht'', hnext⟩ := exists_stream_succ henters hf hk t'
    exact ⟨t'', ht'.trans ht'', hstream.trans hnext⟩

theorem exists_left (hack : Acknowledged header flit edges) (t : ℕ) : ∃ t' ≥ t,
    flow.entered (before header (rectangle rows cols) flit edges t) <+:
      flow.left (before header (rectangle rows cols) flit edges t') := by
  by_cases hsome : ∃ f, flow.carries f = true
  · obtain ⟨f, hf⟩ := hsome
    obtain ⟨t', ht', hstream⟩ := exists_stream henters hf le_rfl t
    have hserved := (hack.from t').served flow.dest_mem fun hd => hd.1 rfl
    obtain ⟨n, _, hleft⟩ := hserved.exists_popped 0
    refine ⟨t' + n, ht'.trans (Nat.le_add_right t' n), hstream.trans ?_⟩
    rw [← pushed_dest (settled_before header flit edges t') (henters t') hf]
    exact hleft.filter flow.carries
  · refine ⟨t, le_rfl, ?_⟩
    have hnone : ∀ f, flow.carries f = false := fun f => by
      by_contra hne
      exact hsome ⟨f, Bool.eq_true_of_not_eq_false hne⟩
    unfold entered
    rw [filter_eq_nil_of_none hnone]
    exact List.nil_prefix

end

/-- Whatever else is in the mesh, each flit of a flow that came in comes out some time later. -/
theorem run_eventuallyLeaves (flow : MeshFlow header rows cols) (flit : F)
    (edges : ℕ → MeshEdge (rectangle rows cols) F) (hack : Acknowledged header flit edges)
    (henters : ∀ t, flow.EntersAtSource (before header (rectangle rows cols) flit edges t))
    (t : ℕ) : ∃ t' ≥ t,
      flow.entered (before header (rectangle rows cols) flit edges t) <+:
        flow.left (before header (rectangle rows cols) flit edges t') :=
  exists_left henters hack t

theorem run_eventuallyLeaves_pair : ∃ t' ≥ 6,
    pairFlow.entered (before (fun header => header) (rectangle 1 2) 0 (pairEdges 0) 6) <+:
      pairFlow.left (before (fun header => header) (rectangle 1 2) 0 (pairEdges 0) t') :=
  run_eventuallyLeaves pairFlow 0 (pairEdges 0) (fun t => acknowledgedFrom_pair 0 t t.zero_le)
    entersAtSource_pair 6

end MeshFlow
end GemSc
