import GemSc.Noc.MeshDelivery

/-! No deadlock and no livelock: whatever waits somewhere in the mesh, a flit moves within three
clock edges, and each move brings it closer to its destination. -/

namespace GemSc
open Function ScTlmRouter

namespace RouterMesh
variable {F : Type*} (header : F → UInt64) (nodes : Finset MeshNode)

def before (flit : F) (edges : ℕ → MeshEdge nodes F) (t : ℕ) : RouterMesh F :=
  (new flit).run header nodes ((List.range t).map edges)

/-- The buffers that a flit at `p` still has to leave. -/
def remaining (p : MeshNode) (flit : F) : ℕ := p.distance (destination header flit) + 1

def remainingOf (p : MeshNode) (flits : List F) : ℕ := (flits.map (remaining header p)).sum

def work (m : RouterMesh F) : ℕ :=
  ∑ a ∈ ports nodes, remainingOf header a.1 (m.waiting nodes a.1 a.2)

def crossings (m : RouterMesh F) : ℕ := ∑ a ∈ innerPorts nodes, (m.accepted a.1 a.2).length

variable {header nodes} {m : RouterMesh F} {p : MeshNode} {d : Direction}

theorem remainingOf_append (p : MeshNode) (l l' : List F) :
    remainingOf header p (l ++ l') = remainingOf header p l + remainingOf header p l' := by
  unfold remainingOf
  rw [List.map_append, List.sum_append]

theorem length_le_remainingOf (p : MeshNode) (l : List F) : l.length ≤ remainingOf header p l := by
  induction l with
  | nil => exact le_rfl
  | cons f l ih =>
    have hone : 1 ≤ remaining header p f := Nat.le_add_left 1 _
    have hcons : remainingOf header p (f :: l) = remaining header p f + remainingOf header p l :=
      List.sum_cons
    rw [List.length_cons, hcons]
    omega

theorem remaining_hop {flit : F} (hd : d ≠ .localPort) (hheading : heading header flit p = d) :
    remaining header p flit = remaining header (p.hop d) flit + 1 := by
  have hne : p.distance (destination header flit) ≠ 0 := by
    intro hzero
    rw [(heading_eq_localPort_iff p).mpr (distance_eq_zero_iff.mp hzero)] at hheading
    exact hd hheading.symm
  have hcloser : (nextNode header flit p).distance (destination header flit) + 1 =
      p.distance (destination header flit) := descends_nextNode header flit p hne
  rw [nextNode, hheading] at hcloser
  unfold remaining
  omega

theorem remainingOf_hop (hd : d ≠ .localPort) {l : List F}
    (hl : ∀ f ∈ l, heading header f p = d) :
    remainingOf header p l = remainingOf header (p.hop d) l + l.length := by
  induction l with
  | nil => rfl
  | cons f l ih =>
    have hcons : ∀ q, remainingOf header q (f :: l) =
        remaining header q f + remainingOf header q l := fun _ => List.sum_cons
    have hrest := ih fun f' hf' => hl f' (List.mem_cons_of_mem _ hf')
    have hfirst := remaining_hop hd (hl f (List.mem_cons_self ..))
    rw [hcons, hcons, List.length_cons]
    omega

theorem sum_remainingOf_coe (p : MeshNode) (f : Direction → List F) :
    ∑ d, remainingOf header p (f d) =
      ((∑ d, (f d : Multiset F)).map (remaining header p)).sum := by
  have hsum := map_sum (Multiset.sumAddMonoidHom.comp
    (Multiset.mapAddMonoidHom (remaining header p))) (fun d => (f d : Multiset F)) Finset.univ
  exact hsum.symm

/-- The moves that the injected flits have to make are those that were made and those that are
left. -/
theorem Settled.work_eq (hm : Settled header nodes m) :
    ∑ a ∈ outerPorts nodes, remainingOf header a.1 (m.accepted a.1 a.2) =
      m.crossings nodes + ∑ a ∈ outerPorts nodes, remainingOf header a.1 (m.popped a.1 a.2) +
        m.work header nodes := by
  set crossed := ∑ a ∈ innerPorts nodes, remainingOf header a.1 (m.accepted a.1 a.2) with hcrossed
  have hpushed : ∑ a ∈ ports nodes, remainingOf header a.1 (m.accepted a.1 a.2) =
      ∑ a ∈ ports nodes, remainingOf header a.1 (m.pushed header a.1 a.2) := by
    rw [sum_ports, sum_ports]
    refine Finset.sum_congr rfl fun p _ => ?_
    rw [sum_remainingOf_coe, sum_remainingOf_coe, sum_accepted_eq_sum_pushed]
  have hinner : ∑ a ∈ innerPorts nodes, remainingOf header a.1 (m.pushed header a.1 a.2) =
      crossed + m.crossings nodes +
        ∑ a ∈ innerPorts nodes, remainingOf header a.1 (m.waiting nodes a.1 a.2) := by
    rw [hcrossed, crossings, ← Finset.sum_add_distrib,
      ← sum_inner_opposite fun a => remainingOf header a.1 (m.accepted a.1 a.2) +
        (m.accepted a.1 a.2).length, ← Finset.sum_add_distrib]
    refine Finset.sum_congr rfl fun a ha => ?_
    obtain ⟨hp, hd⟩ := mem_innerPorts.mp ha
    have hheading : ∀ f ∈ m.accepted (a.1.hop a.2) a.2.opposite, heading header f a.1 = a.2 := by
      intro f hf
      apply hm.kept.heading_eq
      rw [hm.pushed_inner hp hd]
      exact List.mem_append_left _ hf
    rw [hm.pushed_inner hp hd, remainingOf_append, remainingOf_hop hd.1 hheading]
  have houter : ∑ a ∈ outerPorts nodes, remainingOf header a.1 (m.pushed header a.1 a.2) =
      ∑ a ∈ outerPorts nodes, remainingOf header a.1 (m.popped a.1 a.2) +
        ∑ a ∈ outerPorts nodes, remainingOf header a.1 (m.waiting nodes a.1 a.2) := by
    rw [← Finset.sum_add_distrib]
    refine Finset.sum_congr rfl fun a ha => ?_
    rw [hm.pushed_outer a.1 (mem_outerPorts.mp ha).2, remainingOf_append]
  have haccepted := sum_inner_add_sum_outer nodes
    fun a => remainingOf header a.1 (m.accepted a.1 a.2)
  rw [hpushed, ← sum_inner_add_sum_outer, hinner, houter] at haccepted
  have hwork := sum_inner_add_sum_outer nodes
    fun a => remainingOf header a.1 (m.waiting nodes a.1 a.2)
  unfold work
  omega

def hopsOf (header : F → UInt64) (p : MeshNode) (flits : List F) : ℕ :=
  (flits.map fun f => p.distance (destination header f)).sum

theorem remainingOf_eq (p : MeshNode) (l : List F) :
    remainingOf header p l = hopsOf header p l + l.length := by
  unfold remainingOf hopsOf remaining
  rw [List.sum_map_add]
  simp

theorem sum_remainingOf (s : Finset (MeshNode × Direction)) (f : MeshNode × Direction → List F) :
    ∑ a ∈ s, remainingOf header a.1 (f a) =
      ∑ a ∈ s, hopsOf header a.1 (f a) + Multiset.card (∑ a ∈ s, (f a : Multiset F)) := by
  rw [Multiset.card_sum, ← Finset.sum_add_distrib]
  exact Finset.sum_congr rfl fun a _ => remainingOf_eq a.1 (f a)

/-- In every run no flit makes a detour: the hops that the flits had before them where they came in
were made, or are still before them where they wait or were handed over. -/
theorem run_makesNoDetours (header : F → UInt64) (nodes : Finset MeshNode) (flit : F)
    (edges : List (MeshEdge nodes F)) :
    ∑ a ∈ outerPorts nodes,
        hopsOf header a.1 (((new flit).run header nodes edges).accepted a.1 a.2) =
      ((new flit).run header nodes edges).crossings nodes +
        ∑ a ∈ outerPorts nodes,
          hopsOf header a.1 (((new flit).run header nodes edges).popped a.1 a.2) +
        ∑ a ∈ ports nodes,
          hopsOf header a.1 (((new flit).run header nodes edges).waiting nodes a.1 a.2) := by
  have hsettled := (settled_new header nodes flit).run edges
  set m := (new flit).run header nodes edges
  have hmoves := hsettled.work_eq
  have hcount := congrArg Multiset.card hsettled.injected_eq
  unfold work at hmoves
  unfold injected delivered inTransit at hcount
  rw [Multiset.card_add] at hcount
  rw [sum_remainingOf, sum_remainingOf, sum_remainingOf] at hmoves
  omega

theorem inTransit_of_work (h : m.work header nodes = 0) : m.inTransit nodes = 0 := by
  unfold work at h
  unfold inTransit
  refine Finset.sum_eq_zero fun a ha => ?_
  have hzero := Finset.sum_eq_zero_iff.mp h a ha
  have hlength : (m.waiting nodes a.1 a.2).length ≤
      remainingOf header a.1 (m.waiting nodes a.1 a.2) := length_le_remainingOf _ _
  rw [hzero, Nat.le_zero, List.length_eq_zero_iff] at hlength
  rw [hlength]
  rfl

theorem before_succ (flit : F) (edges : ℕ → MeshEdge nodes F) (t : ℕ) :
    before header nodes flit edges (t + 1) =
      (before header nodes flit edges t).edge header nodes (edges t) := by
  unfold before run
  rw [List.range_succ, List.map_append, List.foldl_append]
  rfl

variable (header) in
theorem settled_before (flit : F) (edges : ℕ → MeshEdge nodes F) (t : ℕ) :
    Settled header nodes (before header nodes flit edges t) := (settled_new header nodes flit).run _

theorem along_isPrefix {l l' : List (Direction × F)} (h : l <+: l') (d : Direction) :
    along d l <+: along d l' := by
  obtain ⟨rest, rfl⟩ := h
  rw [along_append]
  exact List.prefix_append _ _

variable (header nodes) in
theorem logs_act (env : MeshNode → Inputs F) (m : RouterMesh F) (a : MeshNode × RouterProcess)
    (p : MeshNode) : m.took p <+: (m.act header nodes env a).took p ∧
      m.sent p <+: (m.act header nodes env a).sent p := by
  have hupdate : ∀ (log : MeshNode → List (Direction × F)) (q : MeshNode)
      (more : List (Direction × F)), log p <+: update log q (log q ++ more) p := by
    intro log q more
    by_cases hq : p = q
    · subst hq
      rw [update_self]
      exact List.prefix_append _ _
    · rw [update_of_ne hq]
  obtain ⟨q, process⟩ := a
  cases process with
  | routing => exact ⟨hupdate _ _ _, List.prefix_rfl⟩
  | arbitration => exact ⟨List.prefix_rfl, List.prefix_rfl⟩
  | switching => exact ⟨List.prefix_rfl, hupdate _ _ _⟩

variable (header) in
theorem logs_edge (m : RouterMesh F) (e : MeshEdge nodes F) (p : MeshNode) :
    m.took p <+: (m.edge header nodes e).took p ∧ m.sent p <+: (m.edge header nodes e).sent p := by
  have hactivities : ∀ (activities : List (MeshNode × RouterProcess)) (m : RouterMesh F),
      m.took p <+: (activities.foldl (act header nodes e.env) m).took p ∧
        m.sent p <+: (activities.foldl (act header nodes e.env) m).sent p := by
    intro activities
    induction activities with
    | nil => exact fun m => ⟨List.prefix_rfl, List.prefix_rfl⟩
    | cons a activities ih =>
      intro m
      obtain ⟨htook, hsent⟩ := logs_act header nodes e.env m a p
      obtain ⟨htook', hsent'⟩ := ih (m.act header nodes e.env a)
      exact ⟨htook.trans htook', hsent.trans hsent'⟩
  exact hactivities e.activities m

variable (header) in
theorem accepted_edge_outer (m : RouterMesh F) (e : MeshEdge nodes F) (hd : ¬ Faces nodes p d) :
    ∃ more, (m.edge header nodes e).accepted p d = m.accepted p d ++ more ∧
      ∀ f ∈ more, (e.env p).reqIn d = true ∧ f = (e.env p).flitIn d := by
  have hactivities : ∀ (activities : List (MeshNode × RouterProcess)) (m : RouterMesh F),
      ∃ more, (activities.foldl (act header nodes e.env) m).accepted p d = m.accepted p d ++ more ∧
        ∀ f ∈ more, (e.env p).reqIn d = true ∧ f = (e.env p).flitIn d := by
    intro activities
    induction activities with
    | nil => exact fun m => ⟨[], (List.append_nil _).symm, fun f hf => absurd hf List.not_mem_nil⟩
    | cons a activities ih =>
      intro m
      obtain ⟨rest, hrest, hoffered⟩ := ih (m.act header nodes e.env a)
      rw [List.foldl_cons, hrest]
      obtain ⟨q, process⟩ := a
      cases process with
      | routing =>
        by_cases hq : p = q
        · subst hq
          have hrouted := routed_routingProcess header (m.inputs nodes (e.env p) p) (m.router p)
          have hreq : (m.inputs nodes (e.env p) p).reqIn d = (e.env p).reqIn d := if_neg hd
          have hflit : (m.inputs nodes (e.env p) p).flitIn d = (e.env p).flitIn d := if_neg hd
          refine ⟨along d ((m.router p).routingProcess header (m.inputs nodes (e.env p) p)).2 ++ rest,
            ?_, fun f hf => ?_⟩
          · simp only [act, accepted, update_self, along_append, List.append_assoc]
          · rcases List.mem_append.mp hf with hf | hf
            · rw [hrouted.accepted, accepts, hreq, hflit] at hf
              grind
            · exact hoffered f hf
        · refine ⟨rest, ?_, hoffered⟩
          simp only [act, accepted, update_of_ne hq]
      | arbitration => exact ⟨rest, rfl, hoffered⟩
      | switching => exact ⟨rest, rfl, hoffered⟩
  exact hactivities e.activities m

theorem accepted_edge_of_quiet (m : RouterMesh F) (e : MeshEdge nodes F) (hd : ¬ Faces nodes p d)
    (hquiet : (e.env p).reqIn d = false) :
    (m.edge header nodes e).accepted p d = m.accepted p d := by
  obtain ⟨more, haccepted, hoffered⟩ := accepted_edge_outer header m e hd
  have hnone : more = [] := List.eq_nil_iff_forall_not_mem.mpr fun f hf => by
    have hreq := (hoffered f hf).1
    rw [hquiet] at hreq
    cases hreq
  rw [haccepted, hnone, List.append_nil]

theorem outer_edge (m : RouterMesh F) (hp : p ∈ nodes) (hd : ¬ Faces nodes p d)
    (e : MeshEdge nodes F) : m.pushed header p d <+: (m.edge header nodes e).pushed header p d ∧
    (m.buffer p d ≠ [] →
      (((m.edge header nodes e).router p).out d).reqOut.value =
        (!((m.router p).out d).reqOut.value && !(e.env p).ackOut d) ∧
      (m.edge header nodes e).popped p d = m.popped p d ++
        if !((m.router p).out d).reqOut.value && (e.env p).ackOut d then
          (m.buffer p d).head?.toList else []) := by
  obtain ⟨turns, hturns, hoffers, hreceives⟩ := exists_turns_outer header e.env hd e.activities m
  rw [e.once, if_pos hp] at hoffers
  set start := m.sender header p d (.init ((e.env p).ackOut d)) []
  have hsince : start.Since (turns.foldl Handshake.turn start) true false :=
    (Handshake.since_start start).turns turns ((Nat.zero_add _).trans hoffers)
      ((Nat.zero_add _).trans hreceives)
  rw [← hturns] at hsince
  refine ⟨hsince.pushed, fun hbuffer => ⟨hsince.requested rfl hbuffer, ?_⟩⟩
  have hpopped := hsince.popped hbuffer
  rw [Bool.true_and] at hpopped
  exact hpopped

section
variable (flit : F) (edges : ℕ → MeshEdge nodes F)

variable (header) in
theorem link_run (hp : p ∈ nodes) (hd : Faces nodes p d) :
    Handshake.Run fun t => (before header nodes flit edges t).link header p d where
  sound := (settled_before header flit edges 0).sound p hp d hd
  cycles := fun t => by
    rw [before_succ]
    exact exists_cycle_edge header hp hd (edges t) _

/-- The surroundings acknowledge what is requested from them at the next clock edge. -/
def Acknowledged (header : F → UInt64) (flit : F) (edges : ℕ → MeshEdge nodes F) : Prop :=
  ∀ t, ∀ a ∈ outerPorts nodes,
    (((before header nodes flit edges t).router a.1).out a.2).reqOut.value = true →
      ((edges (t + 1)).env a.1).ackOut a.2 = true

/-- They do so from clock edge `s` on, whatever they did before. -/
def AcknowledgedFrom (header : F → UInt64) (flit : F) (edges : ℕ → MeshEdge nodes F) (s : ℕ) : Prop :=
  ∀ t ≥ s, ∀ a ∈ outerPorts nodes,
    (((before header nodes flit edges t).router a.1).out a.2).reqOut.value = true →
      ((edges (t + 1)).env a.1).ackOut a.2 = true

variable {edges} {flit} {s s' : ℕ}

theorem Acknowledged.from (h : Acknowledged header flit edges) (s : ℕ) :
    AcknowledgedFrom header flit edges s := fun t _ => h t

theorem AcknowledgedFrom.later (h : AcknowledgedFrom header flit edges s) (hs : s ≤ s') :
    AcknowledgedFrom header flit edges s' := fun t ht => h t (hs.trans ht)

theorem AcknowledgedFrom.served (h : AcknowledgedFrom header flit edges s) (hp : p ∈ nodes)
    (hd : ¬ Faces nodes p d) :
    Handshake.Served fun t => (before header nodes flit edges (s + t)).sender header p d
      (.init (((edges (s + t)).env p).ackOut d)) [] where
  order := fun t => ((settled_before header flit edges (s + t)).kept p).queued d
  pushed_succ := fun t => by
    rw [← Nat.add_assoc, before_succ]
    exact (outer_edge _ hp hd (edges (s + t))).1
  popped_succ := fun t => by
    rw [← Nat.add_assoc, before_succ]
    exact along_isPrefix (logs_edge _ _ _ p).2 d
  front := fun t hbuffer => by
    rw [← Nat.add_assoc, before_succ]
    exact (outer_edge _ hp hd (edges (s + t))).2 hbuffer
  answered := fun t => h (s + t) (Nat.le_add_right s t) (p, d) (mem_outerPorts.mpr ⟨hp, hd⟩)

/-- The moves that were made: between routers, and those that are over for the flits that left. -/
def done (header : F → UInt64) (nodes : Finset MeshNode) (m : RouterMesh F) : ℕ :=
  m.crossings nodes + ∑ a ∈ outerPorts nodes, remainingOf header a.1 (m.popped a.1 a.2)

theorem remainingOf_add_le {l l' : List F} (h : l <+: l') (p : MeshNode) :
    remainingOf header p l + (l'.length - l.length) ≤ remainingOf header p l' := by
  obtain ⟨rest, rfl⟩ := h
  have hrest : rest.length ≤ remainingOf header p rest := length_le_remainingOf p rest
  rw [remainingOf_append, List.length_append]
  omega

variable (header flit edges) in
theorem logs_before {t t' : ℕ} (ht : t ≤ t') (p : MeshNode) :
    (before header nodes flit edges t).took p <+: (before header nodes flit edges t').took p ∧
      (before header nodes flit edges t).sent p <+: (before header nodes flit edges t').sent p := by
  induction t', ht using Nat.le_induction with
  | base => exact ⟨List.prefix_rfl, List.prefix_rfl⟩
  | succ t' _ ih =>
    rw [before_succ]
    obtain ⟨htook, hsent⟩ := logs_edge header (before header nodes flit edges t')
      (edges t') p
    exact ⟨ih.1.trans htook, ih.2.trans hsent⟩

theorem exists_waiting (h : m.inTransit nodes ≠ 0) :
    ∃ a ∈ ports nodes, m.waiting nodes a.1 a.2 ≠ [] := by
  by_contra hnone
  apply h
  unfold inTransit
  refine Finset.sum_eq_zero fun a ha => ?_
  have hnil : m.waiting nodes a.1 a.2 = [] := by
    by_contra hne
    exact hnone ⟨a, ha, hne⟩
  rw [hnil]
  rfl

section
variable (header flit edges) {t t' : ℕ} (ht : t ≤ t')
include ht

theorem length_accepted_le (p : MeshNode) (d : Direction) :
    ((before header nodes flit edges t).accepted p d).length ≤
      ((before header nodes flit edges t').accepted p d).length :=
  (along_isPrefix (logs_before header flit edges ht p).1 d).length_le

theorem remainingOf_popped_add_le (p : MeshNode) (d : Direction) :
    remainingOf header p ((before header nodes flit edges t).popped p d) +
        (((before header nodes flit edges t').popped p d).length -
          ((before header nodes flit edges t).popped p d).length) ≤
      remainingOf header p ((before header nodes flit edges t').popped p d) :=
  remainingOf_add_le (along_isPrefix (logs_before header flit edges ht p).2 d) p

theorem remainingOf_popped_le (p : MeshNode) (d : Direction) :
    remainingOf header p ((before header nodes flit edges t).popped p d) ≤
      remainingOf header p ((before header nodes flit edges t').popped p d) :=
  (Nat.le_add_right _ _).trans (remainingOf_popped_add_le header flit edges ht p d)

theorem done_mono : (before header nodes flit edges t).done header nodes ≤
    (before header nodes flit edges t').done header nodes :=
  add_le_add (Finset.sum_le_sum fun a _ => length_accepted_le header flit edges ht a.1 a.2)
    (Finset.sum_le_sum fun a _ => remainingOf_popped_le header flit edges ht a.1 a.2)

end

theorem AcknowledgedFrom.done_lt {t : ℕ} (h : AcknowledgedFrom header flit edges t)
    (htransit : (before header nodes flit edges t).inTransit nodes ≠ 0) :
    (before header nodes flit edges t).done header nodes <
      (before header nodes flit edges (t + 3)).done header nodes := by
  have hsettled : Settled header nodes (before header nodes flit edges t) :=
    settled_before header flit edges t
  have ht : t ≤ t + 3 := Nat.le_add_right t 3
  obtain ⟨⟨p, d⟩, ha, hwaiting⟩ := exists_waiting htransit
  have hp : p ∈ nodes := mem_ports.mp ha
  have hlength : 0 < ((before header nodes flit edges t).waiting nodes p d).length :=
    List.length_pos_of_ne_nil hwaiting
  unfold done crossings
  by_cases hd : Faces nodes p d
  · have hpushed := congrArg List.length (hsettled.pushed_inner hp hd)
    rw [List.length_append] at hpushed
    have hmoved := (link_run header flit edges hp hd).length_accepted_lt (t := t)
      (by
        change ((before header nodes flit edges t).accepted (p.hop d) d.opposite).length <
          ((before header nodes flit edges t).pushed header p d).length
        omega)
    refine add_lt_add_of_lt_of_le (Finset.sum_lt_sum
      (fun a _ => length_accepted_le header flit edges ht a.1 a.2) ⟨(p.hop d, d.opposite), ?_, hmoved⟩)
      (Finset.sum_le_sum fun a _ => remainingOf_popped_le header flit edges ht a.1 a.2)
    exact mem_innerPorts.mpr ⟨hd.2, faces_opposite hp hd⟩
  · have hpushed := congrArg List.length (hsettled.pushed_outer p hd)
    rw [List.length_append] at hpushed
    have hmoved := (h.served hp hd).length_popped_lt (t := 0) (by
      change ((before header nodes flit edges t).popped p d).length <
        ((before header nodes flit edges t).pushed header p d).length
      omega)
    refine add_lt_add_of_le_of_lt
      (Finset.sum_le_sum fun a _ => length_accepted_le header flit edges ht a.1 a.2)
      (Finset.sum_lt_sum (fun a _ => remainingOf_popped_le header flit edges ht a.1 a.2)
        ⟨(p, d), mem_outerPorts.mpr ⟨hp, hd⟩, ?_⟩)
    have hgained := remainingOf_popped_add_le header flit edges ht p d
    have hmoved : ((before header nodes flit edges t).popped p d).length <
      ((before header nodes flit edges (t + 3)).popped p d).length := hmoved
    have hlt : remainingOf header p ((before header nodes flit edges t).popped p d) <
        remainingOf header p ((before header nodes flit edges (t + 3)).popped p d) := by
      omega
    exact hlt

/-- From clock edge `t` on nothing comes in. -/
def QuietFrom (edges : ℕ → MeshEdge nodes F) (t : ℕ) : Prop :=
  ∀ s ≥ t, ∀ a ∈ outerPorts nodes, ((edges s).env a.1).reqIn a.2 = false

variable (header flit) in
theorem QuietFrom.accepted_eq {t : ℕ} (h : QuietFrom edges t) {a : MeshNode × Direction}
    (ha : a ∈ outerPorts nodes) (n : ℕ) :
    (before header nodes flit edges (t + n)).accepted a.1 a.2 =
      (before header nodes flit edges t).accepted a.1 a.2 := by
  induction n with
  | zero => rfl
  | succ n ih =>
    rw [← Nat.add_assoc, before_succ, accepted_edge_of_quiet _ _ (mem_outerPorts.mp ha).2
      (h (t + n) (Nat.le_add_right t n) a ha)]
    exact ih

variable (header flit) in
theorem work_add_done {t : ℕ} (hquiet : QuietFrom edges t) (n : ℕ) :
    (before header nodes flit edges (t + n)).done header nodes +
        (before header nodes flit edges (t + n)).work header nodes =
      (before header nodes flit edges t).done header nodes +
        (before header nodes flit edges t).work header nodes := by
  have hlater := (settled_before header flit edges (t + n)).work_eq
  have hnow := (settled_before header flit edges t).work_eq
  rw [Finset.sum_congr rfl fun a ha => congrArg (remainingOf header a.1)
    (hquiet.accepted_eq header flit ha n)] at hlater
  exact hlater.symm.trans hnow

variable (header) in
theorem work_of_inTransit (h : m.inTransit nodes = 0) : m.work header nodes = 0 := by
  unfold inTransit at h
  refine Finset.sum_eq_zero fun a ha => ?_
  have hnil : (m.waiting nodes a.1 a.2 : Multiset F) = 0 := Finset.sum_eq_zero_iff.mp h a ha
  rw [Multiset.coe_eq_zero] at hnil
  rw [hnil]
  rfl

theorem AcknowledgedFrom.work_le {t : ℕ} (h : AcknowledgedFrom header flit edges t)
    (hquiet : QuietFrom edges t) (n : ℕ) :
    (before header nodes flit edges (t + 3 * n)).work header nodes ≤
      (before header nodes flit edges t).work header nodes - n := by
  induction n with
  | zero => exact le_rfl
  | succ n ih =>
    have hnow := work_add_done header flit hquiet (3 * n)
    have hlater := work_add_done header flit hquiet (3 * n + 3)
    have heq : t + 3 * (n + 1) = t + (3 * n + 3) := by ring
    rw [heq]
    by_cases htransit : (before header nodes flit edges (t + 3 * n)).inTransit nodes = 0
    · have hzero := work_of_inTransit header htransit
      have hmono := done_mono header flit edges
        (by omega : t + 3 * n ≤ t + (3 * n + 3))
      omega
    · have hlt := (h.later (Nat.le_add_right t (3 * n))).done_lt htransit
      rw [Nat.add_assoc] at hlt
      omega

/-- Once nothing more comes in and requests are acknowledged, the mesh is empty after three clock
edges for each move that was left, and all that came in has gone out. -/
theorem run_drains (header : F → UInt64) (nodes : Finset MeshNode) (flit : F)
    (edges : ℕ → MeshEdge nodes F) (t : ℕ) (h : AcknowledgedFrom header flit edges t)
    (hquiet : QuietFrom edges t) (t' : ℕ)
    (ht : t + 3 * (before header nodes flit edges t).work header nodes ≤ t') :
    (before header nodes flit edges t').inTransit nodes = 0 ∧
      (before header nodes flit edges t').delivered nodes =
        (before header nodes flit edges t).injected nodes := by
  set n := (before header nodes flit edges t).work header nodes
  have hwork := h.work_le hquiet n
  obtain ⟨k, rfl⟩ := Nat.exists_eq_add_of_le ht
  have hnow := work_add_done header flit hquiet (3 * n)
  have hlater := work_add_done header flit hquiet (3 * n + k)
  have hmono := done_mono header flit edges
    (by omega : t + 3 * n ≤ t + (3 * n + k))
  rw [Nat.add_assoc]
  have hnone : (before header nodes flit edges (t + (3 * n + k))).work header nodes = 0 := by
    omega
  have hzero := inTransit_of_work hnone
  refine ⟨hzero, ?_⟩
  have hconserved := (settled_before header flit edges (t + (3 * n + k))).injected_eq
  rw [hzero, add_zero] at hconserved
  rw [← hconserved]
  exact Finset.sum_congr rfl fun a ha => congrArg _ (hquiet.accepted_eq header flit ha (3 * n + k))

end

theorem acknowledgedFrom_pair (awake : ℕ) :
    AcknowledgedFrom (fun header => header) 0 (pairEdges awake) awake := by
  intro t ht a _ _
  change decide (awake ≤ t + 1) = true
  exact decide_eq_true (Nat.le_succ_of_le ht)

theorem quietFrom_pair (awake : ℕ) : QuietFrom (pairEdges awake) 6 := by
  intro t ht a _
  change (decide (t < 6) && _) = false
  rw [decide_eq_false (Nat.not_lt.mpr ht), Bool.false_and]

/-- Five flits wait in the two routers, and all of them leave once they are acknowledged. -/
theorem run_drains_pair :
    (before (fun header => header) (rectangle 1 2) 0 (pairEdges 9) 100).inTransit
        (rectangle 1 2) = 0 ∧
      (before (fun header => header) (rectangle 1 2) 0 (pairEdges 9) 100).delivered
          (rectangle 1 2) =
        (before (fun header => header) (rectangle 1 2) 0 (pairEdges 9) 9).injected
          (rectangle 1 2) :=
  run_drains _ _ 0 (pairEdges 9) 9 (acknowledgedFrom_pair 9)
    (fun t ht => quietFrom_pair 9 t (by omega)) 100 (by decide +kernel)

end RouterMesh
end GemSc
