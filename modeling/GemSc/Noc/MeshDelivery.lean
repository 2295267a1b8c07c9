import GemSc.Noc.RouterMesh

/-! What is put into the mesh at a port without a neighbour is handed out at such a port, or it waits
in one of the buffers. -/

namespace GemSc
open Function ScTlmRouter

section
variable (nodes : Finset MeshNode)

def ports : Finset (MeshNode × Direction) := nodes ×ˢ Finset.univ

def innerPorts : Finset (MeshNode × Direction) := (ports nodes).filter fun a => Faces nodes a.1 a.2

def outerPorts : Finset (MeshNode × Direction) :=
  (ports nodes).filter fun a => ¬ Faces nodes a.1 a.2

def rectangle (rows cols : ℕ) : Finset MeshNode :=
  (Finset.range cols ×ˢ Finset.range rows).image fun c => (UInt32.ofNat c.1, UInt32.ofNat c.2)

end

namespace RouterMesh
variable {F : Type*} (header : F → UInt64) (nodes : Finset MeshNode)

/-- What the routers accepted from the surroundings. -/
def injected (m : RouterMesh F) : Multiset F :=
  ∑ a ∈ outerPorts nodes, (m.accepted a.1 a.2 : Multiset F)

/-- What the routers handed over to the surroundings. -/
def delivered (m : RouterMesh F) : Multiset F :=
  ∑ a ∈ outerPorts nodes, (m.popped a.1 a.2 : Multiset F)

def inTransit (m : RouterMesh F) : Multiset F :=
  ∑ a ∈ ports nodes, (m.waiting nodes a.1 a.2 : Multiset F)

variable {header nodes} {m : RouterMesh F} {p : MeshNode} {d : Direction} {M : Type*}
  [AddCommMonoid M]

theorem mem_ports {a : MeshNode × Direction} : a ∈ ports nodes ↔ a.1 ∈ nodes := by
  unfold ports
  rw [Finset.mem_product]
  exact and_iff_left (Finset.mem_univ _)

theorem mem_innerPorts {a : MeshNode × Direction} :
    a ∈ innerPorts nodes ↔ a.1 ∈ nodes ∧ Faces nodes a.1 a.2 := by
  unfold innerPorts
  rw [Finset.mem_filter, mem_ports]

theorem mem_outerPorts {a : MeshNode × Direction} :
    a ∈ outerPorts nodes ↔ a.1 ∈ nodes ∧ ¬ Faces nodes a.1 a.2 := by
  unfold outerPorts
  rw [Finset.mem_filter, mem_ports]

variable (nodes) in
theorem sum_inner_add_sum_outer (f : MeshNode × Direction → M) :
    ∑ a ∈ innerPorts nodes, f a + ∑ a ∈ outerPorts nodes, f a = ∑ a ∈ ports nodes, f a :=
  Finset.sum_filter_add_sum_filter_not ..

theorem sum_inner_opposite (f : MeshNode × Direction → M) :
    ∑ a ∈ innerPorts nodes, f (a.1.hop a.2, a.2.opposite) = ∑ a ∈ innerPorts nodes, f a := by
  have hmem : ∀ a ∈ innerPorts nodes, (a.1.hop a.2, a.2.opposite) ∈ innerPorts nodes := by
    intro a ha
    obtain ⟨hp, hd⟩ := mem_innerPorts.mp ha
    exact mem_innerPorts.mpr ⟨hd.2, faces_opposite hp hd⟩
  have hinverse : ∀ a ∈ innerPorts nodes,
      ((a.1.hop a.2).hop a.2.opposite, a.2.opposite.opposite) = a :=
    fun a _ => Prod.ext (hop_opposite a.1 a.2) (opposite_opposite a.2)
  exact Finset.sum_nbij' (fun a => (a.1.hop a.2, a.2.opposite))
    (fun a => (a.1.hop a.2, a.2.opposite)) hmem hmem hinverse hinverse fun _ _ => rfl

theorem sum_filter_key {β γ : Type*} (key : β → Direction) (g : β → γ) (l : List β) :
    ∑ d, (((l.filter fun b => key b = d).map g : List γ) : Multiset γ) = (l.map g : List γ) := by
  induction l with
  | nil => exact Finset.sum_const_zero
  | cons b l ih =>
    have hsplit : ∀ d, ((((b :: l).filter fun b => key b = d).map g : List γ) : Multiset γ) =
        (if key b = d then {g b} else 0) + ((l.filter fun b => key b = d).map g : List γ) := by
      intro d
      by_cases hd : key b = d
      · rw [List.filter_cons, if_pos (decide_eq_true hd), if_pos hd]
        rfl
      · rw [List.filter_cons, if_neg (by simpa using hd), if_neg hd, zero_add]
    rw [Finset.sum_congr rfl fun d _ => hsplit d, Finset.sum_add_distrib, ih,
      Finset.sum_ite_eq Finset.univ (key b), if_pos (Finset.mem_univ _)]
    rfl

theorem sum_accepted_eq_sum_pushed (m : RouterMesh F) (p : MeshNode) :
    ∑ d, (m.accepted p d : Multiset F) = ∑ d, (m.pushed header p d : Multiset F) := by
  have haccepted := sum_filter_key (Prod.fst : Direction × F → Direction) Prod.snd (m.took p)
  have hpushed := sum_filter_key (fun f : Direction × F =>
    computeRoute header (m.router p).currX (m.router p).currY f.2) Prod.snd (m.took p)
  exact haccepted.trans hpushed.symm

theorem sum_ports (f : MeshNode × Direction → M) :
    ∑ a ∈ ports nodes, f a = ∑ p ∈ nodes, ∑ d, f (p, d) := Finset.sum_product ..

theorem Settled.pushed_inner (hm : Settled header nodes m) (hp : p ∈ nodes) (hd : Faces nodes p d) :
    m.pushed header p d = m.accepted (p.hop d) d.opposite ++ m.waiting nodes p d := by
  have hsound := hm.sound p hp d hd
  have horder : m.pushed header p d = m.popped p d ++ m.buffer p d := hsound.order
  unfold waiting
  cases hsound.stage with
  | idle req ack accepted front answer =>
    have hack : ((m.router (p.hop d)).ackIn d.opposite).value = false := ack
    have haccepted : m.accepted (p.hop d) d.opposite = m.popped p d := accepted
    rw [if_neg (by simp [hack]), haccepted, horder]
  | sent req ack front accepted withdrawn answer =>
    have hack : ((m.router (p.hop d)).ackIn d.opposite).value = false := ack
    have haccepted : m.accepted (p.hop d) d.opposite = m.popped p d :=
      accepted.trans (List.append_nil _)
    rw [if_neg (by simp [hack]), haccepted, horder]
  | taken req ack accepted withdrawn answer =>
    obtain ⟨a, hfront, haccepted⟩ := accepted
    have hack : ((m.router (p.hop d)).ackIn d.opposite).value = true := ack
    have haccepted : m.accepted (p.hop d) d.opposite = m.popped p d ++ [a] := haccepted
    obtain ⟨rest, hbuffer⟩ := List.head?_eq_some_iff.mp hfront
    have hbuffer : m.buffer p d = a :: rest := hbuffer
    rw [if_pos ⟨hd, hack⟩, haccepted, horder, hbuffer, List.append_assoc]
    rfl

theorem Settled.pushed_outer (hm : Settled header nodes m) (p : MeshNode)
    (hd : ¬ Faces nodes p d) : m.pushed header p d = m.popped p d ++ m.waiting nodes p d := by
  unfold waiting
  rw [if_neg fun h => hd h.1]
  exact (hm.kept p).queued d

theorem Settled.injected_eq (hm : Settled header nodes m) :
    m.injected nodes = m.delivered nodes + m.inTransit nodes := by
  set crossed := ∑ a ∈ innerPorts nodes, (m.accepted a.1 a.2 : Multiset F) with hcrossed
  have haccepted : crossed + m.injected nodes =
      ∑ a ∈ ports nodes, (m.accepted a.1 a.2 : Multiset F) := sum_inner_add_sum_outer nodes _
  have hpushed : ∑ a ∈ ports nodes, (m.accepted a.1 a.2 : Multiset F) =
      ∑ a ∈ ports nodes, (m.pushed header a.1 a.2 : Multiset F) := by
    rw [sum_ports, sum_ports]
    exact Finset.sum_congr rfl fun p _ => sum_accepted_eq_sum_pushed m p
  have hinner : ∑ a ∈ innerPorts nodes, (m.pushed header a.1 a.2 : Multiset F) =
      crossed + ∑ a ∈ innerPorts nodes, (m.waiting nodes a.1 a.2 : Multiset F) := by
    rw [hcrossed, ← sum_inner_opposite (fun a => (m.accepted a.1 a.2 : Multiset F)),
      ← Finset.sum_add_distrib]
    refine Finset.sum_congr rfl fun a ha => ?_
    obtain ⟨hp, hd⟩ := mem_innerPorts.mp ha
    rw [hm.pushed_inner hp hd, Multiset.coe_add]
  have houter : ∑ a ∈ outerPorts nodes, (m.pushed header a.1 a.2 : Multiset F) =
      m.delivered nodes + ∑ a ∈ outerPorts nodes, (m.waiting nodes a.1 a.2 : Multiset F) := by
    unfold delivered
    rw [← Finset.sum_add_distrib]
    refine Finset.sum_congr rfl fun a ha => ?_
    rw [hm.pushed_outer a.1 (mem_outerPorts.mp ha).2, Multiset.coe_add]
  have htotal : crossed + m.injected nodes =
      crossed + (m.delivered nodes + m.inTransit nodes) := by
    rw [haccepted, hpushed, ← sum_inner_add_sum_outer, hinner, houter, inTransit,
      ← sum_inner_add_sum_outer nodes (fun a => (m.waiting nodes a.1 a.2 : Multiset F))]
    abel
  exact add_left_cancel htotal

/-- In every run the flits that came in are those that went out and those that still wait. -/
theorem run_conserves (header : F → UInt64) (nodes : Finset MeshNode) (flit : F)
    (edges : List (MeshEdge nodes F)) :
    ((new flit).run header nodes edges).injected nodes =
      ((new flit).run header nodes edges).delivered nodes +
        ((new flit).run header nodes edges).inTransit nodes :=
  ((settled_new header nodes flit).run edges).injected_eq

theorem Kept.heading_eq (hm : Kept header m) {flit : F} (hflit : flit ∈ m.pushed header p d) :
    heading header flit p = d := by
  unfold pushed routedTo at hflit
  obtain ⟨⟨dir, f⟩, hf, rfl⟩ := List.mem_map.mp hflit
  have hroute := of_decide_eq_true (List.mem_filter.mp hf).2
  rw [(hm p).currX, (hm p).currY] at hroute
  exact hroute

theorem Kept.heading_of_popped (hm : Kept header m) {flit : F} (hflit : flit ∈ m.popped p d) :
    heading header flit p = d := by
  have hqueued : m.pushed header p d = m.popped p d ++ m.buffer p d := (hm p).queued d
  apply hm.heading_eq
  rw [hqueued]
  exact List.mem_append_left _ hflit

theorem mem_rectangle {rows cols : ℕ} :
    p ∈ rectangle rows cols ↔ p.1.toNat < cols ∧ p.2.toNat < rows := by
  unfold rectangle
  rw [Finset.mem_image]
  constructor
  · rintro ⟨⟨x, y⟩, hc, rfl⟩
    obtain ⟨hx, hy⟩ := Finset.mem_product.mp hc
    have hle : ∀ n : ℕ, (UInt32.ofNat n).toNat ≤ n := fun n => Nat.mod_le _ _
    exact ⟨(hle x).trans_lt (Finset.mem_range.mp hx), (hle y).trans_lt (Finset.mem_range.mp hy)⟩
  · rintro ⟨hx, hy⟩
    refine ⟨(p.1.toNat, p.2.toNat), ?_, Prod.ext (UInt32.ofNat_toNat ..) (UInt32.ofNat_toNat ..)⟩
    exact Finset.mem_product.mpr ⟨Finset.mem_range.mpr hx, Finset.mem_range.mpr hy⟩

theorem nextNode_mem_rectangle {rows cols : ℕ} {flit : F} (hp : p ∈ rectangle rows cols)
    (hdest : destination header flit ∈ rectangle rows cols) :
    nextNode header flit p ∈ rectangle rows cols := by
  rw [mem_rectangle] at *
  obtain ⟨hx, hy⟩ := hp
  obtain ⟨hdestX, hdestY⟩ := hdest
  cases hop_cases header flit p with
  | row dir column y x =>
    rw [y]
    exact ⟨by omega, hy⟩
  | column dir column x y =>
    rw [x]
    exact ⟨hx, by omega⟩
  | there dir arrived stays =>
    rw [stays]
    exact ⟨hx, hy⟩

/-- A flit for a node of the mesh leaves it there, at the local port, and at no other port. -/
theorem Kept.port_eq {rows cols : ℕ} (hm : Kept header m) (hp : p ∈ rectangle rows cols)
    (hd : ¬ Faces (rectangle rows cols) p d) {flit : F} (hflit : flit ∈ m.popped p d)
    (hdest : destination header flit ∈ rectangle rows cols) :
    p = destination header flit ∧ d = .localPort := by
  have hheading : heading header flit p = d := hm.heading_of_popped hflit
  have hlocal : d = .localPort := by
    by_contra hne
    have hnext := nextNode_mem_rectangle hp hdest
    rw [nextNode, hheading] at hnext
    exact hd ⟨hne, hnext⟩
  subst hlocal
  exact ⟨(heading_eq_localPort_iff p).mp hheading, rfl⟩

theorem filter_sum {ι : Type*} (s : Finset ι) (f : ι → Multiset F) (P : F → Prop)
    [DecidablePred P] : (∑ i ∈ s, f i).filter P = ∑ i ∈ s, (f i).filter P :=
  map_sum (⟨⟨Multiset.filter P, Multiset.filter_zero P⟩, Multiset.filter_add P⟩ :
    Multiset F →+ Multiset F) f s

theorem Kept.delivered_at {rows cols : ℕ} (hm : Kept header m) {q : MeshNode}
    (hq : q ∈ rectangle rows cols) :
    (m.delivered (rectangle rows cols)).filter (fun f => destination header f = q) =
      m.popped q .localPort := by
  have houter : (q, .localPort) ∈ outerPorts (rectangle rows cols) :=
    mem_outerPorts.mpr ⟨hq, fun h => h.1 rfl⟩
  have hhere : (m.popped q .localPort).filter (fun f => destination header f = q) =
      m.popped q .localPort := by
    refine List.filter_eq_self.mpr fun f hf => decide_eq_true ?_
    exact ((heading_eq_localPort_iff q).mp (hm.heading_of_popped hf)).symm
  have helsewhere : ∀ a ∈ outerPorts (rectangle rows cols), a ≠ (q, .localPort) →
      (m.popped a.1 a.2).filter (fun f => destination header f = q) = [] := by
    intro a ha hne
    obtain ⟨hp, hd⟩ := mem_outerPorts.mp ha
    refine List.filter_eq_nil_iff.mpr fun f hf hdest => hne ?_
    have hdest : destination header f = q := of_decide_eq_true hdest
    obtain ⟨hnode, hport⟩ := hm.port_eq hp hd hf (hdest.symm ▸ hq)
    exact Prod.ext (hnode.trans hdest) hport
  unfold delivered
  rw [filter_sum, Finset.sum_eq_single_of_mem _ houter, Multiset.filter_coe, hhere]
  intro a ha hne
  rw [Multiset.filter_coe, helsewhere a ha hne]
  rfl

/-- In every run the local port of a node hands out the flits for that node, each of them once, and
those that it has not handed out wait in the mesh. -/
theorem run_deliversAtDestination (header : F → UInt64) (rows cols : ℕ) (flit : F)
    (edges : List (MeshEdge (rectangle rows cols) F)) (q : MeshNode)
    (hq : q ∈ rectangle rows cols) :
    (((new flit).run header (rectangle rows cols) edges).injected (rectangle rows cols)).filter
        (fun f => destination header f = q) =
      ((new flit).run header (rectangle rows cols) edges).popped q .localPort +
        (((new flit).run header (rectangle rows cols) edges).inTransit (rectangle rows cols)).filter
          (fun f => destination header f = q) := by
  have hsettled := (settled_new header (rectangle rows cols) flit).run edges
  rw [hsettled.injected_eq, Multiset.filter_add, hsettled.kept.delivered_at hq]

theorem mem_pair (p : MeshNode) : p ∈ ([(0, 0), (1, 0)] : List MeshNode) ↔ p ∈ rectangle 1 2 := by
  obtain ⟨x, y⟩ := p
  rw [mem_rectangle, List.mem_pair, Prod.mk.injEq, Prod.mk.injEq, ← UInt32.toNat_inj,
    ← UInt32.toNat_inj, ← UInt32.toNat_inj]
  change (x.toNat = 0 ∧ y.toNat = 0 ∨ x.toNat = 1 ∧ y.toNat = 0) ↔ x.toNat < 2 ∧ y.toNat < 1
  omega

/-- What comes in at a port of two routers beside each other: three flits for the second one at the
first one, another one from the west, and one for the first one at the second one. -/
def pairTraffic (a : MeshNode × Direction) : List UInt64 :=
  if a = ((0, 0), .localPort) then [0x00001, 0x10001, 0x20001]
  else if a = ((0, 0), .west) then [0x30001]
  else if a = ((1, 0), .localPort) then [0x40000]
  else []

/-- The clock edges at which it comes in. From edge `awake` on the surroundings acknowledge. -/
def pairEdges (awake t : ℕ) : MeshEdge (rectangle 1 2) UInt64 :=
  .inTurn _ (fun p =>
      { reqIn := fun d => decide (t < 6) && (t % 2 == 0 && (pairTraffic (p, d))[t / 2]?.isSome)
        flitIn := fun d => (pairTraffic (p, d)).getD (t / 2) 0
        ackOut := fun _ => decide (awake ≤ t) })
    [(0, 0), (1, 0)] (by decide) mem_pair

theorem run_deliversAtDestination_pair :
    (((new 0).run (fun header => header) (rectangle 1 2)
        ((List.range 12).map (pairEdges 0))).injected (rectangle 1 2)).filter
          (fun f => destination (fun header => header) f = (1, 0)) =
      ((new 0).run (fun header => header) (rectangle 1 2)
          ((List.range 12).map (pairEdges 0))).popped (1, 0) .localPort +
        (((new 0).run (fun header => header) (rectangle 1 2)
            ((List.range 12).map (pairEdges 0))).inTransit (rectangle 1 2)).filter
          (fun f => destination (fun header => header) f = (1, 0)) :=
  run_deliversAtDestination _ 1 2 0 _ (1, 0) (by decide)

end RouterMesh
end GemSc
