import GemSc.Lib.HandshakeCycles
import GemSc.Noc.XYRouting

/-! Any number of SystemC routers on the nodes of a mesh. An output of a router is connected to the
opposite input of the neighbour in that direction, and what has no neighbour is left to the
surroundings. A clock edge runs all processes of all routers, in any order. -/

namespace GemSc
open Function ScTlmRouter

def Direction.opposite : Direction → Direction
  | .north => .south
  | .east => .west
  | .south => .north
  | .west => .east
  | .localPort => .localPort

instance : Fintype Direction := ⟨⟨Direction.all, nodup_all⟩, mem_all⟩

inductive RouterProcess
  | routing
  | arbitration
  | switching
  deriving DecidableEq

/-- The routers, with what each has accepted from its inputs and popped off its buffers so far. -/
structure RouterMesh (F : Type*) where
  router : MeshNode → ScTlmRouter F
  took : MeshNode → List (Direction × F)
  sent : MeshNode → List (Direction × F)

section
variable (nodes : Finset MeshNode)

/-- There is a router at the other end of port `d` of the router at `p`. -/
def Faces (p : MeshNode) (d : Direction) : Prop := d ≠ .localPort ∧ p.hop d ∈ nodes

instance (p : MeshNode) : DecidablePred (Faces nodes p) := fun d =>
  inferInstanceAs (Decidable (d ≠ .localPort ∧ p.hop d ∈ nodes))

/-- A clock edge runs each process of each router once. `env` are the signals at the ports without a
neighbour. -/
structure MeshEdge (F : Type*) where
  env : MeshNode → Inputs F
  activities : List (MeshNode × RouterProcess)
  once : ∀ a, activities.count a = if a.1 ∈ nodes then 1 else 0

def MeshEdge.inTurn {F : Type*} (env : MeshNode → Inputs F) (order : List MeshNode)
    (hnodup : order.Nodup) (hmem : ∀ p, p ∈ order ↔ p ∈ nodes) : MeshEdge nodes F where
  env := env
  activities := order ×ˢ [.routing, .arbitration, .switching]
  once := by
    intro a
    have hprocess : a.2 ∈ [RouterProcess.routing, .arbitration, .switching] := by
      cases a.2 <;> decide
    have hactivities : a ∈ order ×ˢ [RouterProcess.routing, .arbitration, .switching] ↔
        a.1 ∈ nodes := by
      rw [List.mem_product, hmem]
      exact and_iff_left hprocess
    by_cases ha : a.1 ∈ nodes
    · rw [if_pos ha]
      exact List.count_eq_one_of_mem (hnodup.product (by decide)) (hactivities.mpr ha)
    · rw [if_neg ha]
      exact List.count_eq_zero.mpr (mt hactivities.mp ha)

end

namespace RouterMesh
variable {F : Type*} (header : F → UInt64) (nodes : Finset MeshNode)

/-- All signals are false and all buffers empty. -/
def new (flit : F) : RouterMesh F where
  router := fun p => .new p.1 p.2 flit
  took := fun _ => []
  sent := fun _ => []

def inputs (env : Inputs F) (m : RouterMesh F) (p : MeshNode) : Inputs F where
  reqIn := fun d => if Faces nodes p d then ((m.router (p.hop d)).out d.opposite).reqOut.value
    else env.reqIn d
  flitIn := fun d => if Faces nodes p d then ((m.router (p.hop d)).out d.opposite).flitOut.value
    else env.flitIn d
  ackOut := fun d => if Faces nodes p d then ((m.router (p.hop d)).ackIn d.opposite).value
    else env.ackOut d

def act (env : MeshNode → Inputs F) (m : RouterMesh F) : MeshNode × RouterProcess → RouterMesh F
  | (p, .routing) =>
    let r := (m.router p).routingProcess header (m.inputs nodes (env p) p)
    { m with router := update m.router p r.1, took := update m.took p (m.took p ++ r.2) }
  | (_, .arbitration) => m
  | (p, .switching) =>
    let r := (m.router p).switchingProcess (m.inputs nodes (env p) p)
    { m with router := update m.router p r.1, sent := update m.sent p (m.sent p ++ r.2) }

def commit (m : RouterMesh F) : RouterMesh F :=
  { m with router := fun p => (m.router p).commit }

def edge (m : RouterMesh F) (e : MeshEdge nodes F) : RouterMesh F :=
  (e.activities.foldl (act header nodes e.env) m).commit

def run (edges : List (MeshEdge nodes F)) (m : RouterMesh F) : RouterMesh F :=
  edges.foldl (edge header nodes) m

def accepted (m : RouterMesh F) (p : MeshNode) (d : Direction) : List F := along d (m.took p)

def pushed (m : RouterMesh F) (p : MeshNode) (d : Direction) : List F :=
  (m.router p).routedTo header d (m.took p)

def popped (m : RouterMesh F) (p : MeshNode) (d : Direction) : List F := along d (m.sent p)

def buffer (m : RouterMesh F) (p : MeshNode) (d : Direction) : List F :=
  ((m.router p).out d).outputBuffer

/-- Port `d` of the router at `p` as the sender of a handshake, given what the receiver does. -/
def sender (m : RouterMesh F) (p : MeshNode) (d : Direction) (ack : Signal Bool)
    (accepted : List F) : Handshake F where
  buffer := m.buffer p d
  req := ((m.router p).out d).reqOut
  data := ((m.router p).out d).flitOut
  ack := ack
  pushed := m.pushed header p d
  popped := m.popped p d
  accepted := accepted

def link (m : RouterMesh F) (p : MeshNode) (d : Direction) : Handshake F :=
  m.sender header p d ((m.router (p.hop d)).ackIn d.opposite) (m.accepted (p.hop d) d.opposite)

def waiting (m : RouterMesh F) (p : MeshNode) (d : Direction) : List F :=
  if Faces nodes p d ∧ ((m.router (p.hop d)).ackIn d.opposite).value then (m.buffer p d).tail
  else m.buffer p d

variable {header nodes} {env : MeshNode → Inputs F} {m : RouterMesh F} {p q : MeshNode}
  {d : Direction}

theorem hop_opposite (p : MeshNode) (d : Direction) : (p.hop d).hop d.opposite = p := by
  obtain ⟨x, y⟩ := p
  cases d with
  | north => exact Prod.ext rfl (sub_add_cancel y 1)
  | east => exact Prod.ext (add_sub_cancel_right x 1) rfl
  | south => exact Prod.ext rfl (add_sub_cancel_right y 1)
  | west => exact Prod.ext (sub_add_cancel x 1) rfl
  | localPort => rfl

theorem opposite_opposite (d : Direction) : d.opposite.opposite = d := by
  cases d <;> rfl

theorem opposite_ne_localPort (hd : d ≠ .localPort) : d.opposite ≠ .localPort := by
  intro heq
  apply hd
  rw [← opposite_opposite d, heq]
  rfl

theorem hop_ne (p : MeshNode) (hd : d ≠ .localPort) : p.hop d ≠ p := by
  obtain ⟨x, y⟩ := p
  have hone : (1 : UInt32) ≠ 0 := by decide
  intro heq
  cases d with
  | north => exact hone (sub_eq_self.mp (congrArg Prod.snd heq))
  | east => exact hone (add_eq_left.mp (congrArg Prod.fst heq))
  | south => exact hone (add_eq_left.mp (congrArg Prod.snd heq))
  | west => exact hone (sub_eq_self.mp (congrArg Prod.fst heq))
  | localPort => exact hd rfl

theorem faces_opposite (hp : p ∈ nodes) (hd : Faces nodes p d) :
    Faces nodes (p.hop d) d.opposite := by
  refine ⟨opposite_ne_localPort hd.1, ?_⟩
  rw [hop_opposite]
  exact hp

end RouterMesh

namespace ScTlmRouter
variable {F : Type*} {header : F → UInt64} {r r' : ScTlmRouter F}

theorem routedTo_append (k : Direction) (fs gs : List (Direction × F)) :
    r.routedTo header k (fs ++ gs) = r.routedTo header k fs ++ r.routedTo header k gs := by
  unfold routedTo
  rw [List.filter_append, List.map_append]

theorem routedTo_congr (hx : r'.currX = r.currX) (hy : r'.currY = r.currY) (k : Direction)
    (fs : List (Direction × F)) : r'.routedTo header k fs = r.routedTo header k fs := by
  unfold routedTo
  rw [hx, hy]

theorem switchingProcess_coords (inputs : Inputs F) (r : ScTlmRouter F) :
    (r.switchingProcess inputs).1.currX = r.currX ∧ (r.switchingProcess inputs).1.currY = r.currY :=
  LoopFrame.foldl_nodup
    (P := fun _ (s : ScTlmRouter F × List (Direction × F)) =>
      s.1.currX = r.currX ∧ s.1.currY = r.currY)
    nodup_all ⟨rfl, rfl⟩ fun _ _ _ _ hs => hs

theorem switch_outputBuffer (ackOut : Bool) (p : OutPort F) :
    p.outputBuffer = (p.switch ackOut).2.toList ++ (p.switch ackOut).1.outputBuffer := by
  unfold OutPort.switch
  cases p.outputBuffer with
  | nil => rfl
  | cons flit rest => cases p.reqOut.value <;> cases ackOut <;> rfl

structure KeptAt (header : F → UInt64) (p : MeshNode) (r : ScTlmRouter F)
    (took sent : List (Direction × F)) : Prop where
  currX : r.currX = p.1
  currY : r.currY = p.2
  queued : ∀ d, r.routedTo header d took = along d sent ++ (r.out d).outputBuffer

variable {p : MeshNode} {took sent : List (Direction × F)}

theorem KeptAt.routing (h : KeptAt header p r took sent) (inputs : Inputs F) :
    KeptAt header p (r.routingProcess header inputs).1
      (took ++ (r.routingProcess header inputs).2) sent := by
  have hrouted := routed_routingProcess header inputs r
  refine ⟨hrouted.currX.trans h.currX, hrouted.currY.trans h.currY, fun d => ?_⟩
  rw [routedTo_congr hrouted.currX hrouted.currY, routedTo_append, h.queued, hrouted.out,
    List.append_assoc]

theorem KeptAt.switching (h : KeptAt header p r took sent) (inputs : Inputs F) :
    KeptAt header p (r.switchingProcess inputs).1 took
      (sent ++ (r.switchingProcess inputs).2) := by
  have hswitched := switched_switchingProcess inputs r
  obtain ⟨hx, hy⟩ := switchingProcess_coords inputs r
  refine ⟨hx.trans h.currX, hy.trans h.currY, fun d => ?_⟩
  have hout := (hswitched.out d).trans (if_pos (mem_all d))
  have hpopped := (hswitched.popped d).trans (if_pos (mem_all d))
  rw [routedTo_congr hx hy, along_append, hpopped, hout, h.queued, List.append_assoc,
    ← switch_outputBuffer]

end ScTlmRouter

namespace RouterMesh
variable {F : Type*} {header : F → UInt64} {nodes : Finset MeshNode} {env : MeshNode → Inputs F}
  {m : RouterMesh F} {p q : MeshNode} {d : Direction}

theorem inputs_reqIn (env : Inputs F) (hd : Faces nodes p d) : (m.inputs nodes env p).reqIn d =
    ((m.router (p.hop d)).out d.opposite).reqOut.value := if_pos hd

theorem inputs_flitIn (env : Inputs F) (hd : Faces nodes p d) : (m.inputs nodes env p).flitIn d =
    ((m.router (p.hop d)).out d.opposite).flitOut.value := if_pos hd

theorem inputs_ackOut (env : Inputs F) (hd : Faces nodes p d) : (m.inputs nodes env p).ackOut d =
    ((m.router (p.hop d)).ackIn d.opposite).value := if_pos hd

section
variable {ack : Signal Bool} {accepted : List F}

theorem sender_routing (p : MeshNode) (d : Direction) :
    (m.act header nodes env (p, .routing)).sender header p d ack accepted =
      (m.sender header p d ack accepted).push ((m.router p).routedTo header d
        ((m.router p).routingProcess header (m.inputs nodes (env p) p)).2) := by
  have hrouted := routed_routingProcess header (m.inputs nodes (env p) p) (m.router p)
  unfold sender Handshake.push
  simp only [act, pushed, popped, buffer, update_self, hrouted.out]
  rw [routedTo_congr hrouted.currX hrouted.currY, routedTo_append]

theorem sender_switching (hack : (m.inputs nodes (env p) p).ackOut d = ack.value) :
    (m.act header nodes env (p, .switching)).sender header p d ack accepted =
      (m.sender header p d ack accepted).offer := by
  set inp := m.inputs nodes (env p) p with hinp
  have hswitched := switched_switchingProcess inp (m.router p)
  have hout := (hswitched.out d).trans (if_pos (mem_all d))
  have hpopped := (hswitched.popped d).trans (if_pos (mem_all d))
  rw [hack] at hout hpopped
  have hpushed : ((m.router p).switchingProcess inp).1.routedTo header d (m.took p) =
      (m.router p).routedTo header d (m.took p) :=
    routedTo_congr (switchingProcess_coords _ _).1 (switchingProcess_coords _ _).2 d (m.took p)
  unfold sender
  simp only [act, pushed, popped, buffer, update_self, along_append, ← hinp, hout, hpopped, hpushed]
  unfold OutPort.switch Handshake.offer
  cases ((m.router p).out d).outputBuffer with
  | nil => simp
  | cons flit rest =>
    cases ((m.router p).out d).reqOut.value <;> cases ack.value <;> simp [Signal.write]

theorem sender_other {process : RouterProcess} (hp : q ≠ p) :
    (m.act header nodes env (q, process)).sender header p d ack accepted =
      m.sender header p d ack accepted := by
  unfold sender
  cases process with
  | routing => simp only [act, pushed, popped, buffer, update_of_ne hp.symm]
  | arbitration => rfl
  | switching => simp only [act, pushed, popped, buffer, update_of_ne hp.symm]

end

theorem link_routing_receiver (hp : p ∈ nodes) (hd : Faces nodes p d) :
    (m.act header nodes env (p.hop d, .routing)).link header p d = (m.link header p d).receive := by
  set inp := m.inputs nodes (env (p.hop d)) (p.hop d) with hinp
  have hrouted := routed_routingProcess header inp (m.router (p.hop d))
  have hopposite := faces_opposite hp hd
  have hreq : inp.reqIn d.opposite = ((m.router p).out d).reqOut.value := by
    rw [hinp, inputs_reqIn _ hopposite, hop_opposite, opposite_opposite]
  have hflit : inp.flitIn d.opposite = ((m.router p).out d).flitOut.value := by
    rw [hinp, inputs_flitIn _ hopposite, hop_opposite, opposite_opposite]
  have haccepts : (m.router (p.hop d)).accepts inp d.opposite =
      (((m.router p).out d).reqOut.value && !((m.router (p.hop d)).ackIn d.opposite).value) := by
    rw [accepts, hreq]
  have hack := (hrouted.ackIn d.opposite).trans (if_pos (mem_all _))
  have haccepted := hrouted.accepted d.opposite
  rw [haccepts] at hack haccepted
  rw [hflit] at haccepted
  rw [Handshake.receive_eq]
  unfold link
  rw [sender_other (hop_ne p hd.1)]
  simp only [act, accepted, update_self, along_append, ← hinp, hack, haccepted, mem_all, true_and]
  rfl

variable (header nodes env m) in
theorem receiver_other (process : RouterProcess) (hd : q = p.hop d → process = .switching) :
    ((m.act header nodes env (q, process)).router (p.hop d)).ackIn d.opposite =
        (m.router (p.hop d)).ackIn d.opposite ∧
      (m.act header nodes env (q, process)).accepted (p.hop d) d.opposite =
        m.accepted (p.hop d) d.opposite := by
  unfold accepted
  cases process with
  | routing =>
    have hne : p.hop d ≠ q := fun heq => RouterProcess.noConfusion (hd heq.symm)
    simp only [act, update_of_ne hne, and_self]
  | arbitration => exact ⟨rfl, rfl⟩
  | switching =>
    refine ⟨?_, rfl⟩
    change (update m.router q _ (p.hop d)).ackIn d.opposite = _
    by_cases hq : p.hop d = q
    · rw [hq, update_self, (switched_switchingProcess _ _).ackIn]
    · rw [update_of_ne hq]

theorem link_sender {process : RouterProcess} (hd : q = p.hop d → process = .switching) :
    (m.act header nodes env (q, process)).link header p d =
      (m.act header nodes env (q, process)).sender header p d
        ((m.router (p.hop d)).ackIn d.opposite) (m.accepted (p.hop d) d.opposite) := by
  obtain ⟨hack, haccepted⟩ := receiver_other header nodes env m process hd
  unfold link
  rw [hack, haccepted]

variable (header env) in
theorem exists_turns_act (hp : p ∈ nodes) (hd : Faces nodes p d) (a : MeshNode × RouterProcess)
    (m : RouterMesh F) : ∃ turns : List (Handshake.Turn F),
      (m.act header nodes env a).link header p d = turns.foldl Handshake.turn (m.link header p d) ∧
      turns.countP Handshake.Turn.isOffer = [a].count (p, .switching) ∧
      turns.countP Handshake.Turn.isReceive = [a].count (p.hop d, .routing) := by
  obtain ⟨q, process⟩ := a
  have hne := hop_ne p hd.1
  cases process with
  | routing =>
    by_cases hq : q = p
    · subst hq
      refine ⟨[.push _], (link_sender fun heq => absurd heq.symm hne).trans (sender_routing q d),
        ?_, ?_⟩ <;>
        simp [Handshake.Turn.isOffer, Handshake.Turn.isReceive, hne.symm]
    · by_cases hq' : q = p.hop d
      · subst hq'
        refine ⟨[.receive], link_routing_receiver hp hd, ?_, ?_⟩ <;>
          simp [Handshake.Turn.isOffer, Handshake.Turn.isReceive]
      · refine ⟨[], (link_sender fun heq => absurd heq hq').trans (sender_other hq), ?_, ?_⟩ <;>
          simp [hq']
  | arbitration => exact ⟨[], rfl, by simp, by simp⟩
  | switching =>
    by_cases hq : q = p
    · subst hq
      have hoffer : (m.act header nodes env (q, .switching)).link header q d =
          (m.link header q d).offer :=
        (link_sender fun _ => rfl).trans (sender_switching (inputs_ackOut _ hd))
      refine ⟨[.offer], hoffer, ?_, ?_⟩ <;>
        simp [Handshake.Turn.isOffer, Handshake.Turn.isReceive]
    · refine ⟨[], (link_sender fun _ => rfl).trans (sender_other hq), ?_, ?_⟩ <;> simp [hq]

variable (header env) in
theorem exists_turns (hp : p ∈ nodes) (hd : Faces nodes p d)
    (activities : List (MeshNode × RouterProcess)) (m : RouterMesh F) :
    ∃ turns : List (Handshake.Turn F),
      (activities.foldl (act header nodes env) m).link header p d =
        turns.foldl Handshake.turn (m.link header p d) ∧
      turns.countP Handshake.Turn.isOffer = activities.count (p, .switching) ∧
      turns.countP Handshake.Turn.isReceive = activities.count (p.hop d, .routing) := by
  induction activities generalizing m with
  | nil => exact ⟨[], rfl, rfl, rfl⟩
  | cons a activities ih =>
    obtain ⟨first, hfirst, hoffer, hreceive⟩ := exists_turns_act header env hp hd a m
    obtain ⟨rest, hrest, hoffers, hreceives⟩ := ih (m.act header nodes env a)
    refine ⟨first ++ rest, ?_, ?_, ?_⟩
    · rw [List.foldl_cons, hrest, hfirst, List.foldl_append]
    · rw [List.countP_append, hoffer, hoffers, ← List.count_append, List.singleton_append]
    · rw [List.countP_append, hreceive, hreceives, ← List.count_append, List.singleton_append]

variable (header env) in
theorem exists_turns_outer (hd : ¬ Faces nodes p d) (activities : List (MeshNode × RouterProcess))
    (m : RouterMesh F) : ∃ turns : List (Handshake.Turn F),
      (activities.foldl (act header nodes env) m).sender header p d (.init ((env p).ackOut d)) [] =
        turns.foldl Handshake.turn (m.sender header p d (.init ((env p).ackOut d)) []) ∧
      turns.countP Handshake.Turn.isOffer = activities.count (p, .switching) ∧
      turns.countP Handshake.Turn.isReceive = 0 := by
  induction activities generalizing m with
  | nil => exact ⟨[], rfl, rfl, rfl⟩
  | cons a activities ih =>
    obtain ⟨turns, hturns, hoffers, hreceives⟩ := ih (m.act header nodes env a)
    obtain ⟨q, process⟩ := a
    rw [List.foldl_cons, List.count_cons, ← hoffers]
    by_cases hq : q = p
    · subst hq
      cases process with
      | routing =>
        rw [sender_routing] at hturns
        refine ⟨.push _ :: turns, hturns, ?_, ?_⟩ <;>
          simp [Handshake.Turn.isOffer, Handshake.Turn.isReceive, hreceives]
      | arbitration => exact ⟨turns, hturns, by simp, hreceives⟩
      | switching =>
        have hack : (m.inputs nodes (env q) q).ackOut d =
            (Signal.init ((env q).ackOut d)).value := if_neg hd
        rw [sender_switching hack] at hturns
        refine ⟨.offer :: turns, hturns, ?_, ?_⟩ <;>
          simp [List.countP_cons, Handshake.Turn.isOffer, Handshake.Turn.isReceive, hreceives]
    · rw [sender_other hq] at hturns
      exact ⟨turns, hturns, by simp [hq], hreceives⟩

theorem link_commit (m : RouterMesh F) : m.commit.link header p d = (m.link header p d).update :=
  rfl

variable (header) in
theorem exists_cycle_edge (hp : p ∈ nodes) (hd : Faces nodes p d) (e : MeshEdge nodes F)
    (m : RouterMesh F) : ∃ c, (m.edge header nodes e).link header p d =
      (m.link header p d).cycle c := by
  obtain ⟨turns, hturns, hoffers, hreceives⟩ := exists_turns header e.env hp hd e.activities m
  rw [e.once, if_pos hp] at hoffers
  rw [e.once, if_pos hd.2] at hreceives
  refine ⟨⟨turns, hoffers, hreceives⟩, ?_⟩
  rw [edge, link_commit, hturns]
  rfl

def Kept (header : F → UInt64) (m : RouterMesh F) : Prop :=
  ∀ p, KeptAt header p (m.router p) (m.took p) (m.sent p)

theorem kept_new (flit : F) : Kept header (new flit) := fun _ => ⟨rfl, rfl, fun _ => rfl⟩

theorem Kept.act (hm : Kept header m) (a : MeshNode × RouterProcess) :
    Kept header (m.act header nodes env a) := by
  obtain ⟨q, process⟩ := a
  cases process with
  | routing =>
    intro p
    simp only [RouterMesh.act]
    by_cases hp : p = q
    · subst hp
      rw [update_self, update_self]
      exact (hm p).routing _
    · rw [update_of_ne hp, update_of_ne hp]
      exact hm p
  | arbitration => exact hm
  | switching =>
    intro p
    simp only [RouterMesh.act]
    by_cases hp : p = q
    · subst hp
      rw [update_self, update_self]
      exact (hm p).switching _
    · rw [update_of_ne hp, update_of_ne hp]
      exact hm p

theorem Kept.activities (hm : Kept header m) (env : MeshNode → Inputs F)
    (activities : List (MeshNode × RouterProcess)) :
    Kept header (activities.foldl (RouterMesh.act header nodes env) m) := by
  induction activities generalizing m with
  | nil => exact hm
  | cons a activities ih => exact ih (hm.act a)

theorem Kept.edge (hm : Kept header m) (e : MeshEdge nodes F) :
    Kept header (m.edge header nodes e) := fun p =>
  have h := hm.activities e.env e.activities p
  ⟨h.currX, h.currY, h.queued⟩

structure Settled (header : F → UInt64) (nodes : Finset MeshNode) (m : RouterMesh F) : Prop where
  kept : Kept header m
  sound : ∀ p ∈ nodes, ∀ d, Faces nodes p d → (m.link header p d).Sound false false

variable (header nodes) in
theorem settled_new (flit : F) : Settled header nodes (new flit) where
  kept := kept_new flit
  sound := fun _ _ _ _ => Handshake.sound_start _

theorem Settled.edge (hm : Settled header nodes m) (e : MeshEdge nodes F) :
    Settled header nodes (m.edge header nodes e) where
  kept := hm.kept.edge e
  sound := fun p hp d hd => by
    obtain ⟨c, hc⟩ := exists_cycle_edge header hp hd e m
    rw [hc]
    exact (hm.sound p hp d hd).cycle c

theorem Settled.run (hm : Settled header nodes m) (edges : List (MeshEdge nodes F)) :
    Settled header nodes (m.run header nodes edges) := by
  induction edges generalizing m with
  | nil => exact hm
  | cons e edges ih => exact ih (hm.edge e)

end RouterMesh
end GemSc
