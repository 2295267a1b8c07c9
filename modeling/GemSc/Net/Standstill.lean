import GemSc.Link.Lanes
import GemSc.Modules.Servicing

/-! Modules over links when nothing happens but their ticks, as in a simulation that
`startAllTicks` begins: what the links still take, and when everything stands still. -/

namespace GemSc
open ExceptFold Finset

namespace Lane
variable {a : Lane} {p : PacketPtr}

def room (a : Lane) : ℕ :=
  (a.output.map fun vc => vc.capacity - vc.buffer.length).getD 0 +
    (a.input.map fun vc => vc.capacity - vc.buffer.length).getD 0

theorem room_recv : (a.recv p).2.room + (a.recv p).1.toNat = a.room := by
  unfold recv
  split
  · next vi hr hvi =>
    by_cases hfull : vi.capacity ≤ vi.buffer.length
    · simp [room, hvi, InputVC.offer, InputVC.countDropped, hfull]
    · simp only [room, hvi, InputVC.offer, InputVC.enqueue, hfull, if_false, Bool.toNat_true,
        Option.map_some, Option.getD_some, List.length_append, List.length_singleton]
      omega
  · exact Nat.add_zero _

theorem room_offer {vo : OutputVC} (hvo : a.output = some vo) :
    ({ a with output := some (vo.offer p).2 } : Lane).room + (vo.offer p).1.toNat = a.room := by
  by_cases hfull : vo.capacity ≤ vo.buffer.length
  · simp [room, hvo, OutputVC.offer, OutputVC.countDropped, hfull]
  · simp only [room, hvo, OutputVC.offer, OutputVC.enqueue, hfull, if_false, Bool.toNat_true,
      Option.map_some, Option.getD_some, List.length_append, List.length_singleton]
    omega

theorem room_sendReq : (a.sendReq p).2.room + (a.sendReq p).1.toNat = a.room := by
  unfold sendReq
  split
  · next vo hr hvo =>
    have hrecv := room_recv (a := a) (p := p)
    by_cases hne : vo.buffer ≠ []
    · rw [if_pos hne]
      exact room_offer hvo
    · rw [if_neg hne]
      cases hok : (a.recv p).1 with
      | true =>
        rw [hok] at hrecv
        rw [if_pos rfl]
        exact hrecv
      | false =>
        rw [hok, Bool.toNat_false, Nat.add_zero] at hrecv
        rw [if_neg Bool.false_ne_true, ← hrecv]
        exact room_offer (output_recv.trans hvo)
  · exact Nat.add_zero _

end Lane

namespace Link
variable {l l' l'' : Link} {i j : ℕ}

def room (l : Link) : ℕ := ∑ k ∈ range l.down.outputVcs.length, (l.lane k).room

def sendReqIn (o : Owners) (m : Memory) (p : PacketPtr) (l : Link) : Bool × Link :=
  { l with mem := m }.sendReq o p

/-- From `l` to `l'` a link took `n` packets and gave none away. -/
structure Fills (l l' : Link) (n : ℕ) : Prop where
  wires : l'.wires = l.wires
  room : l'.room + n = l.room
  outputs : ∀ k, l.down.buffer k <+: l'.down.buffer k
  inputs : ∀ k, l.up.buffer k <+: l'.up.buffer k
  idle : n = 0 → l'.down.buffer = l.down.buffer ∧ l'.up.buffer = l.up.buffer

theorem Fills.refl (l : Link) : l.Fills l 0 :=
  ⟨rfl, rfl, fun _ => List.prefix_refl _, fun _ => List.prefix_refl _, fun _ => ⟨rfl, rfl⟩⟩

theorem Fills.trans (h : l.Fills l' i) (h' : l'.Fills l'' j) : l.Fills l'' (i + j) := by
  refine ⟨h'.wires.trans h.wires, ?_, fun k => (h.outputs k).trans (h'.outputs k),
    fun k => (h.inputs k).trans (h'.inputs k), fun hnone => ?_⟩
  · rw [← h.room, ← h'.room]
    omega
  · obtain ⟨hi, hj⟩ := Nat.add_eq_zero_iff.mp hnone
    obtain ⟨hdown, hup⟩ := h.idle hi
    obtain ⟨hdown', hup'⟩ := h'.idle hj
    exact ⟨hdown'.trans hdown, hup'.trans hup⟩

theorem sendReq_unbound (o : Owners) {p : PacketPtr} {vo : OutputVC}
    (hnone : (l.wires .down).sendTarget = none)
    (hr : vcInRange (l.mem.packet p).vcId l.down.outputVcs.length)
    (hvo : l.down.outputVcs[(l.mem.packet p).vcId.toNat]? = some vo) :
    (l.sendReq o p).1 = (vo.offer p).1 ∧ ∀ k, (l.sendReq o p).2.lane k =
      if (l.mem.packet p).vcId.toNat = k then { l.lane k with output := some (vo.offer p).2 }
      else l.lane k := by
  have hlane : ∀ l' : Link, (∀ k, l'.lane k = l.lane k) → ∀ k,
      ({ l' with down := l'.down.setVc (l.mem.packet p).vcId.toNat (vo.offer p).2 } : Link).lane k =
        if (l.mem.packet p).vcId.toNat = k then { l.lane k with output := some (vo.offer p).2 }
        else l.lane k := by
    intro l' hsame k
    rw [lane_setVc, hsame]
    by_cases hk : (l.mem.packet p).vcId.toNat = k
    · have houtput : (l.lane k).output = some vo := hk ▸ hvo
      rw [if_pos hk, if_pos hk, houtput]
      rfl
    · rw [if_neg hk, if_neg hk]
  by_cases hnil : vo.buffer = []
  · have hsend : l.masterSend o p = (false, { l with
        down := { l.down with stats := MasterPort.countSent l.mem p l.down.stats } }) := by
      unfold masterSend send
      rw [hnone]
    rw [sendReq_of_empty o hr hvo hnil, hsend, if_neg Bool.false_ne_true,
      DownstreamPort.enqueueOrDrop_eq]
    exact ⟨rfl, hlane { l with
      down := { l.down with stats := MasterPort.countSent l.mem p l.down.stats } } fun _ => rfl⟩
  · rw [sendReq_of_queued o hr hvo hnil, DownstreamPort.enqueueOrDrop_eq]
    exact ⟨rfl, hlane l fun _ => rfl⟩

theorem lane_room_sendReq (o : Owners) (p : PacketPtr) (hl : l.Wired)
    (hr : vcInRange (l.mem.packet p).vcId l.down.outputVcs.length) :
    ((l.sendReq o p).2.lane (l.mem.packet p).vcId.toNat).room + (l.sendReq o p).1.toNat =
        (l.lane (l.mem.packet p).vcId.toNat).room ∧
      ∀ k, (l.mem.packet p).vcId.toNat ≠ k → (l.sendReq o p).2.lane k = l.lane k := by
  obtain ⟨hlt, hi⟩ := vcInRange_toNat hr
  rcases hl with hnone | hl
  · obtain ⟨vo, hvo⟩ : ∃ vo, l.down.outputVcs[(l.mem.packet p).vcId.toNat]? = some vo :=
      ⟨_, List.getElem?_eq_getElem hlt⟩
    obtain ⟨hok, hlane⟩ := sendReq_unbound o hnone hr hvo
    refine ⟨?_, fun k hk => (hlane k).trans (if_neg hk)⟩
    rw [hok, hlane, if_pos rfl]
    exact Lane.room_offer hvo
  · obtain ⟨hok, hlane⟩ := lane_sendReq_self o hl hi.symm
    constructor
    · rw [hok, hlane]
      exact Lane.room_sendReq
    · intro k hk
      refine lane_sendReq_other o hl fun heq => hk ?_
      exact Int.ofNat.inj (hi.trans heq)

theorem room_sendReq (o : Owners) (p : PacketPtr) (hl : l.Wired) :
    (l.sendReq o p).2.room + (l.sendReq o p).1.toNat = l.room := by
  by_cases hr : vcInRange (l.mem.packet p).vcId l.down.outputVcs.length
  · have hmem : (l.mem.packet p).vcId.toNat ∈ range l.down.outputVcs.length :=
      mem_range.mpr (vcInRange_toNat hr).1
    obtain ⟨hself, hother⟩ := lane_room_sendReq o p hl hr
    have hlength := (sendReq_cases o p hl).1.outputs
    have hothers : ∀ k ∈ (range l.down.outputVcs.length).erase (l.mem.packet p).vcId.toNat,
        ((l.sendReq o p).2.lane k).room = (l.lane k).room := by
      intro k hk
      rw [hother k (ne_of_mem_erase hk).symm]
    rw [room, room, hlength, ← add_sum_erase _ _ hmem, ← add_sum_erase _ _ hmem,
      sum_congr rfl hothers, Nat.add_right_comm, hself]
  · rw [sendReq_of_outOfRange o hr]
    exact Nat.add_zero _

theorem prefix_update (buffers : ℕ → List PacketPtr) (i : ℕ) (p : PacketPtr) (k : ℕ) :
    buffers k <+: Function.update buffers i (buffers i ++ [p]) k := by
  by_cases hk : k = i
  · subst hk
    rw [Function.update_self]
    exact List.prefix_append _ _
  · rw [Function.update_of_ne hk]

theorem fills_sendReqIn (o : Owners) (m : Memory) (p : PacketPtr) (hl : l.Wired) :
    l.Fills (l.sendReqIn o m p).2 (l.sendReqIn o m p).1.toNat := by
  have hwired : ({ l with mem := m } : Link).Wired := hl
  have hroom := room_sendReq o p hwired
  obtain ⟨hframe, ⟨hno, hdown, hup⟩ | ⟨hyes, i, -, -, hcases⟩⟩ := sendReq_cases o p hwired
  · exact ⟨hframe.wires, hroom, fun k => by rw [sendReqIn, hdown], fun k => by rw [sendReqIn, hup],
      fun _ => ⟨hdown, hup⟩⟩
  · have hone : (l.sendReqIn o m p).1.toNat ≠ 0 := by
      rw [sendReqIn, hyes]
      exact one_ne_zero
    rcases hcases with ⟨hdown, hup⟩ | ⟨-, hdown, hup⟩
    · refine ⟨hframe.wires, hroom, fun k => ?_, fun k => by rw [sendReqIn, hup], fun h => absurd h hone⟩
      rw [sendReqIn, hdown]
      exact prefix_update l.down.buffer i p k
    · refine ⟨hframe.wires, hroom, fun k => by rw [sendReqIn, hdown], fun k => ?_, fun h => absurd h hone⟩
      rw [sendReqIn, hup]
      exact prefix_update l.up.buffer i p k

end Link

def Module.completed : Module → ℤ
  | .trafficGenerator g => g.completed
  | .cpuSim _ => 0
  | .cacheSim _ => 0
  | .memorySim _ => 0
  | .crossbar _ => 0
  | .arbiter _ => 0
  | .router _ => 0

theorem TrafficGenerator.completed_nextAddress (g : TrafficGenerator) (host : Host) :
    (g.nextAddress host).2.completed = g.completed := by
  unfold nextAddress
  cases g.mode with
  | sequential => rfl
  | random => rfl
  | trace => cases g.trace[g.tracePos]? <;> rfl

theorem map_returns {σ τ : Type} {x : Except MemoryFault (Effect σ)} {f : σ → τ} {e : Effect τ}
    (h : x.map (·.map f) = .ok e) :
    ∃ e', x = .ok e' ∧ e.scheduled = e'.scheduled ∧ e.state = f e'.state := by
  cases x with
  | error err => cases h
  | ok e' =>
    obtain rfl := Except.ok.inj h
    exact ⟨e', rfl, rfl, rfl⟩

/-- No module schedules an event in its `tick`, or counts a request as completed. -/
theorem Module.tick_quiet {host : Host} {a : Arena} {m : Module} {e : Effect Module}
    (h : m.tick host a = .ok e) : e.scheduled = [] ∧ e.state.completed = m.completed := by
  cases m with
  | cpuSim c =>
    obtain ⟨e', he', hsched, hstate⟩ := map_returns h
    refine ⟨hsched.trans ?_, hstate ▸ rfl⟩
    rcases CPUSim.tick_eq_ok he' with rfl | ⟨x, b, -, hnone, -⟩
    · rfl
    · exact hnone
  | cacheSim c =>
    obtain ⟨e', he', hsched, hstate⟩ := map_returns h
    exact ⟨hsched.trans (CacheSim.tryForward_eq_ok he').2.1, hstate ▸ rfl⟩
  | memorySim m =>
    obtain rfl := Except.ok.inj h
    exact ⟨rfl, rfl⟩
  | crossbar x =>
    obtain ⟨e', he', hsched, hstate⟩ := map_returns h
    refine ⟨hsched.trans ?_, hstate ▸ rfl⟩
    rcases Crossbar.tick_eq_ok he' with
      ⟨-, rfl⟩ | ⟨pkt, src, rest, -, ⟨-, -, heq⟩ | ⟨-, addr, dst, -, -, rfl⟩⟩
    · rfl
    · rw [heq]
    · rfl
  | arbiter x =>
    obtain ⟨e', he', hsched, hstate⟩ := map_returns h
    refine ⟨hsched.trans ?_, hstate ▸ rfl⟩
    rcases Arbiter.tick_eq_ok he' with ⟨-, rfl⟩ | ⟨pkt, src, rest, -, ⟨-, rfl⟩ | ⟨-, rfl⟩⟩
    · rfl
    · rfl
    · rfl
  | router r =>
    obtain rfl := Except.ok.inj h
    exact ⟨rfl, rfl⟩
  | trafficGenerator g =>
    obtain ⟨e', he', hsched, hstate⟩ := map_returns h
    rw [hsched, hstate]
    rcases TrafficGenerator.tick_eq_ok he' with ⟨-, rfl⟩ | ⟨-, ⟨-, rfl⟩ | ⟨addr, b, -, -, heq, -⟩⟩
    · exact ⟨rfl, rfl⟩
    · exact ⟨rfl, g.completed_nextAddress host⟩
    · rw [heq]
      exact ⟨rfl, g.completed_nextAddress host⟩

/-- Modules with the links of their downstream ports. `taken` names the requests that a port took,
`others` the port calls that are no sends, `scheduled` the events that were scheduled. -/
structure ModuleNet (n : ℕ) where
  modules : Fin n → Module
  links : Fin n → List Link
  taken : List (Fin n × ℕ × PacketPtr)
  others : List PortCall
  scheduled : List (Task × UInt64)

/-- A tick: whose it is, and what it finds besides the links. The packets and the pool may have been
changed by anybody in between. -/
structure TickTurn (n : ℕ) where
  index : Fin n
  owners : Owners
  upstreamPorts : List UpstreamPort
  rand : ℕ
  randomAddr : UInt64
  arena : Arena
  mem : Memory

namespace ModuleNet
variable {n : ℕ} {net net' net'' : ModuleNet n}

def link (net : ModuleNet n) (i : Fin n) (j : ℕ) : Option Link := (net.links i)[j]?

def host (net : ModuleNet n) (t : TickTurn n) : Host where
  now := t.owners.now
  upstreamPorts := t.upstreamPorts
  downstreamPorts := (net.links t.index).map (·.down)
  sendReq j p := ((net.link t.index j).map fun l => (l.sendReqIn t.owners t.mem p).1).getD false
  rand := t.rand
  randomAddr := t.randomAddr

/-- A port call on the links. What is no send would lead into the handlers of other modules. -/
def serve (t : TickTurn n) (net : ModuleNet n) : PortCall → ModuleNet n
  | .sendReq j p =>
    match net.link t.index j with
    | none => net
    | some l =>
      let r := l.sendReqIn t.owners t.mem p
      { net with
        links := Function.update net.links t.index ((net.links t.index).set j r.2)
        taken := if r.1 then net.taken ++ [(t.index, j, p)] else net.taken }
  | call => { net with others := net.others ++ [call] }

def step (net : ModuleNet n) (t : TickTurn n) : Except MemoryFault (ModuleNet n) := do
  let e ← (net.modules t.index).tick (net.host t) t.arena
  let served := e.calls.foldl (serve t) net
  return { served with
    modules := Function.update served.modules t.index e.state
    scheduled := served.scheduled ++ e.scheduled }

def run (net : ModuleNet n) (turns : List (TickTurn n)) : Except MemoryFault (ModuleNet n) :=
  turns.foldlM step net

/-- Each downstream port is unbound, or bound to the upstream port at the other end of its link. -/
def Wired (net : ModuleNet n) : Prop := ∀ i j l, net.link i j = some l → l.Wired

def takenOn (net : ModuleNet n) (i : Fin n) (j : ℕ) : ℕ :=
  net.taken.countP fun r => r.1 = i ∧ r.2.1 = j

def room (net : ModuleNet n) : ℕ := ∑ i, ((net.links i).map Link.room).sum

/-- From `net` to `net'` nothing was called or scheduled but sends, and the links took what they
have less room for, and gave nothing away. -/
structure Ahead (net net' : ModuleNet n) : Prop where
  others : net'.others = net.others
  scheduled : net'.scheduled = net.scheduled
  completed : ∀ i, (net'.modules i).completed = (net.modules i).completed
  taken : net.taken <+: net'.taken
  lengths : ∀ i, (net'.links i).length = (net.links i).length
  room : net'.taken.length + net'.room = net.taken.length + net.room
  links : ∀ i j l, net.link i j = some l → ∃ l' k, net'.link i j = some l' ∧
    net'.takenOn i j = net.takenOn i j + k ∧ l.Fills l' k

theorem Ahead.refl (net : ModuleNet n) : net.Ahead net :=
  ⟨rfl, rfl, fun _ => rfl, List.prefix_refl _, fun _ => rfl, rfl, fun _ _ l hl => ⟨l, 0, hl, rfl, .refl l⟩⟩

theorem Ahead.trans (h : net.Ahead net') (h' : net'.Ahead net'') : net.Ahead net'' := by
  refine ⟨h'.others.trans h.others, h'.scheduled.trans h.scheduled,
    fun i => (h'.completed i).trans (h.completed i), h.taken.trans h'.taken,
    fun i => (h'.lengths i).trans (h.lengths i), h'.room.trans h.room, ?_⟩
  intro i j l hl
  obtain ⟨l', k, hl', hcount, hfills⟩ := h.links i j l hl
  obtain ⟨l'', k', hl'', hcount', hfills'⟩ := h'.links i j l' hl'
  exact ⟨l'', k + k', hl'', by rw [hcount', hcount, Nat.add_assoc], hfills.trans hfills'⟩

theorem sum_map_set {α : Type*} (f : α → ℕ) {xs : List α} {j : ℕ} {x y : α} (h : xs[j]? = some x) :
    ((xs.set j y).map f).sum + f x = (xs.map f).sum + f y := by
  induction xs generalizing j with
  | nil => cases h
  | cons a xs ih =>
    cases j with
    | zero =>
      obtain rfl : a = x := Option.some.inj h
      simp only [List.set_cons_zero, List.map_cons, List.sum_cons]
      omega
    | succ j =>
      have htail := ih (j := j) h
      simp only [List.set_cons_succ, List.map_cons, List.sum_cons]
      omega

section
variable {t : TickTurn n} {j : ℕ} {l : Link} {p : PacketPtr}

theorem serve_sendReq (hl : net.link t.index j = some l) : net.serve t (.sendReq j p) =
    { net with
      links := Function.update net.links t.index
        ((net.links t.index).set j (l.sendReqIn t.owners t.mem p).2)
      taken := if (l.sendReqIn t.owners t.mem p).1 then net.taken ++ [(t.index, j, p)]
        else net.taken } := by
  simp only [serve, hl]

theorem links_serve (hl : net.link t.index j = some l) : (net.serve t (.sendReq j p)).links =
    Function.update net.links t.index
      ((net.links t.index).set j (l.sendReqIn t.owners t.mem p).2) := by
  rw [serve_sendReq hl]

theorem taken_serve (hl : net.link t.index j = some l) : (net.serve t (.sendReq j p)).taken =
    if (l.sendReqIn t.owners t.mem p).1 then net.taken ++ [(t.index, j, p)] else net.taken := by
  rw [serve_sendReq hl]

theorem link_serve_self (hl : net.link t.index j = some l) :
    (net.serve t (.sendReq j p)).link t.index j = some (l.sendReqIn t.owners t.mem p).2 := by
  have hlt : j < (net.links t.index).length := (List.getElem?_eq_some_iff.mp hl).1
  rw [link, links_serve hl, Function.update_self, List.getElem?_set_self hlt]

theorem link_serve_other (hl : net.link t.index j = some l) {i : Fin n} {k : ℕ}
    (hne : ¬ (t.index = i ∧ j = k)) : (net.serve t (.sendReq j p)).link i k = net.link i k := by
  rw [link, links_serve hl]
  by_cases hi : i = t.index
  · subst hi
    have hjk : j ≠ k := fun h => hne ⟨rfl, h⟩
    rw [Function.update_self, List.getElem?_set_ne hjk]
    rfl
  · rw [Function.update_of_ne hi]
    rfl

theorem takenOn_serve (hl : net.link t.index j = some l) (i : Fin n) (k : ℕ) :
    (net.serve t (.sendReq j p)).takenOn i k = net.takenOn i k +
      if t.index = i ∧ j = k then (l.sendReqIn t.owners t.mem p).1.toNat else 0 := by
  rw [takenOn, taken_serve hl]
  cases (l.sendReqIn t.owners t.mem p).1 with
  | false => simp [takenOn]
  | true => simp [takenOn, List.countP_append, List.countP_cons]

theorem room_serve (hl : net.link t.index j = some l) (hwired : l.Wired) :
    (net.serve t (.sendReq j p)).taken.length + (net.serve t (.sendReq j p)).room =
      net.taken.length + net.room := by
  have hroom := (l.fills_sendReqIn t.owners t.mem p hwired).room
  have hset := sum_map_set Link.room (y := (l.sendReqIn t.owners t.mem p).2) hl
  have hothers : ∀ i ∈ univ.erase t.index,
      ((Function.update net.links t.index
        ((net.links t.index).set j (l.sendReqIn t.owners t.mem p).2) i).map Link.room).sum =
      ((net.links i).map Link.room).sum := by
    intro i hi
    rw [Function.update_of_ne (ne_of_mem_erase hi)]
  have htaken : (net.serve t (.sendReq j p)).taken.length =
      net.taken.length + (l.sendReqIn t.owners t.mem p).1.toNat := by
    rw [taken_serve hl]
    cases (l.sendReqIn t.owners t.mem p).1 with
    | false => rfl
    | true => simp
  rw [htaken, room, room, links_serve hl, ← add_sum_erase _ _ (mem_univ t.index),
    ← add_sum_erase _ _ (mem_univ t.index), sum_congr rfl hothers, Function.update_self]
  omega

theorem ahead_serve (hnet : net.Wired) (j : ℕ) (p : PacketPtr) :
    net.Ahead (net.serve t (.sendReq j p)) := by
  cases hl : net.link t.index j with
  | none =>
    have hsame : net.serve t (.sendReq j p) = net := by simp only [serve, hl]
    rw [hsame]
    exact .refl net
  | some l =>
    have hwired := hnet t.index j l hl
    refine ⟨?_, ?_, fun i => ?_, ?_, ?_, room_serve hl hwired, ?_⟩
    · rw [serve_sendReq hl]
    · rw [serve_sendReq hl]
    · rw [serve_sendReq hl]
    · rw [taken_serve hl]
      cases (l.sendReqIn t.owners t.mem p).1 with
      | false => exact List.prefix_refl _
      | true => exact List.prefix_append _ _
    · intro i
      rw [links_serve hl]
      by_cases hi : i = t.index
      · subst hi
        rw [Function.update_self, List.length_set]
      · rw [Function.update_of_ne hi]
    · intro i k m hm
      by_cases hsame : t.index = i ∧ j = k
      · obtain ⟨rfl, rfl⟩ := hsame
        obtain rfl : l = m := Option.some.inj (hl.symm.trans hm)
        refine ⟨_, _, link_serve_self hl, ?_, l.fills_sendReqIn t.owners t.mem p hwired⟩
        rw [takenOn_serve hl, if_pos ⟨rfl, rfl⟩]
      · refine ⟨m, 0, (link_serve_other hl hsame).trans hm, ?_, .refl m⟩
        rw [takenOn_serve hl, if_neg hsame]

end

theorem Ahead.wired (h : net.Ahead net') (hnet : net.Wired) : net'.Wired := by
  intro i j l' hl'
  have hlt : j < (net.links i).length := (h.lengths i) ▸ (List.getElem?_eq_some_iff.mp hl').1
  obtain ⟨l, hl⟩ : ∃ l, net.link i j = some l := ⟨_, List.getElem?_eq_getElem hlt⟩
  obtain ⟨m, k, hm, -, hfills⟩ := h.links i j l hl
  obtain rfl : m = l' := Option.some.inj (hm.symm.trans hl')
  show (m.wires .down).sendTarget = none ∨ (m.wires .down).sendTarget = some .up
  rw [hfills.wires]
  exact hnet i j l hl

theorem ahead_serve_all {t : TickTurn n} {calls : List PortCall} (hsends : SendsOnly calls)
    (hnet : net.Wired) : net.Ahead (calls.foldl (serve t) net) := by
  induction calls generalizing net with
  | nil => exact .refl net
  | cons c calls ih =>
    obtain ⟨j, p, rfl⟩ := hsends c (List.mem_cons_self ..)
    have hfirst : net.Ahead (net.serve t (.sendReq j p)) := ahead_serve hnet j p
    have hrest := ih (fun c' hc' => hsends c' (List.mem_cons_of_mem _ hc')) (hfirst.wired hnet)
    exact hfirst.trans hrest

theorem modules_serve_all {t : TickTurn n} (calls : List PortCall) (net : ModuleNet n) :
    (calls.foldl (serve t) net).modules = net.modules := by
  induction calls generalizing net with
  | nil => rfl
  | cons c calls ih =>
    have hone : (net.serve t c).modules = net.modules := by
      cases c with
      | sendReq j p =>
        unfold serve
        dsimp only
        split <;> rfl
      | sendResp j p => rfl
      | upstreamTick j => rfl
      | downstreamTick j => rfl
    exact (ih _).trans hone

theorem ahead_step {t : TickTurn n} (hnet : net.Wired) (h : net.step t = .ok net') :
    net.Ahead net' := by
  obtain ⟨e, he, rfl⟩ := bind_pure_eq_ok.mp h
  obtain ⟨hsched, hcompleted⟩ := Module.tick_quiet he
  have hserved : net.Ahead (e.calls.foldl (serve t) net) :=
    ahead_serve_all (Module.sendsOnly_tick he) hnet
  refine ⟨hserved.others, ?_, fun i => ?_, hserved.taken, hserved.lengths, hserved.room,
    hserved.links⟩
  · rw [hsched, List.append_nil]
    exact hserved.scheduled
  · rw [modules_serve_all]
    show (Function.update net.modules t.index e.state i).completed = (net.modules i).completed
    by_cases hi : i = t.index
    · subst hi
      rw [Function.update_self]
      exact hcompleted
    · rw [Function.update_of_ne hi]

theorem ahead_run {turns : List (TickTurn n)} (hnet : net.Wired) (h : net.run turns = .ok net') :
    net.Ahead net' := by
  have hboth : net.Ahead net' ∧ net'.Wired := by
    refine foldlM_invariant (fun m => net.Ahead m ∧ m.Wired) h ⟨.refl net, hnet⟩ ?_
    rintro t - m m' ⟨hm, hwired⟩ hstep
    have hone := ahead_step hwired hstep
    exact ⟨hm.trans hone, hone.wired hwired⟩
  exact hboth.1

/-- Ticks alone serve nothing. In every run of them, whoever ticks when and whatever the packets hold,
no handler is called and no event scheduled, no traffic generator counts a request as completed, each
port takes as many requests as its link has lost room, and what is in a buffer stays there. -/
theorem run_serves_nothing {turns : List (TickTurn n)} (hnet : net.Wired)
    (h : net.run turns = .ok net') :
    net'.others = net.others ∧ net'.scheduled = net.scheduled ∧
      (∀ i, (net'.modules i).completed = (net.modules i).completed) ∧
      ∀ i j l, net.link i j = some l → ∃ l', net'.link i j = some l' ∧
        net'.takenOn i j + l'.room = net.takenOn i j + l.room ∧
        ∀ k, l.down.buffer k <+: l'.down.buffer k ∧ l.up.buffer k <+: l'.up.buffer k := by
  have hahead := ahead_run hnet h
  refine ⟨hahead.others, hahead.scheduled, hahead.completed, ?_⟩
  intro i j l hl
  obtain ⟨l', k, hl', hcount, hfills⟩ := hahead.links i j l hl
  refine ⟨l', hl', ?_, fun k => ⟨hfills.outputs k, hfills.inputs k⟩⟩
  rw [hcount, ← hfills.room]
  omega

section
variable {nets : ℕ → ModuleNet n} {turns : ℕ → TickTurn n}

theorem ahead_of_steps (hnet : (nets 0).Wired) (hrun : ∀ s, (nets s).step (turns s) = .ok (nets (s + 1)))
    {s s' : ℕ} (hle : s ≤ s') : (nets s).Ahead (nets s') := by
  have hwired : ∀ s, (nets s).Wired := by
    intro s
    induction s with
    | zero => exact hnet
    | succ s ih => exact (ahead_step ih (hrun s)).wired ih
  induction s', hle using Nat.le_induction with
  | base => exact .refl _
  | succ s' _ ih => exact ih.trans (ahead_step (hwired s') (hrun s'))

/-- Ticks alone come to a standstill. In every endless run of them there is a moment from which on no
port takes a request and no buffer changes. -/
theorem run_stands_still (hnet : (nets 0).Wired)
    (hrun : ∀ s, (nets s).step (turns s) = .ok (nets (s + 1))) :
    ∃ s, ∀ s', s ≤ s' → (nets s').taken = (nets s).taken ∧
      ∀ i j l, (nets s).link i j = some l → ∃ l', (nets s').link i j = some l' ∧
        l'.down.buffer = l.down.buffer ∧ l'.up.buffer = l.up.buffer := by
  have hantitone : Antitone fun s => (nets s).room := by
    intro s s' hle
    have hahead := ahead_of_steps hnet hrun hle
    have hlength := hahead.taken.length_le
    have hroom := hahead.room
    show (nets s').room ≤ (nets s).room
    omega
  obtain ⟨s, hs⟩ := WellFoundedLT.antitone_chain_condition hantitone
  refine ⟨s, fun s' hle => ?_⟩
  have hahead := ahead_of_steps hnet hrun hle
  have htaken : (nets s).taken = (nets s').taken := by
    have hroom := hahead.room
    rw [← hs s' hle] at hroom
    exact hahead.taken.eq_of_length (Nat.add_right_cancel hroom).symm
  refine ⟨htaken.symm, ?_⟩
  intro i j l hl
  obtain ⟨l', k, hl', hcount, hfills⟩ := hahead.links i j l hl
  have hnone : k = 0 := by
    rw [takenOn, takenOn, htaken] at hcount
    omega
  exact ⟨l', hl', hfills.idle hnone⟩

end

theorem step_memory {t : TickTurn n} {m : MemorySim} (hm : net.modules t.index = .memorySim m) :
    net.step t = .ok net := by
  unfold step
  rw [hm]
  show Except.ok { net with
    modules := Function.update net.modules t.index (.memorySim m)
    scheduled := net.scheduled ++ [] } = .ok net
  rw [← hm, Function.update_eq_self, List.append_nil]

def cpuAndMemory : ModuleNet 2 where
  modules := ![.cpuSim {}, .memorySim ⟨⟩]
  links := ![[⟨Link.pairedWires, .new 0 [1] [] "", .new 0 [1] [] "", Heap.empty.toMemory⟩], []]
  taken := []
  others := []
  scheduled := []

def tickTurn (i : Fin 2) : TickTurn 2 :=
  ⟨i, ⟨0, fun _ _ => true, fun _ => true⟩, [], 0, 0, .empty, Heap.empty.toMemory⟩

def afterTicks : ℕ → ModuleNet 2
  | 0 => cpuAndMemory
  | s + 1 => valueOr cpuAndMemory ((afterTicks s).step (tickTurn 0))

theorem cpuAndMemory_wired : cpuAndMemory.Wired := by
  intro i j l hl
  match i, j with
  | 0, 0 =>
    obtain rfl := Option.some.inj hl
    exact .inr rfl
  | 0, j + 1 => cases hl
  | 1, j => cases hl

theorem step_afterTicks {s : ℕ} (hs : s < 3) :
    (afterTicks s).step (tickTurn 0) = .ok (afterTicks (s + 1)) := by
  have hok : ∀ s : Fin 3, ((afterTicks s).step (tickTurn 0)).isOk := by decide +kernel
  exact eq_ok_valueOr (hok ⟨s, hs⟩)

theorem run_serves_nothing_cpuAndMemory :
    (afterTicks 2).others = [] ∧ (afterTicks 2).scheduled = [] ∧
      (∀ i, ((afterTicks 2).modules i).completed = (cpuAndMemory.modules i).completed) ∧
      ∀ i j l, cpuAndMemory.link i j = some l → ∃ l', (afterTicks 2).link i j = some l' ∧
        (afterTicks 2).takenOn i j + l'.room = cpuAndMemory.takenOn i j + l.room ∧
        ∀ k, l.down.buffer k <+: l'.down.buffer k ∧ l.up.buffer k <+: l'.up.buffer k := by
  have hrun : cpuAndMemory.run [tickTurn 0, tickTurn 0] = .ok (afterTicks 2) := by
    refine foldlM_cons_ok.mpr ⟨afterTicks 1, step_afterTicks (s := 0) (by decide), ?_⟩
    exact foldlM_cons_ok.mpr ⟨afterTicks 2, step_afterTicks (s := 1) (by decide), rfl⟩
  exact run_serves_nothing cpuAndMemory_wired hrun

/-- The CPU ticks three times, then the memory for ever; its ticks change nothing. -/
theorem run_stands_still_cpuAndMemory :
    ∃ s, ∀ s', s ≤ s' → (afterTicks (min s' 3)).taken = (afterTicks (min s 3)).taken ∧
      ∀ i j l, (afterTicks (min s 3)).link i j = some l →
        ∃ l', (afterTicks (min s' 3)).link i j = some l' ∧
          l'.down.buffer = l.down.buffer ∧ l'.up.buffer = l.up.buffer := by
  have hmemory : (afterTicks 3).step (tickTurn 1) = .ok (afterTicks 3) := by
    have hmodule : (afterTicks 3).modules 1 = .memorySim ⟨⟩ := rfl
    exact step_memory hmodule
  refine @run_stands_still 2 (fun s => afterTicks (min s 3))
    (fun s => tickTurn (if s < 3 then 0 else 1)) cpuAndMemory_wired ?_
  intro s
  by_cases hs : s < 3
  · rw [if_pos hs, min_eq_left hs.le, min_eq_left hs]
    exact step_afterTicks hs
  · have hge := not_lt.mp hs
    rw [if_neg hs, min_eq_right hge, min_eq_right (hge.trans (Nat.le_succ s))]
    exact hmemory

end ModuleNet
end GemSc
