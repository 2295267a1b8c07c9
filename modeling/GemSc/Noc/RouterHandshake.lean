import GemSc.Noc.ScTlmRouter

/-! Two SystemC routers, an output of the first connected to an input of the second: over any run
of clock edges each flit crosses once and in order. -/

namespace GemSc
open Function ScTlmRouter

/-- The two routers, with what was pushed into the connected output buffer of the first one, what
was popped off it, and what the second one accepted from the connected direction. -/
structure RouterPair (F : Type*) where
  first : ScTlmRouter F
  second : ScTlmRouter F
  pushed : List F
  popped : List F
  accepted : List F

/-- What runs at a clock edge: the processes of the routers, and whatever else puts flits into the
connected buffer. -/
inductive Activity (F : Type*)
  | firstRouting
  | firstSwitching
  | secondRouting
  | secondSwitching
  | push (flit : F)

namespace Activity
variable {F : Type*}

def isFirstSwitching : Activity F → Bool
  | firstSwitching => true
  | firstRouting => false
  | secondRouting => false
  | secondSwitching => false
  | push _ => false

def isSecondRouting : Activity F → Bool
  | secondRouting => true
  | firstRouting => false
  | firstSwitching => false
  | secondSwitching => false
  | push _ => false

end Activity

/-- A clock edge runs the two processes at the ends of the connection once, in any order with
everything else. `first` and `second` are the signals at the other ports. -/
structure Edge (F : Type*) where
  first : Inputs F
  second : Inputs F
  activities : List (Activity F)
  switches : activities.countP Activity.isFirstSwitching = 1
  routes : activities.countP Activity.isSecondRouting = 1

namespace RouterPair
variable {F : Type*} (header : F → UInt64) (o i : Direction)

/-- All signals are false and all buffers empty. -/
def new (firstX firstY secondX secondY : UInt32) (flit : F) : RouterPair F where
  first := .new firstX firstY flit
  second := .new secondX secondY flit
  pushed := []
  popped := []
  accepted := []

/-- `ack_out[o]` of the first router is `ack_in[i]` of the second one. -/
def firstInputs (inputs : Inputs F) (s : RouterPair F) : Inputs F :=
  { inputs with ackOut := update inputs.ackOut o (s.second.ackIn i).value }

/-- `req_in[i]` and `flit_in[i]` of the second router are `req_out[o]` and `flit_out[o]` of the
first one. -/
def secondInputs (inputs : Inputs F) (s : RouterPair F) : Inputs F :=
  { inputs with
    reqIn := update inputs.reqIn i (s.first.out o).reqOut.value
    flitIn := update inputs.flitIn i (s.first.out o).flitOut.value }

def act (first second : Inputs F) (s : RouterPair F) : Activity F → RouterPair F
  | .firstRouting =>
    let r := s.first.routingProcess header (s.firstInputs o i first)
    { s with first := r.1, pushed := s.pushed ++ s.first.routedTo header o r.2 }
  | .firstSwitching =>
    let r := s.first.switchingProcess (s.firstInputs o i first)
    { s with first := r.1, popped := s.popped ++ along o r.2 }
  | .secondRouting =>
    let r := s.second.routingProcess header (s.secondInputs o i second)
    { s with second := r.1, accepted := s.accepted ++ along i r.2 }
  | .secondSwitching =>
    { s with second := (s.second.switchingProcess (s.secondInputs o i second)).1 }
  | .push flit =>
    { s with
      first := { s.first with out := update s.first.out o ((s.first.out o).push flit) }
      pushed := s.pushed ++ [flit] }

def edge (s : RouterPair F) (e : Edge F) : RouterPair F :=
  let s := e.activities.foldl (act header o i e.first e.second) s
  { s with first := s.first.commit, second := s.second.commit }

def run (edges : List (Edge F)) (s : RouterPair F) : RouterPair F := edges.foldl (edge header o i) s

def link (s : RouterPair F) : Handshake F where
  buffer := (s.first.out o).outputBuffer
  req := (s.first.out o).reqOut
  data := (s.first.out o).flitOut
  ack := s.second.ackIn i
  pushed := s.pushed
  popped := s.popped
  accepted := s.accepted

/-- The flits accepted so far are the first ones that were pushed, and at most the last one of them
was not popped yet. -/
structure TransfersOnce (s : RouterPair F) : Prop where
  inOrder : s.accepted <+: s.pushed
  queued : s.pushed = s.popped ++ (s.first.out o).outputBuffer
  pending : s.accepted = s.popped ∨
    ∃ flit, (s.first.out o).outputBuffer.head? = some flit ∧ s.accepted = s.popped ++ [flit]

variable {header o i} {first second : Inputs F} {s : RouterPair F} {offered received : Bool}

theorem link_firstRouting : (s.act header o i first second .firstRouting).link o i =
    (s.link o i).push (s.first.routedTo header o
      (s.first.routingProcess header (s.firstInputs o i first)).2) := by
  have hout := (routed_routingProcess header (s.firstInputs o i first) s.first).out o
  unfold link
  simp only [act, hout]
  rfl

theorem link_firstSwitching : (s.act header o i first second .firstSwitching).link o i =
    (s.link o i).offer := by
  have hswitched := switched_switchingProcess (s.firstInputs o i first) s.first
  have hout := (hswitched.out o).trans (if_pos (mem_all o))
  have hpopped := (hswitched.popped o).trans (if_pos (mem_all o))
  have hack : (s.firstInputs o i first).ackOut o = (s.second.ackIn i).value := update_self ..
  rw [hack] at hout hpopped
  unfold link
  simp only [act, hout, hpopped]
  unfold OutPort.switch Handshake.offer
  cases (s.first.out o).outputBuffer with
  | nil => simp
  | cons flit rest =>
    cases (s.first.out o).reqOut.value <;> cases (s.second.ackIn i).value <;>
      simp [Signal.write]

theorem link_secondRouting : (s.act header o i first second .secondRouting).link o i =
    (s.link o i).receive := by
  have hrouted := routed_routingProcess header (s.secondInputs o i second) s.second
  have hack := (hrouted.ackIn i).trans (if_pos (mem_all i))
  have haccepted := hrouted.accepted i
  have haccepts : s.second.accepts (s.secondInputs o i second) i =
      ((s.first.out o).reqOut.value && !(s.second.ackIn i).value) := by
    have hreq : (s.secondInputs o i second).reqIn i = (s.first.out o).reqOut.value := update_self ..
    rw [accepts, hreq]
  have hflit : (s.secondInputs o i second).flitIn i = (s.first.out o).flitOut.value :=
    update_self ..
  rw [haccepts] at hack haccepted
  rw [hflit] at haccepted
  unfold link
  simp only [act, hack, haccepted, mem_all, true_and]
  unfold Handshake.receive
  cases (s.first.out o).reqOut.value && !(s.second.ackIn i).value <;> simp

theorem link_secondSwitching :
    (s.act header o i first second .secondSwitching).link o i = s.link o i := by
  have hswitched := switched_switchingProcess (s.secondInputs o i second) s.second
  unfold link
  simp only [act, hswitched.ackIn]

theorem link_push (flit : F) : (s.act header o i first second (.push flit)).link o i =
    (s.link o i).push [flit] := by
  unfold link
  simp only [act, update_self]
  rfl

theorem sound_act (hs : (s.link o i).Sound offered received) (a : Activity F)
    (hoffered : a.isFirstSwitching → offered = false)
    (hreceived : a.isSecondRouting → received = false) :
    ((s.act header o i first second a).link o i).Sound (offered || a.isFirstSwitching)
      (received || a.isSecondRouting) := by
  cases a with
  | firstRouting =>
    rw [link_firstRouting]
    simpa [Activity.isFirstSwitching, Activity.isSecondRouting] using hs.push _
  | firstSwitching =>
    obtain rfl := hoffered rfl
    rw [link_firstSwitching]
    simpa [Activity.isFirstSwitching, Activity.isSecondRouting] using hs.offer
  | secondRouting =>
    obtain rfl := hreceived rfl
    rw [link_secondRouting]
    simpa [Activity.isFirstSwitching, Activity.isSecondRouting] using hs.receive
  | secondSwitching =>
    rw [link_secondSwitching]
    simpa [Activity.isFirstSwitching, Activity.isSecondRouting] using hs
  | push flit =>
    rw [link_push]
    simpa [Activity.isFirstSwitching, Activity.isSecondRouting] using hs.push [flit]

theorem turn_of_once {turn : Bool} {n : ℕ} {b : Bool}
    (h : turn.toNat + (n + if b then 1 else 0) = 1) :
    (b → turn = false) ∧ (turn || b).toNat + n = 1 := by
  cases turn <;> cases b <;> simp_all

theorem sound_activities (activities : List (Activity F))
    (hs : (s.link o i).Sound offered received)
    (hoffered : offered.toNat + activities.countP Activity.isFirstSwitching = 1)
    (hreceived : received.toNat + activities.countP Activity.isSecondRouting = 1) :
    ((activities.foldl (act header o i first second) s).link o i).Sound true true := by
  induction activities generalizing s offered received with
  | nil =>
    have ho : offered = true := Bool.toNat_eq_one.mp hoffered
    have hr : received = true := Bool.toNat_eq_one.mp hreceived
    subst ho hr
    exact hs
  | cons a activities ih =>
    rw [List.countP_cons] at hoffered hreceived
    obtain ⟨hfirst, hoffered'⟩ := turn_of_once hoffered
    obtain ⟨hsecond, hreceived'⟩ := turn_of_once hreceived
    exact ih (sound_act hs a hfirst hsecond) hoffered' hreceived'

theorem sound_edge (hs : (s.link o i).Sound false false) (e : Edge F) :
    ((s.edge header o i e).link o i).Sound false false := by
  have hturns : ((e.activities.foldl (act header o i e.first e.second) s).link o i).Sound true true :=
    sound_activities e.activities hs ((Nat.zero_add _).trans e.switches)
      ((Nat.zero_add _).trans e.routes)
  exact hturns.update

variable (header) in
theorem sound_run (hs : (s.link o i).Sound false false) (edges : List (Edge F)) :
    ((s.run header o i edges).link o i).Sound false false := by
  induction edges generalizing s with
  | nil => exact hs
  | cons e edges ih => exact ih (sound_edge hs e)

/-- In every run each flit crosses the connection once. -/
theorem run_transfersOnce (header : F → UInt64) (o i : Direction)
    (firstX firstY secondX secondY : UInt32) (flit : F) (edges : List (Edge F)) :
    ((new firstX firstY secondX secondY flit).run header o i edges).TransfersOnce o := by
  have hstart : ((new firstX firstY secondX secondY flit).link o i).Sound false false :=
    Handshake.sound_start _
  have hs := sound_run header hstart edges
  exact ⟨hs.accepted_isPrefix, hs.order, hs.accepted_eq⟩

/-- Something else pushes flits, and then the processes run, those of the second router first. -/
def pushEdge (inputs : Inputs F) (flits : List F) : Edge F where
  first := inputs
  second := inputs
  activities := flits.map .push ++ [.secondRouting, .secondSwitching, .firstRouting, .firstSwitching]
  switches := by
    have hpushes : (flits.map Activity.push).countP Activity.isFirstSwitching = 0 := by
      simp [Activity.isFirstSwitching]
    rw [List.countP_append, hpushes]
    rfl
  routes := by
    have hpushes : (flits.map Activity.push).countP Activity.isSecondRouting = 0 := by
      simp [Activity.isSecondRouting]
    rw [List.countP_append, hpushes]
    rfl

/-- Three flits are pushed, and a fourth one comes in from the west. After eight edges the second
router has accepted three of them, the last of which is not yet popped. -/
def pushedRun : List (Edge UInt64) :=
  (pushEdge ⟨fun d => d == .west, fun _ => 1, fun _ => true⟩ [5, 6, 7]) ::
    List.replicate 7 (pushEdge ⟨fun _ => false, fun _ => 0, fun _ => true⟩ [])

theorem run_transfersOnce_pushed :
    let s := (new 0 0 1 0 0).run (fun header => header) .east .west pushedRun
    s.pushed = [5, 6, 7, 1] ∧ s.accepted = [5, 6, 7] ∧ s.popped = [5, 6] ∧ s.TransfersOnce .east := by
  intro s
  refine ⟨by decide +kernel, by decide +kernel, by decide +kernel, ?_⟩
  exact run_transfersOnce (fun header => header) .east .west 0 0 1 0 0 pushedRun

end RouterPair
end GemSc
