import GemSc.Lib.ExceptFold
import GemSc.Lib.Ledger
import GemSc.Modules.Inversion
import GemSc.Pool.Usable

/-! Runs of a `Router`, a `Crossbar` or an `Arbiter`: where the response to each request that
was sent on goes. -/

namespace GemSc
open Function ExceptFold

inductive Interconnect
  | router (r : Router)
  | crossbar (x : Crossbar)
  | arbiter (x : Arbiter)

namespace Interconnect

def handleUpstreamRequest (host : Host) (pkt : PacketPtr) (srcId : ℕ) (m : Interconnect)
    (a : Arena) : Except MemoryFault (Bool × Effect Interconnect) :=
  match m with
  | .router r => do
    let res ← r.handleUpstreamRequest host pkt a
    return (res.1, res.2.map .router)
  | .crossbar x => do
    let res ← x.handleUpstreamRequest pkt srcId a
    return (res.1, res.2.map .crossbar)
  | .arbiter x => do
    let res ← x.handleUpstreamRequest pkt srcId a
    return (res.1, res.2.map .arbiter)

def handleDownstreamResponse (host : Host) (pkt : PacketPtr) (srcId : ℕ) (m : Interconnect)
    (a : Arena) : Except MemoryFault (Bool × Effect Interconnect) :=
  match m with
  | .router r => do
    let res ← r.handleDownstreamResponse host pkt srcId a
    return (res.1, res.2.map .router)
  | .crossbar x => do
    let res ← x.handleDownstreamResponse pkt a
    return (res.1, res.2.map .crossbar)
  | .arbiter x => do
    let res ← x.handleDownstreamResponse pkt a
    return (res.1, res.2.map .arbiter)

def tick (host : Host) (m : Interconnect) (a : Arena) : Except MemoryFault (Effect Interconnect) :=
  match m with
  | .router r => do
    let e ← r.tick a
    return e.map .router
  | .crossbar x => do
    let e ← x.tick host a
    return e.map .crossbar
  | .arbiter x => do
    let e ← x.tick host a
    return e.map .arbiter

/-- A response from downstream port `d` is sent on upstream port `d`. -/
def SendsBack (host : Host) (d : ℕ) : Interconnect → Prop
  | .router _ => d < host.upstreamPorts.length
  | .crossbar _ => False
  | .arbiter _ => False

variable {host : Host} {p : PacketPtr} {d : ℕ} {m : Interconnect} {a : Arena}
  {res : Bool × Effect Interconnect}

theorem handleDownstreamResponse_eq_ok (h : m.handleDownstreamResponse host p d a = .ok res)
    (horig : (a.heap.packet p).originalReq ≠ none) :
    (m.SendsBack host d ∧ res.2.arena = a ∧ res.2.calls = [.sendResp d p]) ∨
      (¬ m.SendsBack host d ∧ a.Gone p res.2.arena ∧ res.2.calls = []) := by
  cases m with
  | router r =>
    obtain ⟨⟨ok, e⟩, hr, rfl⟩ := bind_pure_eq_ok.mp h
    rcases Router.handleDownstreamResponse_eq_ok hr with ⟨-, hlt, rfl⟩ | ⟨hno, hrel, heq⟩
    · exact .inl ⟨hlt, rfl, rfl⟩
    · refine .inr ⟨fun hlt => hno ⟨Option.isSome_iff_ne_none.mpr horig, hlt⟩, ?_, ?_⟩
      · exact Arena.release_eq_ok hrel
      · exact congrArg Effect.calls heq
  | crossbar x =>
    obtain ⟨res', hx, rfl⟩ := bind_pure_eq_ok.mp h
    obtain ⟨b, hrel, rfl⟩ := bind_pure_eq_ok.mp hx
    exact .inr ⟨id, Arena.release_eq_ok hrel, rfl⟩
  | arbiter x =>
    obtain ⟨res', hx, rfl⟩ := bind_pure_eq_ok.mp h
    obtain ⟨b, hrel, rfl⟩ := bind_pure_eq_ok.mp hx
    exact .inr ⟨id, Arena.release_eq_ok hrel, rfl⟩

end Interconnect

/-- A module with the ledger of the requests that it sent on. `entry` is the upstream port that
a packet came by last, and `outstanding` holds what was sent on: its number, the packet and its
downstream port. -/
structure Crossing where
  module : Interconnect
  arena : Arena
  entry : PacketPtr → ℕ
  ledger : Ledger ℕ
  outstanding : List (ℕ × PacketPtr × ℕ)
  released : List ℕ

inductive CrossingStep
  | request (port : ℕ) (p : PacketPtr) (now : UInt64) (sendReq : ℕ → PacketPtr → Bool)
  | tick (now : UInt64) (sendReq : ℕ → PacketPtr → Bool)
  | respond (k : ℕ) (p : PacketPtr) (now : UInt64)
  | outside (a : Arena)

namespace Crossing
variable (h : Host)

def start (m : Interconnect) (a : Arena) : Crossing := ⟨m, a, fun _ => 0, .empty, [], []⟩

def sentOn (p : PacketPtr) (calls : List PortCall) : List ℕ :=
  ((calls.filterMap (·.sent)).filter (·.2 = p)).map Prod.fst

def forward (s : Crossing) (r : ℕ × PacketPtr) : Crossing :=
  { s with
    ledger := s.ledger.enter (s.entry r.2)
    outstanding := s.outstanding ++ [(s.ledger.entries.length, r.2, r.1)] }

def absorb (sendReq : ℕ → PacketPtr → Bool) (e : Effect Interconnect) (s : Crossing) : Crossing :=
  (e.calls.filterMap (·.taken sendReq)).foldl forward { s with module := e.state, arena := e.arena }

def close (k id : ℕ) (p : PacketPtr) (e : Effect Interconnect) (s : Crossing) : Crossing :=
  { s with
    module := e.state
    arena := e.arena
    ledger := (sentOn p e.calls).foldl (fun l port => l.deliver id port) s.ledger
    outstanding := s.outstanding.eraseIdx k
    released := if p ∈ e.arena.pool.packetFreelist ∨ p ∈ e.arena.heap.deletedPackets then
      s.released ++ [id] else s.released }

def step (s : Crossing) : CrossingStep → Except MemoryFault Crossing
  | .request port p now sendReq => do
    let host := { h with now := now, sendReq := sendReq }
    let r ← s.module.handleUpstreamRequest host p port s.arena
    return { s with entry := update s.entry p port }.absorb sendReq r.2
  | .tick now sendReq => do
    let e ← s.module.tick { h with now := now, sendReq := sendReq } s.arena
    return s.absorb sendReq e
  | .respond k p now =>
    match s.outstanding[k]? with
    | none => .ok s
    | some (id, _, d) => do
      let r ← s.module.handleDownstreamResponse { h with now := now } p d s.arena
      return s.close k id p r.2
  | .outside a => .ok { s with arena := a }

def run (s : Crossing) (steps : List CrossingStep) : Except MemoryFault Crossing :=
  steps.foldlM (step h) s

/-- A response is a packet in use whose `original_req` is the request that it answers. -/
def Allows (s : Crossing) : CrossingStep → Prop
  | .respond k p _ => ∀ r ∈ s.outstanding[k]?, (s.arena.heap.packet p).originalReq = some r.2.1 ∧
      s.arena.Usable p
  | .request _ _ _ _ => True
  | .tick _ _ => True
  | .outside _ => True

/-- Every request that was sent on is outstanding, or its response was sent once, on the port
that it came by and without having been released. -/
structure Answered (s : Crossing) : Prop where
  returned : s.ledger.Returned
  once : s.ledger.Balanced (s.outstanding.map Prod.fst)
  kept : s.released = []

/-- A response is handled that the module does not send, or sends on another port than the one
that its request came by. -/
def Astray (s : Crossing) : CrossingStep → Prop
  | .respond k _ _ => ∃ id req d, s.outstanding[k]? = some (id, req, d) ∧
      ¬ (s.module.SendsBack h d ∧ s.ledger.entries[id]? = some d)
  | .request _ _ _ _ => False
  | .tick _ _ => False
  | .outside _ => False

variable {h} {s s' : Crossing}

theorem Answered.forward (hs : s.Answered) (r : ℕ × PacketPtr) : (s.forward r).Answered := by
  refine ⟨hs.returned.enter _, ?_, hs.kept⟩
  have honce := hs.once.enter (s.entry r.2)
  rw [Crossing.forward, List.map_append]
  exact honce

theorem Answered.absorb (hs : s.Answered) (sendReq : ℕ → PacketPtr → Bool)
    (e : Effect Interconnect) : (s.absorb sendReq e).Answered := by
  have hfold : ∀ (rs : List (ℕ × PacketPtr)) (t : Crossing), t.Answered →
      (rs.foldl Crossing.forward t).Answered := by
    intro rs
    induction rs with
    | nil => exact fun t ht => ht
    | cons r rs ih => exact fun t ht => ih _ (ht.forward r)
  exact hfold _ _ ⟨hs.returned, hs.once, hs.kept⟩

theorem respond_eq_ok {k : ℕ} {p : PacketPtr} {now : UInt64} (hallow : s.Allows (.respond k p now))
    (hstep : s.step h (.respond k p now) = .ok s') :
    (s.outstanding[k]? = none ∧ s' = s) ∨
      ∃ id req d, s.outstanding[k]? = some (id, req, d) ∧
        s'.outstanding = s.outstanding.eraseIdx k ∧
        ((s.module.SendsBack h d ∧ s'.ledger = s.ledger.deliver id d ∧ s'.released = s.released) ∨
          (¬ s.module.SendsBack h d ∧ s'.released = s.released ++ [id])) := by
  rw [step] at hstep
  split at hstep
  · next hnone => exact .inl ⟨hnone, (Except.ok.inj hstep).symm⟩
  · next id req d hsome =>
    obtain ⟨res, hres, rfl⟩ := bind_pure_eq_ok.mp hstep
    obtain ⟨horig, -, hfree, hdel⟩ := hallow _ hsome
    refine .inr ⟨id, req, d, hsome, rfl, ?_⟩
    rcases Interconnect.handleDownstreamResponse_eq_ok hres (by simp [horig]) with
      ⟨hback, harena, hcalls⟩ | ⟨hback, hgone, hcalls⟩
    · refine .inl ⟨hback, ?_, ?_⟩
      · simp [close, sentOn, hcalls, PortCall.sent]
      · simp [close, harena, hfree, hdel]
    · exact .inr ⟨hback, if_pos hgone.not_usable⟩

theorem Answered.step {c : CrossingStep} (hs : s.Answered) (hallow : s.Allows c)
    (hstep : s.step h c = .ok s') (hno : ¬ s.Astray h c) : s'.Answered := by
  cases c with
  | request port p now sendReq =>
    obtain ⟨r, hr, rfl⟩ := bind_pure_eq_ok.mp hstep
    have hentered : Answered { s with entry := update s.entry p port } :=
      ⟨hs.returned, hs.once, hs.kept⟩
    exact hentered.absorb sendReq r.2
  | tick now sendReq =>
    obtain ⟨e, he, rfl⟩ := bind_pure_eq_ok.mp hstep
    exact hs.absorb sendReq e
  | outside a =>
    obtain rfl := Except.ok.inj hstep
    exact ⟨hs.returned, hs.once, hs.kept⟩
  | respond k p now =>
    rcases respond_eq_ok hallow hstep with ⟨-, rfl⟩ | ⟨id, req, d, hk, hout, hcase⟩
    · exact hs
    · have hback : s.module.SendsBack h d ∧ s.ledger.entries[id]? = some d := by
        by_contra hback
        exact hno ⟨id, req, d, hk, hback⟩
      rcases hcase with ⟨-, hledger, hreleased⟩ | ⟨hnot, -⟩
      · have hadds := s.ledger.adds_deliver id d
        refine ⟨?_, ?_, hreleased.trans hs.kept⟩
        · rw [hledger]
          exact hadds.returned_iff.mpr ⟨hs.returned, hback.2⟩
        · rw [hledger, hout]
          exact hs.once.adds hadds (Ledger.perm_pick hk)
      · exact absurd hback.1 hnot

theorem not_answered_of_astray {c : CrossingStep} (hallow : s.Allows c)
    (hstep : s.step h c = .ok s') (hastray : s.Astray h c) : ¬ s'.Answered := by
  cases c with
  | request port p now sendReq => exact hastray.elim
  | tick now sendReq => exact hastray.elim
  | outside a => exact hastray.elim
  | respond k p now =>
    obtain ⟨id, req, d, hk, hno⟩ := hastray
    intro hans
    rcases respond_eq_ok hallow hstep with ⟨hnone, -⟩ | ⟨id', req', d', hk', -, hcase⟩
    · exact absurd (hnone.symm.trans hk) (by simp)
    · obtain ⟨rfl, hrest⟩ := Prod.mk.inj (Option.some.inj (hk.symm.trans hk'))
      obtain ⟨-, rfl⟩ := Prod.mk.inj hrest
      rcases hcase with ⟨hback, hledger, -⟩ | ⟨-, hreleased⟩
      · have hreturned := hans.returned
        rw [hledger] at hreturned
        exact hno ⟨hback, ((s.ledger.adds_deliver id d).returned_iff.mp hreturned).2⟩
      · have hkept := hans.kept
        rw [hreleased] at hkept
        exact absurd hkept (by simp)

/-- In a run each response is sent once, at the port that its request came by, exactly when only
routers handle responses, and only those whose downstream port has the index of that port. -/
theorem responses_returned_iff (h : Host) (m : Interconnect) (a : Arena) (steps : List CrossingStep)
    (hallow : Each (step h) (start m a) Allows steps) :
    Always (step h) (start m a) Answered steps ↔ Never (step h) (start m a) (Astray h) steps := by
  have hstart : (start m a).Answered := ⟨Ledger.returned_empty, Ledger.balanced_empty, rfl⟩
  refine always_iff_never (fun s : Crossing => s.Answered) (fun _ => True) _ Allows _ hallow hstart
    trivial (fun s hs => hs) (fun _ _ _ _ _ => trivial) ?_ ?_
  · intro s c s' hs ha hstep hno
    exact hs.step ha hstep hno
  · intro s c s' _ _ ha hstep hastray
    exact not_answered_of_astray ha hstep hastray

def twoByTwo : Host :=
  ⟨0, [UpstreamPort.new 0 [4] [] "in0", UpstreamPort.new 1 [4] [] "in1"],
    [DownstreamPort.new 0 [4] [] "out0", DownstreamPort.new 1 [4] [] "out1"], fun _ _ => true, 0, 0⟩

def roundTrip : Arena :=
  { Arena.empty with heap := { Heap.empty with
    packet := fun p => if p = 0 then { payload := some 0 }
      else if p = 1 then { payload := some 0, type := .resp, originalReq := some 0 } else {}
    nextPacket := 2
    nextPayload := 1 } }

def requestFrom (port : ℕ) : List CrossingStep := [.request port 0 0 fun _ _ => true, .respond 0 1 0]

theorem sent_requestFrom (port : ℕ) : ∃ s : Crossing,
    (start (.router ⟨⟩) roundTrip).run twoByTwo [.request port 0 0 fun _ _ => true] = .ok s ∧
      s.module = .router ⟨⟩ ∧ s.arena = roundTrip ∧ s.outstanding = [(0, 0, 0)] ∧
      s.ledger.entries = [port] := ⟨_, rfl, rfl, rfl, rfl, rfl⟩

theorem allows_requestFrom (port : ℕ) :
    Each (step twoByTwo) (start (.router ⟨⟩) roundTrip) Allows (requestFrom port) := by
  intro pre c s hpre hrun
  rcases concat_prefix_pair hpre with ⟨-, rfl⟩ | ⟨rfl, rfl⟩
  · trivial
  · obtain ⟨t, ht, -, harena, hout, -⟩ := sent_requestFrom port
    obtain rfl := Except.ok.inj (hrun.symm.trans ht)
    intro r hr
    rw [hout] at hr
    obtain rfl := Option.some.inj hr
    rw [harena]
    exact ⟨rfl, by decide, List.not_mem_nil, Finset.notMem_empty 1⟩

theorem responses_returned_iff_demo :
    Always (step twoByTwo) (start (.router ⟨⟩) roundTrip) Answered (requestFrom 0) := by
  refine (responses_returned_iff twoByTwo _ roundTrip _ (allows_requestFrom 0)).mpr ?_
  intro pre c s s' hpre hrun hstep hastray
  rcases concat_prefix_pair hpre with ⟨-, rfl⟩ | ⟨rfl, rfl⟩
  · exact hastray
  · obtain ⟨t, ht, hmodule, -, hout, hentries⟩ := sent_requestFrom 0
    obtain rfl := Except.ok.inj (hrun.symm.trans ht)
    obtain ⟨id, req, d, hk, hno⟩ := hastray
    rw [hout] at hk
    cases hk
    rw [hmodule, hentries] at hno
    exact hno ⟨Nat.zero_lt_two, rfl⟩

/-- The response to a request that a router took from port 1 is sent on port 0. -/
theorem response_sent_elsewhere :
    ¬ Always (step twoByTwo) (start (.router ⟨⟩) roundTrip) Answered (requestFrom 1) := by
  intro h
  have helsewhere : ∃ s, (start (.router ⟨⟩) roundTrip).run twoByTwo (requestFrom 1) = .ok s ∧
      s.ledger.sent = [(0, 0)] ∧ s.ledger.scheduled = [] ∧ s.ledger.entries = [1] :=
    exists_ok_of_map rfl
  obtain ⟨s, hrun, hsent, hscheduled, hentries⟩ := helsewhere
  have hreturned := (h (requestFrom 1) s (List.prefix_refl _) hrun).returned (0, 0)
    (by simp [Ledger.answers, hsent, hscheduled])
  simp [hentries] at hreturned

end Crossing
end GemSc
