import GemSc.Lib.Ledger
import GemSc.Modules.Inversion

/-! Runs of one `CacheSim`: where the response to each accepted request goes. Of the port that
a miss came by nothing is kept, so the return path guesses it from the downstream port. -/

namespace GemSc
open ExceptFold

/-- A cache with the ledger of the requests that it accepted. `waiting` numbers those in
`reqBuffer`, and `outstanding` those sent on, with the downstream ports they went to. -/
structure CacheRun where
  cache : CacheSim
  arena : Arena
  ledger : Ledger ℕ
  waiting : List ℕ
  outstanding : List (ℕ × ℕ)

inductive CacheStep
  | request (port : ℕ) (p : PacketPtr) (now : UInt64)
  | forward (now : UInt64) (sendReq : ℕ → PacketPtr → Bool)
  | respond (k : ℕ) (p : PacketPtr) (now : UInt64)
  | fire (k : ℕ)
  | outside (a : Arena)

namespace CacheRun
variable (h : Host)

def start (a : Arena) : CacheRun := ⟨{}, a, .empty, [], []⟩

def responses (e : Effect CacheSim) : List ℕ :=
  e.scheduled.filterMap fun s => match s.1 with
    | .sendResp port _ => some port
    | .tryForward => none

def takers (sendReq : ℕ → PacketPtr → Bool) (e : Effect CacheSim) : List ℕ :=
  (e.calls.filterMap (·.taken sendReq)).map Prod.fst

def answer (id : ℕ) (e : Effect CacheSim) (l : Ledger ℕ) : Ledger ℕ :=
  (responses e).foldl (fun l port => l.schedule id port) l

/-- A request was accepted from `port`. Unless a response is scheduled it waits. -/
def accept (port : ℕ) (e : Effect CacheSim) (s : CacheRun) : CacheRun :=
  let id := s.ledger.entries.length
  { s with
    cache := e.state
    arena := e.arena
    ledger := answer id e (s.ledger.enter port)
    waiting := if responses e = [] then s.waiting ++ [id] else s.waiting }

def step (s : CacheRun) : CacheStep → Except MemoryFault CacheRun
  | .request port p now => do
    let r ← s.cache.handleUpstreamRequest { h with now := now } p port s.arena
    return if r.1 then s.accept port r.2 else { s with cache := r.2.state, arena := r.2.arena }
  | .forward now sendReq => do
    let e ← s.cache.tryForward { h with now := now, sendReq := sendReq } s.arena
    let ports := takers sendReq e
    return { s with
      cache := e.state
      arena := e.arena
      waiting := s.waiting.drop ports.length
      outstanding := s.outstanding ++ s.waiting.zip ports }
  | .respond k p now =>
    match s.outstanding[k]? with
    | none => .ok s
    | some (id, port) => do
      let r ← s.cache.handleDownstreamResponse { h with now := now } p port s.arena
      return { s with
        cache := r.2.state
        arena := r.2.arena
        ledger := answer id r.2 s.ledger
        outstanding := s.outstanding.eraseIdx k }
  | .fire k => .ok { s with ledger := s.ledger.send k }
  | .outside a => .ok { s with arena := a }

def run (s : CacheRun) (steps : List CacheStep) : Except MemoryFault CacheRun :=
  steps.foldlM (step h) s

/-- Every accepted request is open or answered once, by the port it came from, and what waits
can be sent on. -/
structure Answered (s : CacheRun) : Prop where
  returned : s.ledger.Returned
  once : s.ledger.Balanced (s.waiting ++ s.outstanding.map Prod.fst)
  forwardable : s.waiting ≠ [] → h.downstreamPorts ≠ []

/-- A miss is accepted that cannot be sent on, or one is answered whose downstream port does not
lead back to the port that it came from. -/
def Astray (s : CacheRun) : CacheStep → Prop
  | .request _ p _ => h.downstreamPorts = [] ∧ s.cache.reqBuffer.length < CacheSim.maxBuffer ∧
      ∃ addr, s.arena.heap.address p = .ok addr ∧ CacheSim.isHit addr = false
  | .respond k _ _ => ∃ id port, s.outstanding[k]? = some (id, port) ∧
      s.ledger.entries[id]? ≠ some (port % h.upstreamPorts.length)
  | .forward _ _ => False
  | .fire _ => False
  | .outside _ => False

structure Coherent (s : CacheRun) : Prop where
  numbered : s.waiting.length = s.cache.reqBuffer.length
  once : s.ledger.Balanced (s.waiting ++ s.outstanding.map Prod.fst)

variable {h} {s s' : CacheRun}

theorem coherent_start (a : Arena) : (start a).Coherent := ⟨rfl, Ledger.balanced_empty⟩

theorem request_eq_ok {port : ℕ} {p : PacketPtr} {now : UInt64}
    (hstep : s.step h (.request port p now) = .ok s') :
    (CacheSim.maxBuffer ≤ s.cache.reqBuffer.length ∧ ∃ a, s' = { s with arena := a }) ∨
    ((∃ addr, s.arena.heap.address p = .ok addr ∧ CacheSim.isHit addr = true) ∧
      ∃ a, s' = { s with
        arena := a
        ledger := (s.ledger.enter port).schedule s.ledger.entries.length port }) ∨
    (s.cache.reqBuffer.length < CacheSim.maxBuffer ∧
      (∃ addr, s.arena.heap.address p = .ok addr ∧ CacheSim.isHit addr = false) ∧
      s' = { s with
        cache := ⟨s.cache.reqBuffer ++ [p]⟩
        ledger := s.ledger.enter port
        waiting := s.waiting ++ [s.ledger.entries.length] }) := by
  obtain ⟨⟨ok, e⟩, he, rfl⟩ := bind_pure_eq_ok.mp hstep
  rcases CacheSim.handleUpstreamRequest_eq_ok he with
    ⟨hfull, rfl, -, heq⟩ | ⟨hroom, rfl, addr, haddr, ⟨hhit, r, -, -, heq⟩ | ⟨hmiss, heq⟩⟩
  · rw [heq]
    exact .inl ⟨hfull, _, rfl⟩
  · rw [heq]
    exact .inr (.inl ⟨⟨addr, haddr, hhit⟩, _, rfl⟩)
  · rw [heq]
    exact .inr (.inr ⟨hroom, ⟨addr, haddr, hmiss⟩, rfl⟩)

theorem forward_eq_ok {now : UInt64} {sendReq : ℕ → PacketPtr → Bool}
    (hstep : s.step h (.forward now sendReq) = .ok s') :
    s' = s ∨ ∃ p rest port, s.cache.reqBuffer = p :: rest ∧
      s' = { s with
        cache := ⟨rest⟩
        waiting := s.waiting.drop 1
        outstanding := s.outstanding ++ s.waiting.zip [port] } := by
  obtain ⟨e, he, rfl⟩ := bind_pure_eq_ok.mp hstep
  obtain ⟨harena, -, ⟨hstate, hcalls⟩ | ⟨x, rest, port, hbuf, -, hcalls, hstate⟩⟩ :=
    CacheSim.tryForward_eq_ok he
  · left
    simp [takers, hcalls, hstate, harena]
  · have htakers : takers sendReq e = if sendReq port x then [port] else [] := by
      rw [takers, hcalls]
      by_cases hok : sendReq port x <;> simp [PortCall.taken, hok]
    by_cases hok : sendReq port x
    · rw [if_pos hok] at htakers hstate
      refine .inr ⟨x, rest, port, hbuf, ?_⟩
      simp [htakers, hstate, harena]
    · rw [if_neg hok] at htakers hstate
      left
      simp [htakers, hstate, harena]

theorem respond_eq_ok {k : ℕ} {p : PacketPtr} {now : UInt64}
    (hstep : s.step h (.respond k p now) = .ok s') :
    (s.outstanding[k]? = none ∧ s' = s) ∨
      ∃ id port a, s.outstanding[k]? = some (id, port) ∧ s' = { s with
        arena := a
        ledger := s.ledger.schedule id (port % h.upstreamPorts.length)
        outstanding := s.outstanding.eraseIdx k } := by
  rw [step] at hstep
  split at hstep
  · next hnone => exact .inl ⟨hnone, (Except.ok.inj hstep).symm⟩
  · next id port hsome =>
    obtain ⟨⟨ok, e⟩, he, rfl⟩ := bind_pure_eq_ok.mp hstep
    obtain ⟨orig, r, -, -, -, heq⟩ := CacheSim.handleDownstreamResponse_eq_ok he
    rw [heq]
    exact .inr ⟨id, port, _, hsome, rfl⟩

theorem Coherent.forward (hs : s.Coherent) {now : UInt64} {sendReq : ℕ → PacketPtr → Bool}
    (hstep : s.step h (.forward now sendReq) = .ok s') :
    s'.Coherent ∧ s'.ledger = s.ledger ∧ (s'.waiting ≠ [] → s.waiting ≠ []) := by
  rcases forward_eq_ok hstep with rfl | ⟨p, rest, port, hbuf, rfl⟩
  · exact ⟨hs, rfl, id⟩
  · have hlen := hs.numbered
    rw [hbuf] at hlen
    obtain ⟨n, ns, hwait⟩ : ∃ n ns, s.waiting = n :: ns := List.exists_cons_of_ne_nil (by
      rintro hnil
      simp [hnil] at hlen)
    rw [hwait] at hlen
    refine ⟨⟨?_, ?_⟩, rfl, fun _ => by simp [hwait]⟩
    · simpa [hwait] using hlen
    · refine hs.once.perm ?_
      simp only [hwait, List.drop_succ_cons, List.drop_zero, List.zip_cons_cons, List.map_append,
        List.zip_nil_right, List.map_cons, List.map_nil, List.cons_append]
      rw [← List.append_assoc]
      exact List.perm_append_singleton n _

theorem Coherent.respond (hs : s.Coherent) {k : ℕ} {p : PacketPtr} {now : UInt64}
    (hstep : s.step h (.respond k p now) = .ok s') : s'.Coherent := by
  rcases respond_eq_ok hstep with ⟨-, rfl⟩ | ⟨id, port, a, hk, rfl⟩
  · exact hs
  · refine ⟨hs.numbered, hs.once.adds (Ledger.adds_schedule ..) ?_⟩
    exact ((Ledger.perm_pick hk).append_left s.waiting).trans List.perm_middle

theorem Coherent.request (hs : s.Coherent) {port : ℕ} {p : PacketPtr} {now : UInt64}
    (hstep : s.step h (.request port p now) = .ok s') : s'.Coherent := by
  rcases request_eq_ok hstep with ⟨-, a, rfl⟩ | ⟨-, a, rfl⟩ | ⟨-, -, rfl⟩
  · exact ⟨hs.numbered, hs.once⟩
  · refine ⟨hs.numbered, (hs.once.enter port).adds (Ledger.adds_schedule ..) ?_⟩
    exact List.perm_append_singleton _ _
  · refine ⟨by simp [hs.numbered], (hs.once.enter port).perm ?_⟩
    rw [List.append_assoc, List.append_assoc]
    exact List.perm_append_comm.append_left s.waiting

theorem Coherent.step {a : CacheStep} (hs : s.Coherent) (hstep : s.step h a = .ok s') :
    s'.Coherent := by
  cases a with
  | request port p now => exact hs.request hstep
  | forward now sendReq => exact (hs.forward hstep).1
  | respond k p now => exact hs.respond hstep
  | fire k =>
    obtain rfl := Except.ok.inj hstep
    exact ⟨hs.numbered, hs.once.send k⟩
  | outside a =>
    obtain rfl := Except.ok.inj hstep
    exact ⟨hs.numbered, hs.once⟩

theorem Coherent.answered (hs : s.Coherent) (hreturned : s.ledger.Returned)
    (hforward : s.waiting ≠ [] → h.downstreamPorts ≠ []) : s.Answered h :=
  ⟨hreturned, hs.once, hforward⟩

theorem Answered.step {a : CacheStep} (hs : s.Coherent) (hans : s.Answered h)
    (hstep : s.step h a = .ok s') (hno : ¬ s.Astray h a) : s'.Answered h := by
  have hs' := hs.step hstep
  cases a with
  | request port p now =>
    rcases request_eq_ok hstep with ⟨-, a, rfl⟩ | ⟨-, a, rfl⟩ | ⟨hroom, hmiss, rfl⟩
    · exact hs'.answered hans.returned hans.forwardable
    · refine hs'.answered ((Ledger.adds_schedule ..).returned_iff.mpr ⟨hans.returned.enter port, ?_⟩)
        hans.forwardable
      simp [Ledger.enter]
    · refine hs'.answered (hans.returned.enter port) fun _ hports => hno ?_
      exact ⟨hports, hroom, hmiss⟩
  | forward now sendReq =>
    obtain ⟨-, hledger, hwait⟩ := hs.forward hstep
    exact hs'.answered (hledger ▸ hans.returned) fun hne => hans.forwardable (hwait hne)
  | respond k p now =>
    rcases respond_eq_ok hstep with ⟨-, rfl⟩ | ⟨id, port, a, hk, rfl⟩
    · exact hans
    · refine hs'.answered ((Ledger.adds_schedule ..).returned_iff.mpr ⟨hans.returned, ?_⟩) hans.forwardable
      by_contra hne
      exact hno ⟨id, port, hk, hne⟩
  | fire k =>
    obtain rfl := Except.ok.inj hstep
    exact hs'.answered (hans.returned.send k) hans.forwardable
  | outside a =>
    obtain rfl := Except.ok.inj hstep
    exact hs'.answered hans.returned hans.forwardable

theorem not_answered_of_astray {a : CacheStep} (hstep : s.step h a = .ok s')
    (hastray : s.Astray h a) : ¬ s'.Answered h := by
  cases a with
  | forward now sendReq => exact hastray.elim
  | fire k => exact hastray.elim
  | outside a => exact hastray.elim
  | request port p now =>
    obtain ⟨hports, hroom, addr, haddr, hmiss⟩ := hastray
    rcases request_eq_ok hstep with ⟨hfull, -⟩ | ⟨⟨addr', haddr', hhit⟩, -⟩ | ⟨-, -, rfl⟩
    · exact absurd hroom hfull.not_gt
    · obtain rfl := Except.ok.inj (haddr.symm.trans haddr')
      exact absurd (hhit.symm.trans hmiss) (by simp)
    · exact fun hans => hans.forwardable (by simp) hports
  | respond k p now =>
    obtain ⟨id, port, hk, hne⟩ := hastray
    rcases respond_eq_ok hstep with ⟨hnone, -⟩ | ⟨id', port', a, hk', rfl⟩
    · exact absurd (hnone.symm.trans hk) (by simp)
    · obtain ⟨rfl, rfl⟩ := Prod.mk.inj (Option.some.inj (hk.symm.trans hk'))
      exact fun hans => hne ((Ledger.adds_schedule ..).returned_iff.mp hans.returned).2

/-- In a run each accepted request gets its one response at its own port exactly when no miss is
answered by a downstream port that does not lead back to that port, and none is accepted without
downstream ports. -/
theorem requests_answered_iff (h : Host) (a : Arena) (steps : List CacheStep) :
    Always (step h) (start a) (Answered h) steps ↔ Never (step h) (start a) (Astray h) steps := by
  have hstart : (start a).Answered h :=
    (coherent_start a).answered Ledger.returned_empty (absurd rfl)
  refine always_iff_never (fun s : CacheRun => s.Coherent ∧ s.Answered h) (fun _ => True) _
    (fun _ _ => True) _ (each_true _ _) ⟨coherent_start a, hstart⟩ trivial
    (fun s hs => hs.2) (fun _ _ _ _ _ => trivial) ?_ ?_
  · intro s c s' hs _ hstep hno
    exact ⟨hs.1.step hstep, hs.2.step hs.1 hstep hno⟩
  · intro s c s' _ _ _ hstep hastray
    exact not_answered_of_astray hstep hastray

def twoPorts : Host :=
  ⟨0, [UpstreamPort.new 0 [4] [] "in0", UpstreamPort.new 1 [4] [] "in1"],
    [DownstreamPort.new 0 [4] [] "out"], fun _ _ => true, 0, 0⟩

def oneMiss : Arena :=
  { Arena.empty with heap := { Heap.empty with
    packet := fun p => if p = 0 then { payload := some 0 }
      else if p = 1 then { payload := some 0, type := .resp, originalReq := some 0 } else {}
    payload := fun _ => ⟨4, 4⟩
    nextPacket := 2
    nextPayload := 1 } }

def missFromPortOne : List CacheStep :=
  [.request 1 0 0, .forward 0 fun _ _ => true, .respond 0 1 0]

/-- A miss that came by port 1 is answered at port 0. -/
theorem miss_answered_elsewhere :
    ¬ Always (step twoPorts) (start oneMiss) (Answered twoPorts) missFromPortOne := by
  intro h
  have helsewhere : ∃ s, (start oneMiss).run twoPorts missFromPortOne = .ok s ∧
      s.ledger.scheduled = [(0, 0)] ∧ s.ledger.entries = [1] := exists_ok_of_map rfl
  obtain ⟨s, hrun, hscheduled, hentries⟩ := helsewhere
  have hreturned := (h missFromPortOne s (List.prefix_refl _) hrun).returned (0, 0)
    (by simp [Ledger.answers, hscheduled])
  simp [hentries] at hreturned

end CacheRun
end GemSc
