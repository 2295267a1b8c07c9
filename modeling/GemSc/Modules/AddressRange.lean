import GemSc.Modules.Outstanding

/-! Runs of one `TrafficGenerator` in sequential mode: the addresses that it generates, and those
of the requests that its port took, against its address range. -/

namespace GemSc
open ExceptFold

def PortCall.refused (sendReq : ℕ → PacketPtr → Bool) : PortCall → Bool
  | .sendReq port p => !sendReq port p
  | .sendResp _ _ => false
  | .upstreamTick _ => false
  | .downstreamTick _ => false

namespace TrafficGenerator

/-- A new generator. `cur_addr` is declared before `start_addr`, so that the constructor copies
`start_addr` before it is set: the value is indeterminate, as that of `trace_pos`. -/
def fresh (curAddr : UInt64) (tracePos : ℕ) : TrafficGenerator := { curAddr, tracePos }

def Issues (host : Host) (g : TrafficGenerator) : Prop :=
  host.downstreamPorts ≠ [] ∧ g.completed < g.numRequests ∧ host.rand % 10 = 0

instance (host : Host) (g : TrafficGenerator) : Decidable (g.Issues host) :=
  inferInstanceAs (Decidable (_ ∧ _ ∧ _))

def issued (host : Host) (g : TrafficGenerator) : Option UInt64 :=
  if g.Issues host then (g.nextAddress host).1 else none

def advance (g : TrafficGenerator) : TrafficGenerator :=
  { g with curAddr := if g.endAddr ≤ g.curAddr + 4 then g.startAddr else g.curAddr + 4 }

end TrafficGenerator

/-- A generator with the addresses that it generated, those of the requests that its port took, as
they were when they were sent, and the number of requests that were refused. -/
structure GenRun where
  gen : TrafficGenerator
  arena : Arena
  generated : List UInt64
  accepted : List (Option UInt64)
  refused : ℕ

inductive GenStep
  | tick (host : Host)
  | response (p : PacketPtr)
  | outside (a : Arena)

namespace GenRun

def start (c : UInt64) (tracePos : ℕ) (a : Arena) : GenRun := ⟨.fresh c tracePos, a, [], [], 0⟩

def step (s : GenRun) : GenStep → Except MemoryFault GenRun
  | .tick host => do
    let e ← s.gen.tick host s.arena
    return {
      gen := e.state
      arena := e.arena
      generated := s.generated ++ (s.gen.issued host).toList
      accepted := s.accepted ++ (e.requests host).map (·.1)
      refused := s.refused + e.calls.countP (·.refused host.sendReq) }
  | .response p => do
    let r ← s.gen.handleDownstreamResponse p s.arena
    return { s with gen := r.2.state, arena := r.2.arena }
  | .outside a => .ok { s with arena := a }

def InRange (addr : UInt64) : Prop := 0x1000 ≤ addr.toNat ∧ addr.toNat < 0x2000

def rangeAddr (i : ℕ) : UInt64 := 0x1000 + 4 * UInt64.ofNat (i % 1024)

/-- The generated addresses are in the range, and the port took them in order without a gap. -/
structure Gapless (s : GenRun) : Prop where
  range : ∀ addr ∈ s.generated, InRange addr
  order : s.accepted = (List.range s.accepted.length).map fun i => some (rangeAddr i)

def offset (c : UInt64) : ℕ := (c.toNat - 0x1000) / 4

/-- A request is sent although `cur_addr` started out of the range, or it is taken when the number
of refused ones, with the offset of where `cur_addr` started, is no multiple of the size of the
range, or when `cur_addr` started between two words and did not wrap yet. -/
def Strays (c : UInt64) (s : GenRun) : GenStep → Prop
  | .tick host => s.gen.Issues host ∧ (¬ InRange c ∨
      host.sendReq 0 s.arena.takePacket.1 = true ∧ ((offset c + s.refused) % 1024 ≠ 0 ∨
        (c.toNat % 4 ≠ 0 ∧ offset c + s.accepted.length + s.refused < 1024)))
  | .response _ => False
  | .outside _ => False

def sentAddr (c : UInt64) (i : ℕ) : ℕ :=
  0x1000 + 4 * (i % 1024) + if i < 1024 then c.toNat % 4 else 0

theorem toNat_rangeAddr (i : ℕ) : (rangeAddr i).toNat = 0x1000 + 4 * (i % 1024) := by
  have hlt : i % 1024 < 1024 := Nat.mod_lt _ (by norm_num)
  have hofNat : (UInt64.ofNat (i % 1024)).toNat = i % 1024 :=
    UInt64.toNat_ofNat_of_lt' (hlt.trans (by norm_num))
  unfold rangeAddr
  rw [UInt64.toNat_add, UInt64.toNat_mul, hofNat]
  change (0x1000 + 4 * (i % 1024) % 2 ^ 64) % 2 ^ 64 = 0x1000 + 4 * (i % 1024)
  omega

theorem sentAddr_offset {c : UInt64} (hc : InRange c) : sentAddr c (offset c) = c.toNat := by
  obtain ⟨hlow, hhigh⟩ := hc
  unfold sentAddr offset
  split <;> omega

theorem inRange_of_sentAddr {c addr : UInt64} {i : ℕ} (h : addr.toNat = sentAddr c i) :
    InRange addr := by
  unfold InRange
  rw [h]
  unfold sentAddr
  split <;> omega

theorem sentAddr_succ (c : UInt64) (i : ℕ) :
    sentAddr c (i + 1) = if 0x2000 ≤ sentAddr c i + 4 then 0x1000 else sentAddr c i + 4 := by
  have hslack : c.toNat % 4 < 4 := Nat.mod_lt _ (by norm_num)
  unfold sentAddr
  rcases Nat.lt_or_ge i 1024 with hi | hi
  · rw [if_pos hi]
    split <;> split <;> omega
  · rw [if_neg hi.not_gt, if_neg (hi.trans (Nat.le_succ i)).not_gt]
    split <;> omega

theorem sentAddr_eq_iff (c : UInt64) (i n : ℕ) : sentAddr c i = (rangeAddr n).toNat ↔
    i % 1024 = n % 1024 ∧ ¬ (c.toNat % 4 ≠ 0 ∧ i < 1024) := by
  rw [toNat_rangeAddr]
  unfold sentAddr
  split <;> omega

end GenRun

namespace TrafficGenerator
variable {host : Host} {g : TrafficGenerator} {a : Arena} {p : PacketPtr}
  {e : Effect TrafficGenerator}

theorem toNat_advance {c : UInt64} {i : ℕ} (hstart : g.startAddr = 0x1000)
    (hend : g.endAddr = 0x2000) (hcur : g.curAddr.toNat = GenRun.sentAddr c i) :
    g.advance.curAddr.toNat = GenRun.sentAddr c (i + 1) := by
  have hnext : (g.curAddr + 4).toNat = g.curAddr.toNat + 4 := by
    have hlt := (GenRun.inRange_of_sentAddr hcur).2
    rw [UInt64.toNat_add]
    change (g.curAddr.toNat + 4) % 2 ^ 64 = _
    omega
  have hwrap : g.endAddr ≤ g.curAddr + 4 ↔ 0x2000 ≤ GenRun.sentAddr c i + 4 := by
    rw [UInt64.le_iff_toNat_le, hnext, hend, hcur]
    rfl
  unfold advance
  rw [GenRun.sentAddr_succ]
  by_cases h : g.endAddr ≤ g.curAddr + 4
  · rw [if_pos (hwrap.mp h)]
    simp only [if_pos h, hstart]
    rfl
  · rw [if_neg fun hle => h (hwrap.mpr hle)]
    simp only [if_neg h, hnext, hcur]

theorem tick_issues (hmode : g.mode = .sequential) (h : g.tick host a = .ok e) :
    (¬ g.Issues host ∧ e.state = g ∧ e.calls = []) ∨
      (g.Issues host ∧ e.state = g.advance ∧ e.calls = [.sendReq 0 a.takePacket.1] ∧
        (host.sendReq 0 a.takePacket.1 = true →
          e.arena.heap.carried a.takePacket.1 = some g.curAddr)) := by
  have hnext : g.nextAddress host = (some g.curAddr, g.advance) := by
    unfold nextAddress advance
    rw [hmode]
  rcases tick_eq_ok h with ⟨hno, rfl⟩ | ⟨hissues, ⟨hnone, -⟩ | ⟨addr, b, haddr, hacq, heq, hsent⟩⟩
  · exact .inl ⟨hno, rfl, rfl⟩
  · rw [hnext] at hnone
    exact absurd hnone (Option.some_ne_none _)
  · rw [hnext] at haddr heq
    obtain rfl := Option.some.inj haddr
    refine .inr ⟨hissues, congrArg Effect.state heq, congrArg Effect.calls heq, fun hok => ?_⟩
    rcases hsent with ⟨-, harena⟩ | ⟨hno, -⟩
    · rw [harena]
      exact hacq.carried _ rfl
    · exact absurd hok (Bool.eq_false_iff.mp hno)

theorem tick_record (hmode : g.mode = .sequential) (h : g.tick host a = .ok e) :
    (¬ g.Issues host ∧ e.state = g ∧ g.issued host = none ∧ e.requests host = [] ∧
      e.calls.countP (·.refused host.sendReq) = 0) ∨
    (g.Issues host ∧ e.state = g.advance ∧ g.issued host = some g.curAddr ∧
      ((host.sendReq 0 a.takePacket.1 = true ∧
          (e.requests host).map (·.1) = [some g.curAddr] ∧
          e.calls.countP (·.refused host.sendReq) = 0) ∨
        (host.sendReq 0 a.takePacket.1 = false ∧ (e.requests host).map (·.1) = [] ∧
          e.calls.countP (·.refused host.sendReq) = 1))) := by
  rcases tick_issues hmode h with ⟨hno, hstate, hcalls⟩ | ⟨hissues, hstate, hcalls, hcarried⟩
  · refine .inl ⟨hno, hstate, if_neg hno, ?_, ?_⟩
    · unfold Effect.requests
      rw [hcalls]
      rfl
    · rw [hcalls]
      rfl
  · have hissued : g.issued host = some g.curAddr := by
      unfold issued
      rw [if_pos hissues]
      unfold nextAddress
      rw [hmode]
    refine .inr ⟨hissues, hstate, hissued, ?_⟩
    unfold Effect.requests
    rw [hcalls]
    cases hok : host.sendReq 0 a.takePacket.1 with
    | true =>
      left
      simp [PortCall.taken, PortCall.refused, hok, hcarried hok]
    | false =>
      right
      simp [PortCall.taken, PortCall.refused, hok]

end TrafficGenerator

namespace GenRun
variable {c : UInt64} {tracePos : ℕ} {a : Arena} {s s' : GenRun}

structure Counts (c : UInt64) (s : GenRun) : Prop where
  mode : s.gen.mode = .sequential
  startAddr : s.gen.startAddr = 0x1000
  endAddr : s.gen.endAddr = 0x2000
  inside : InRange c → (∀ addr ∈ s.generated, InRange addr) ∧
    s.gen.curAddr.toNat = sentAddr c (offset c + s.accepted.length + s.refused)
  outside : ¬ InRange c → c ∈ s.generated ∨ (s.gen.curAddr = c ∧ s.generated = [])

theorem counts_start : Counts c (start c tracePos a) where
  mode := rfl
  startAddr := rfl
  endAddr := rfl
  inside hc := by
    refine ⟨fun _ h => absurd h List.not_mem_nil, ?_⟩
    have hzero (n : ℕ) :
        n + (start c tracePos a).accepted.length + (start c tracePos a).refused = n := rfl
    rw [hzero, sentAddr_offset hc]
    rfl
  outside _ := .inr ⟨rfl, rfl⟩

theorem gapless_start : (start c tracePos a).Gapless :=
  ⟨fun _ h => absurd h List.not_mem_nil, rfl⟩

theorem tick_run {host : Host} (hmode : s.gen.mode = .sequential)
    (hstep : s.step (.tick host) = .ok s') :
    (¬ s.gen.Issues host ∧ s'.gen = s.gen ∧ s'.generated = s.generated ∧
      s'.accepted = s.accepted ∧ s'.refused = s.refused) ∨
    (s.gen.Issues host ∧ s'.gen = s.gen.advance ∧ s'.generated = s.generated ++ [s.gen.curAddr] ∧
      ((host.sendReq 0 s.arena.takePacket.1 = true ∧
          s'.accepted = s.accepted ++ [some s.gen.curAddr] ∧ s'.refused = s.refused) ∨
        (host.sendReq 0 s.arena.takePacket.1 = false ∧ s'.accepted = s.accepted ∧
          s'.refused = s.refused + 1))) := by
  obtain ⟨e, hcall, rfl⟩ := bind_pure_eq_ok.mp hstep
  simp only
  rcases TrafficGenerator.tick_record hmode hcall with
    ⟨hno, hstate, hissued, hrequests, hrefused⟩ |
      ⟨hissues, hstate, hissued, ⟨hok, hrequests, hrefused⟩ | ⟨hok, hrequests, hrefused⟩⟩
  · left
    rw [hissued, hrequests, hrefused]
    simp [hno, hstate]
  · right
    rw [hissued, hrequests, hrefused]
    simp [hissues, hstate, hok]
  · right
    rw [hissued, hrequests, hrefused]
    simp [hissues, hstate, hok]

structure Agrees (s s' : GenRun) : Prop where
  mode : s'.gen.mode = s.gen.mode
  startAddr : s'.gen.startAddr = s.gen.startAddr
  endAddr : s'.gen.endAddr = s.gen.endAddr
  curAddr : s'.gen.curAddr = s.gen.curAddr
  generated : s'.generated = s.generated
  accepted : s'.accepted = s.accepted
  refused : s'.refused = s.refused

theorem agrees_response {p : PacketPtr} (hstep : s.step (.response p) = .ok s') : Agrees s s' := by
  obtain ⟨⟨ok, e⟩, hcall, rfl⟩ := bind_pure_eq_ok.mp hstep
  obtain ⟨resp, hget, hrest⟩ := bind_eq_ok.mp hcall
  obtain ⟨b, -, hend⟩ := bind_eq_ok.mp hrest
  split_ifs at hend with hresp
  · obtain ⟨-, rfl⟩ := Prod.mk.inj (Except.ok.inj hend)
    exact ⟨rfl, rfl, rfl, rfl, rfl, rfl, rfl⟩
  · obtain ⟨-, rfl⟩ := Prod.mk.inj (Except.ok.inj hend)
    exact ⟨rfl, rfl, rfl, rfl, rfl, rfl, rfl⟩

theorem Agrees.counts (h : Agrees s s') (hs : s.Counts c) : s'.Counts c := by
  obtain ⟨hmode, hstart, hend, hcur, hgenerated, haccepted, hrefused⟩ := h
  refine ⟨hmode.trans hs.mode, hstart.trans hs.startAddr, hend.trans hs.endAddr, ?_, ?_⟩
  · rw [hgenerated, hcur, haccepted, hrefused]
    exact hs.inside
  · rw [hgenerated, hcur]
    exact hs.outside

theorem Agrees.gapless (h : Agrees s s') (hs : s.Gapless) : s'.Gapless := by
  refine ⟨?_, ?_⟩
  · rw [h.generated]
    exact hs.range
  · rw [h.accepted]
    exact hs.order

theorem Counts.tick {host : Host} (h : s.Counts c) (hstep : s.step (.tick host) = .ok s') :
    s'.Counts c := by
  rcases tick_run h.mode hstep with ⟨-, hgen, hgenerated, haccepted, hrefused⟩ |
    ⟨-, hgen, hgenerated, hsent⟩
  · have hagrees : Agrees s s' := by
      refine ⟨?_, ?_, ?_, ?_, hgenerated, haccepted, hrefused⟩ <;> rw [hgen]
    exact hagrees.counts h
  · have hlength : s'.accepted.length + s'.refused = s.accepted.length + s.refused + 1 := by
      rcases hsent with ⟨-, haccepted, hrefused⟩ | ⟨-, haccepted, hrefused⟩
      · rw [haccepted, hrefused, List.length_append, List.length_singleton, Nat.add_right_comm]
      · rw [haccepted, hrefused, ← Nat.add_assoc]
    refine ⟨?_, ?_, ?_, fun hc => ?_, fun hc => .inl ?_⟩
    · rw [hgen]
      exact h.mode
    · rw [hgen]
      exact h.startAddr
    · rw [hgen]
      exact h.endAddr
    · obtain ⟨hrange, hcur⟩ := h.inside hc
      refine ⟨?_, ?_⟩
      · rw [hgenerated, List.forall_mem_append, List.forall_mem_singleton]
        exact ⟨hrange, inRange_of_sentAddr hcur⟩
      · rw [hgen, Nat.add_assoc, hlength, ← Nat.add_assoc, ← Nat.add_assoc]
        exact TrafficGenerator.toNat_advance h.startAddr h.endAddr hcur
    · rw [hgenerated]
      rcases h.outside hc with hmem | ⟨hcur, -⟩
      · exact List.mem_append_left _ hmem
      · rw [hcur]
        exact List.mem_append_right _ (List.mem_singleton_self c)

theorem Counts.step (h : s.Counts c) {e : GenStep} (hstep : s.step e = .ok s') : s'.Counts c := by
  cases e with
  | tick host => exact h.tick hstep
  | response p => exact (agrees_response hstep).counts h
  | outside b =>
    obtain rfl := Except.ok.inj hstep
    have hagrees : Agrees s { s with arena := b } := ⟨rfl, rfl, rfl, rfl, rfl, rfl, rfl⟩
    exact hagrees.counts h

theorem Counts.next_iff (h : s.Counts c) (hc : InRange c) :
    s.gen.curAddr = rangeAddr s.accepted.length ↔
      ¬ ((offset c + s.refused) % 1024 ≠ 0 ∨
        (c.toNat % 4 ≠ 0 ∧ offset c + s.accepted.length + s.refused < 1024)) := by
  have hmod : (offset c + s.accepted.length + s.refused) % 1024 = s.accepted.length % 1024 ↔
      (offset c + s.refused) % 1024 = 0 := by
    generalize offset c = k
    omega
  rw [← UInt64.toNat_inj, (h.inside hc).2, sentAddr_eq_iff, hmod, not_or, not_not]

theorem range_order_concat {n : ℕ} {l : List (Option UInt64)} {o : Option UInt64}
    (hl : l = (List.range n).map fun i => some (rangeAddr i)) (hn : l.length = n) :
    l ++ [o] = (List.range (l ++ [o]).length).map (fun i => some (rangeAddr i)) ↔
      o = some (rangeAddr n) := by
  rw [List.length_append, List.length_singleton, hn, List.range_succ, List.map_append, ← hl]
  simp

theorem Gapless.tick_iff (h : s.Gapless) (hcounts : s.Counts c) {host : Host}
    (hstep : s.step (.tick host) = .ok s') : s'.Gapless ↔ ¬ Strays c s (.tick host) := by
  have hafter := hcounts.tick hstep
  rcases tick_run hcounts.mode hstep with ⟨hno, hgen, hgenerated, haccepted, hrefused⟩ |
    ⟨hissues, hgen, hgenerated, hsent⟩
  · have hgapless : s'.Gapless := by
      refine ⟨?_, ?_⟩
      · rw [hgenerated]
        exact h.range
      · rw [haccepted]
        exact h.order
    exact iff_of_true hgapless fun hstrays => hno hstrays.1
  · have hrange : (∀ addr ∈ s'.generated, InRange addr) ↔ InRange c := by
      by_cases hc : InRange c
      · exact iff_of_true (hafter.inside hc).1 hc
      · refine iff_of_false (fun hall => ?_) hc
        rcases hafter.outside hc with hmem | ⟨-, hnil⟩
        · exact hc (hall c hmem)
        · rw [hgenerated] at hnil
          simp at hnil
    have horder (hc : InRange c) :
        s'.accepted = (List.range s'.accepted.length).map (fun i => some (rangeAddr i)) ↔
          ¬ (host.sendReq 0 s.arena.takePacket.1 = true ∧ ((offset c + s.refused) % 1024 ≠ 0 ∨
            (c.toNat % 4 ≠ 0 ∧ offset c + s.accepted.length + s.refused < 1024))) := by
      rcases hsent with ⟨hok, haccepted, -⟩ | ⟨hno, haccepted, -⟩
      · rw [haccepted, range_order_concat h.order rfl, Option.some.injEq, hcounts.next_iff hc,
          and_iff_right hok]
      · rw [haccepted, hno]
        exact iff_of_true h.order fun hbad => Bool.false_ne_true hbad.1
    have hgapless : s'.Gapless ↔ InRange c ∧ s'.accepted =
        (List.range s'.accepted.length).map fun i => some (rangeAddr i) :=
      ⟨fun hs => ⟨hrange.mp hs.range, hs.order⟩, fun hs => ⟨hrange.mpr hs.1, hs.2⟩⟩
    have hstrays : Strays c s (.tick host) ↔ _ := and_iff_right hissues
    rw [hgapless, and_congr_right horder, hstrays, not_or, not_not]

/-- In every run of a new generator in sequential mode its addresses stay in the range and its port
takes them without a gap, exactly when no request that is sent strays. -/
theorem gapless_iff (c : UInt64) (tracePos : ℕ) (a : Arena) (steps : List GenStep) :
    Always step (start c tracePos a) Gapless steps ↔
      Never step (start c tracePos a) (Strays c) steps := by
  refine always_iff_never (fun s => s.Counts c ∧ s.Gapless) (Counts c) Gapless (fun _ _ => True)
    (Strays c) (each_true _ _) ⟨counts_start, gapless_start⟩ counts_start (fun _ hs => hs.2)
    (fun s e s' hs hstep => hs.step hstep) ?_ ?_
  · rintro s e s' ⟨hcounts, hs⟩ - hstep hno
    refine ⟨hcounts.step hstep, ?_⟩
    cases e with
    | tick host => exact (hs.tick_iff hcounts hstep).mpr hno
    | response p => exact (agrees_response hstep).gapless hs
    | outside b =>
      obtain rfl := Except.ok.inj hstep
      have hagrees : Agrees s { s with arena := b } := ⟨rfl, rfl, rfl, rfl, rfl, rfl, rfl⟩
      exact hagrees.gapless hs
  · intro s e s' hcounts hs _ hstep hstrays
    cases e with
    | tick host => exact fun hs' => (hs.tick_iff hcounts hstep).mp hs' hstrays
    | response p => exact hstrays.elim
    | outside b => exact hstrays.elim

def answering (ok : Bool) : Host :=
  ⟨0, [], [DownstreamPort.new 0 [4] [] "mem"], fun _ _ => ok, 0, 0⟩

/-- After a refused request the port takes 0x1004 first. If `cur_addr` starts at 0, the first
address is out of the range. -/
theorem first_address_skipped :
    ¬ Always step (start 0x1000 0 .empty) Gapless [.tick (answering false), .tick (answering true)] ∧
      ¬ Always step (start 0 0 .empty) Gapless [.tick (answering true)] := by
  constructor
  · intro h
    have hrun : ∃ s, [.tick (answering false), .tick (answering true)].foldlM step
        (start 0x1000 0 .empty) = .ok s ∧ s.accepted = [some 0x1004] := exists_ok_of_map rfl
    obtain ⟨s, hrun, haccepted⟩ := hrun
    have horder := (h _ s List.prefix_rfl hrun).order
    rw [haccepted] at horder
    exact absurd horder (by decide)
  · intro h
    have hrun : ∃ s, [.tick (answering true)].foldlM step (start 0 0 .empty) = .ok s ∧
        s.generated = [0] := exists_ok_of_map rfl
    obtain ⟨s, hrun, hgenerated⟩ := hrun
    have hrange := (h _ s List.prefix_rfl hrun).range 0
    rw [hgenerated] at hrange
    exact absurd (hrange (List.mem_singleton_self 0)).1 (by decide)

end GenRun
end GemSc
