import GemSc.Modules.Inversion

/-! Runs of one `CPUSim`: its table of requests in flight against the requests that the ports took
and the responses that came back. -/

namespace GemSc
open ExceptFold Function

def Memory.carried (m : Memory) (p : PacketPtr) : Option UInt64 :=
  (m.packet p).payload.map fun q => (m.payload q).address

def Effect.requests {σ : Type*} (host : Host) (e : Effect σ) : List (Option UInt64 × PacketPtr) :=
  (e.calls.filterMap (·.taken host.sendReq)).map fun r => (e.arena.heap.carried r.2, r.2)

theorem Arena.Acquired.carried {a b : Arena} {x : PacketPtr} {v : Payload}
    (h : Acquired (a.newPayload v).2 x b) (f : Packet → Packet)
    (hf : (f (b.heap.packet x)).payload = some (a.newPayload v).1) :
    (b.modify x f).heap.carried x = some v.address := by
  have hpacket : ((b.modify x f).heap.packet x).payload = some a.heap.nextPayload := by
    rw [Arena.modify, Heap.packet_modify_self]
    exact hf
  have hcontents : b.heap.payload a.heap.nextPayload = v := by
    rw [h.contents _ (Nat.ne_of_lt (Nat.lt_succ_self _))]
    exact update_self ..
  unfold Memory.carried
  rw [hpacket]
  exact congrArg (fun w : Payload => some w.address) hcontents

/-- A processor with the requests that its ports took, each with the address that it carried when
it was sent, and with the numbers of those that were answered. -/
structure CpuRun where
  cpu : CPUSim
  arena : Arena
  accepted : List (Option UInt64 × PacketPtr)
  answered : List ℕ

/-- Each tick has surroundings of its own: what `rand()` gives and what the ports answer. -/
inductive CpuStep
  | tick (host : Host)
  | response (i : ℕ) (p : PacketPtr)
  | outside (a : Arena)

namespace CpuRun

def start (a : Arena) : CpuRun := ⟨{}, a, [], []⟩

def step (s : CpuRun) : CpuStep → Except MemoryFault CpuRun
  | .tick host => do
    let e ← s.cpu.tick host s.arena
    return { s with cpu := e.state, arena := e.arena, accepted := s.accepted ++ e.requests host }
  | .response i p => do
    let r ← s.cpu.handleDownstreamResponse p s.arena
    return { s with cpu := r.2.state, arena := r.2.arena, answered := i :: s.answered }
  | .outside a => .ok { s with arena := a }

def Allows (s : CpuRun) : CpuStep → Prop
  | .tick _ => True
  | .response i p => i ∉ s.answered ∧ ∃ addr pkt, s.accepted[i]? = some (some addr, pkt) ∧
      (s.arena.heap.packet p).type = .resp ∧ (s.arena.heap.packet p).originalReq = some pkt ∧
        s.arena.heap.address pkt = .ok addr
  | .outside _ => True

def requestAddr (i : ℕ) : UInt64 := 0x1000 + 4 * UInt64.ofNat i

def Outstanding (s : CpuRun) (i : ℕ) (addr : UInt64) (pkt : PacketPtr) : Prop :=
  s.accepted[i]? = some (some addr, pkt) ∧ i ∉ s.answered

/-- The table holds the outstanding requests, at most four and of different addresses, and the
ports took the addresses in order. -/
structure Exact (s : CpuRun) : Prop where
  table : ∀ addr pkt, (addr, pkt) ∈ s.cpu.inflightReqs ↔ ∃ i, s.Outstanding i addr pkt
  size : s.cpu.inflightReqs.length ≤ 4
  distinct : ∀ i j addr p q, s.Outstanding i addr p → s.Outstanding j addr q → i = j
  addresses : s.accepted.map (·.1) = (List.range s.accepted.length).map fun i => some (requestAddr i)

theorem toNat_requestAddr {i : ℕ} (hi : i < 2 ^ 61) : (requestAddr i).toNat = 0x1000 + 4 * i := by
  have hofNat : (UInt64.ofNat i).toNat = i := UInt64.toNat_ofNat_of_lt' (hi.trans (by norm_num))
  unfold requestAddr
  rw [UInt64.toNat_add, UInt64.toNat_mul, hofNat]
  change (0x1000 + 4 * i % 2 ^ 64) % 2 ^ 64 = 0x1000 + 4 * i
  omega

theorem requestAddr_inj {i j : ℕ} (hi : i < 2 ^ 61) (hj : j < 2 ^ 61)
    (h : requestAddr i = requestAddr j) : i = j := by
  have heq := congrArg UInt64.toNat h
  rw [toNat_requestAddr hi, toNat_requestAddr hj] at heq
  omega

end CpuRun

namespace CPUSim
variable {host : Host} {c : CPUSim} {a : Arena} {p x : PacketPtr} {e : Effect CPUSim}

theorem tick_table (h : c.tick host a = .ok e) :
    (e.state = c ∧ e.requests host = []) ∨
      ∃ x, c.inflightReqs.length < 4 ∧ e.requests host = [(some c.nextAddr, x)] ∧
        e.state = ⟨(c.nextAddr, x) :: (c.erase c.nextAddr).inflightReqs, c.nextAddr + 4⟩ := by
  rcases tick_eq_ok h with
    rfl | ⟨x, b, hacq, -, hcalls, ⟨hok, harena, hsize, hstate⟩ | ⟨hno, hstate, -⟩⟩
  · exact .inl ⟨rfl, rfl⟩
  · refine .inr ⟨x, hsize, ?_, hstate⟩
    have hcarried : e.arena.heap.carried x = some c.nextAddr := by
      rw [harena]
      exact hacq.carried _ rfl
    unfold Effect.requests
    simp [hcalls, PortCall.taken, hok, hcarried]
  · refine .inl ⟨hstate, ?_⟩
    unfold Effect.requests
    simp [hcalls, PortCall.taken, hno]

theorem response_table {orig : PacketPtr} {addr : UInt64} {ok : Bool}
    (h : c.handleDownstreamResponse p a = .ok (ok, e)) (htype : (a.heap.packet p).type = .resp)
    (horig : (a.heap.packet p).originalReq = some orig) (haddr : a.heap.address orig = .ok addr) :
    e.state = c.erase addr := by
  obtain ⟨resp, hget, hrest⟩ := bind_eq_ok.mp h
  obtain ⟨-, rfl⟩ := Heap.get_eq_ok hget
  have hresp : (a.heap.packet p).isResponse := decide_eq_true htype
  rw [if_pos hresp] at hrest
  obtain ⟨orig', horig', hrest'⟩ := bind_eq_ok.mp hrest
  obtain ⟨addr', haddr', hrest''⟩ := bind_eq_ok.mp hrest'
  obtain ⟨b, -, hend⟩ := bind_pure_eq_ok.mp hrest''
  obtain ⟨-, rfl⟩ := Prod.mk.inj hend
  obtain rfl := Option.some.inj (horig.symm.trans (Heap.deref_eq_ok horig'))
  rw [Except.ok.inj (haddr.symm.trans haddr')]

theorem mem_erase {addr : UInt64} {r : UInt64 × PacketPtr} :
    r ∈ (c.erase addr).inflightReqs ↔ r ∈ c.inflightReqs ∧ r.1 ≠ addr := by
  unfold erase
  rw [List.mem_filter, decide_eq_true_iff]

end CPUSim

namespace CpuRun
variable {s s' : CpuRun} {i : ℕ} {addr : UInt64} {pkt : PacketPtr}

structure Tracked (s : CpuRun) : Prop where
  exact : s.Exact
  next : s.cpu.nextAddr = requestAddr s.accepted.length
  answered : ∀ i ∈ s.answered, i < s.accepted.length

theorem tracked_start (a : Arena) : (start a).Tracked where
  exact := by
    refine ⟨fun addr pkt => ?_, Nat.zero_le 4, ?_, rfl⟩
    · simp [start, Outstanding]
    · simp [start, Outstanding]
  next := rfl
  answered := by simp [start]

theorem Exact.addr_eq (h : s.Exact) {o : Option UInt64} (hi : s.accepted[i]? = some (o, pkt)) :
    i < s.accepted.length ∧ o = some (requestAddr i) := by
  have hlt := (List.getElem?_eq_some_iff.mp hi).1
  have hget := congrArg (·[i]?) h.addresses
  simp only [List.getElem?_map, hi, List.getElem?_range hlt, Option.map_some] at hget
  exact ⟨hlt, Option.some.inj hget⟩

theorem Exact.outstanding_answered (h : s.Exact) (hbound : s.accepted.length < 2 ^ 61)
    (hi : s.accepted[i]? = some (some addr, pkt)) (hs' : s'.accepted = s.accepted)
    (hanswered : s'.answered = i :: s.answered) (j : ℕ) (x : UInt64) (q : PacketPtr) :
    s'.Outstanding j x q ↔ s.Outstanding j x q ∧ x ≠ addr := by
  obtain ⟨hlt, hkey⟩ := h.addr_eq hi
  unfold Outstanding
  rw [hs', hanswered, List.mem_cons, not_or, and_assoc, and_congr_right_iff]
  intro hj
  obtain ⟨hjlt, hx⟩ := h.addr_eq hj
  have hiff : x ≠ addr ↔ j ≠ i := by
    rw [Option.some.inj hkey, Option.some.inj hx]
    exact not_congr ⟨requestAddr_inj (hjlt.trans hbound) (hlt.trans hbound), congrArg _⟩
  rw [hiff, and_comm]

theorem Tracked.response (h : s.Tracked) (hbound : s.accepted.length < 2 ^ 61) {p : PacketPtr}
    (hallow : s.Allows (.response i p)) (hstep : s.step (.response i p) = .ok s') : s'.Tracked := by
  obtain ⟨-, addr, pkt, hi, htype, horig, haddr⟩ := hallow
  obtain ⟨⟨ok, e⟩, hcall, rfl⟩ := bind_pure_eq_ok.mp hstep
  have hstate := CPUSim.response_table hcall htype horig haddr
  have houtstanding : ∀ j x q, CpuRun.Outstanding ⟨e.state, e.arena, s.accepted, i :: s.answered⟩
      j x q ↔ s.Outstanding j x q ∧ x ≠ addr :=
    h.exact.outstanding_answered hbound hi rfl rfl
  refine ⟨⟨fun x q => ?_, ?_, ?_, h.exact.addresses⟩, ?_, ?_⟩
  · have hmem : (x, q) ∈ e.state.inflightReqs ↔ (∃ j, s.Outstanding j x q) ∧ x ≠ addr := by
      rw [hstate, CPUSim.mem_erase, h.exact.table]
    rw [← exists_and_right] at hmem
    exact hmem.trans (exists_congr fun j => (houtstanding j x q).symm)
  · change e.state.inflightReqs.length ≤ 4
    rw [hstate]
    exact (List.length_filter_le _ _).trans h.exact.size
  · intro j k x p q hj hk
    exact h.exact.distinct j k x p q ((houtstanding j x p).mp hj).1 ((houtstanding k x q).mp hk).1
  · change e.state.nextAddr = _
    rw [hstate]
    exact h.next
  · change ∀ j ∈ i :: s.answered, j < s.accepted.length
    rw [List.forall_mem_cons]
    exact ⟨(h.exact.addr_eq hi).1, h.answered⟩

theorem Tracked.of_eq (h : s.Tracked) (hcpu : s'.cpu = s.cpu) (haccepted : s'.accepted = s.accepted)
    (hanswered : s'.answered = s.answered) : s'.Tracked := by
  have houtstanding (j : ℕ) (x : UInt64) (q : PacketPtr) :
      s'.Outstanding j x q ↔ s.Outstanding j x q := by
    unfold Outstanding
    rw [haccepted, hanswered]
  refine ⟨⟨fun x q => ?_, ?_, fun j k x p q => ?_, ?_⟩, ?_, ?_⟩
  · rw [hcpu, h.exact.table]
    exact exists_congr fun j => (houtstanding j x q).symm
  · rw [hcpu]
    exact h.exact.size
  · rw [houtstanding, houtstanding]
    exact h.exact.distinct j k x p q
  · rw [haccepted]
    exact h.exact.addresses
  · rw [hcpu, haccepted]
    exact h.next
  · rw [haccepted, hanswered]
    exact h.answered

theorem Tracked.next_fresh (h : s.Tracked) (hbound : s.accepted.length < 2 ^ 61) (i : ℕ)
    (pkt : PacketPtr) : ¬ s.Outstanding i s.cpu.nextAddr pkt := by
  intro hi
  obtain ⟨hlt, hkey⟩ := h.exact.addr_eq hi.1
  rw [h.next] at hkey
  exact hlt.ne' (requestAddr_inj hbound (hlt.trans hbound) (Option.some.inj hkey))

theorem Tracked.erase_next (h : s.Tracked) (hbound : s.accepted.length < 2 ^ 61) :
    (s.cpu.erase s.cpu.nextAddr).inflightReqs = s.cpu.inflightReqs := by
  unfold CPUSim.erase
  rw [List.filter_eq_self]
  rintro ⟨addr, pkt⟩ hmem
  have hne : addr ≠ s.cpu.nextAddr := by
    rintro rfl
    obtain ⟨i, hi⟩ := (h.exact.table _ pkt).mp hmem
    exact h.next_fresh hbound i pkt hi
  exact decide_eq_true hne

theorem requestAddr_succ (n : ℕ) : requestAddr n + 4 = requestAddr (n + 1) := by
  unfold requestAddr
  rw [show UInt64.ofNat (n + 1) = UInt64.ofNat n + 1 from UInt64.ofNat_add n 1, mul_add, add_assoc]
  rfl

theorem Tracked.outstanding_taken (h : s.Tracked) {x : PacketPtr}
    (hs' : s'.accepted = s.accepted ++ [(some s.cpu.nextAddr, x)])
    (hanswered : s'.answered = s.answered) (j : ℕ) (y : UInt64) (q : PacketPtr) :
    s'.Outstanding j y q ↔ s.Outstanding j y q ∨
      (j = s.accepted.length ∧ (y, q) = (s.cpu.nextAddr, x)) := by
  have hnew : s.accepted.length ∉ s.answered := fun hmem => Nat.lt_irrefl _ (h.answered _ hmem)
  unfold Outstanding
  rw [hs', hanswered]
  rcases Nat.lt_trichotomy j s.accepted.length with hlt | heq | hgt
  · rw [List.getElem?_append_left hlt]
    simp only [hlt.ne, false_and, or_false]
  · rw [heq, List.getElem?_concat_length, List.getElem?_eq_none (Nat.le_refl _)]
    simp only [reduceCtorEq, false_or, true_and, hnew, not_false_eq_true, and_true,
      Option.some.injEq, Prod.mk.injEq, eq_comm]
  · have hend : (s.accepted ++ [(some s.cpu.nextAddr, x)]).length ≤ j := by
      rw [List.length_append]
      exact hgt
    rw [List.getElem?_eq_none hend, List.getElem?_eq_none hgt.le]
    simp only [reduceCtorEq, hgt.ne', false_and, or_false]

theorem Tracked.taken (h : s.Tracked) {x : PacketPtr} (hbound : s.accepted.length < 2 ^ 61)
    (hsize : s.cpu.inflightReqs.length < 4)
    (hcpu : s'.cpu = ⟨(s.cpu.nextAddr, x) :: s.cpu.inflightReqs, s.cpu.nextAddr + 4⟩)
    (haccepted : s'.accepted = s.accepted ++ [(some s.cpu.nextAddr, x)])
    (hanswered : s'.answered = s.answered) : s'.Tracked := by
  have houtstanding := h.outstanding_taken haccepted hanswered
  have hlength : s'.accepted.length = s.accepted.length + 1 := by
    rw [haccepted, List.length_append, List.length_singleton]
  refine ⟨⟨fun y q => ?_, ?_, fun j k y p q hj hk => ?_, ?_⟩, ?_, ?_⟩
  · have hmem : (y, q) ∈ s'.cpu.inflightReqs ↔
        (∃ j, s.Outstanding j y q) ∨ (y, q) = (s.cpu.nextAddr, x) := by
      rw [hcpu, List.mem_cons, h.exact.table]
      exact or_comm
    refine hmem.trans ((exists_congr fun j => houtstanding j y q).trans ?_).symm
    rw [exists_or, exists_eq_left]
  · rw [hcpu]
    exact hsize
  · rw [houtstanding] at hj hk
    rcases hj with hj | ⟨rfl, hj⟩ <;> rcases hk with hk | ⟨rfl, hk⟩
    · exact h.exact.distinct j k y p q hj hk
    · exact absurd ((Prod.mk.inj hk).1 ▸ hj) (h.next_fresh hbound j p)
    · exact absurd ((Prod.mk.inj hj).1 ▸ hk) (h.next_fresh hbound k q)
    · rfl
  · rw [hlength, haccepted, List.map_append, h.exact.addresses, List.range_succ, List.map_append,
      h.next]
    rfl
  · rw [hcpu, hlength, ← requestAddr_succ, ← h.next]
  · intro j hj
    rw [hanswered] at hj
    rw [hlength]
    exact Nat.lt_succ_of_lt (h.answered j hj)

theorem Tracked.tick (h : s.Tracked) {host : Host} (hstep : s.step (.tick host) = .ok s')
    (hbound : s'.accepted.length < 2 ^ 61) : s'.Tracked := by
  obtain ⟨e, hcall, rfl⟩ := bind_pure_eq_ok.mp hstep
  rcases CPUSim.tick_table hcall with ⟨hstate, htaken⟩ | ⟨x, hsize, htaken, hstate⟩
  · refine h.of_eq hstate ?_ rfl
    change s.accepted ++ e.requests host = s.accepted
    rw [htaken, List.append_nil]
  · have haccepted : s.accepted ++ e.requests host = s.accepted ++ [(some s.cpu.nextAddr, x)] :=
      congrArg _ htaken
    have hlt : s.accepted.length < 2 ^ 61 := by
      change (s.accepted ++ e.requests host).length < 2 ^ 61 at hbound
      rw [haccepted, List.length_append] at hbound
      exact Nat.lt_of_succ_lt hbound
    -- The table had no entry under the new address, so none is replaced.
    rw [h.erase_next hlt] at hstate
    exact h.taken hlt hsize hstate haccepted rfl

theorem step_length {e : CpuStep} (hstep : s.step e = .ok s') :
    s.accepted.length ≤ s'.accepted.length := by
  cases e with
  | tick host =>
    obtain ⟨e, -, rfl⟩ := bind_pure_eq_ok.mp hstep
    exact (List.prefix_append ..).length_le
  | response i p =>
    obtain ⟨r, -, rfl⟩ := bind_pure_eq_ok.mp hstep
    exact Nat.le_refl _
  | outside a =>
    obtain rfl := Except.ok.inj hstep
    exact Nat.le_refl _

theorem tracked_step {e : CpuStep} (hstep : s.step e = .ok s') (hallow : s.Allows e)
    (hbound : s'.accepted.length < 2 ^ 61) (h : s.Tracked) : s'.Tracked := by
  cases e with
  | tick host => exact h.tick hstep hbound
  | response i p => exact h.response ((step_length hstep).trans_lt hbound) hallow hstep
  | outside a =>
    obtain rfl := Except.ok.inj hstep
    exact h.of_eq rfl rfl rfl

/-- The table of requests in flight stays exact in every run of ticks and of responses to
outstanding requests, whatever the ports refuse. -/
theorem inflightReqs_exact {a : Arena} {steps : List CpuStep}
    (hallow : Each step (start a) Allows steps) (hrun : steps.foldlM step (start a) = .ok s)
    (hbound : s.accepted.length < 2 ^ 61) : s.Exact := by
  have hinv : steps.foldlM step (start a) = .ok s ∧ (s.accepted.length < 2 ^ 61 → s.Tracked) := by
    refine foldlM_invariant_prefix
      (fun pre c => pre.foldlM step (start a) = .ok c ∧ (c.accepted.length < 2 ^ 61 → c.Tracked))
      hrun ⟨rfl, fun _ => tracked_start a⟩ ?_
    rintro pre e post c d rfl ⟨hpre, hc⟩ hstep
    refine ⟨foldlM_append_ok.mpr ⟨c, hpre, foldlM_cons_ok.mpr ⟨d, hstep, rfl⟩⟩, fun hd => ?_⟩
    have hin : pre ++ [e] <+: pre ++ e :: post := ⟨post, by simp⟩
    exact tracked_step hstep (hallow pre e c hin hpre) hd (hc ((step_length hstep).trans_lt hd))
  exact (hinv.2 hbound).exact

def oneMemory : Host :=
  ⟨0, [], [DownstreamPort.new 0 [4] [] "mem"], fun _ _ => true, 0, 0⟩

def firstAnswered : Arena :=
  { Arena.empty with heap := { Heap.empty with
    packet := fun p => if p = 1 then { type := .resp, originalReq := some 0 }
      else { payload := some 0 }
    payload := fun _ => ⟨0x1000, 4⟩
    nextPacket := 2
    nextPayload := 1 } }

def requestThenResponse : List CpuStep :=
  [.tick oneMemory] ++ [.outside firstAnswered] ++ [.response 0 1]

theorem inflightReqs_exact_demo : ∃ s, requestThenResponse.foldlM step (start .empty) = .ok s ∧
    s.Exact ∧ s.accepted = [(some 0x1000, 0)] ∧ s.cpu.inflightReqs = [] := by
  have hallow : Each step (start .empty) Allows requestThenResponse := by
    refine each_concat (each_concat (each_concat (each_nil _ _) ?_) ?_) ?_
    · exact fun _ _ => trivial
    · exact fun _ _ => trivial
    · intro s hrun
      have hbefore : s.answered = [] ∧ s.accepted = [(some 0x1000, 0)] :=
        forall_ok_of_map
          (P := fun s : CpuRun => s.answered = [] ∧ s.accepted = [(some 0x1000, 0)]) rfl s hrun
      have harena : s.arena = firstAnswered := by
        obtain ⟨c, -, hlast⟩ := foldlM_append_ok.mp hrun
        cases hlast
        rfl
      refine ⟨?_, 0x1000, 0, ?_, ?_⟩
      · rw [hbefore.1]
        exact List.not_mem_nil
      · rw [hbefore.2]
        rfl
      · rw [harena]
        exact ⟨rfl, rfl, rfl⟩
  have hend : ∃ s, requestThenResponse.foldlM step (start .empty) = .ok s ∧
      s.accepted = [(some 0x1000, 0)] ∧ s.cpu.inflightReqs = [] := exists_ok_of_map rfl
  obtain ⟨s, hrun, haccepted, htable⟩ := hend
  refine ⟨s, hrun, inflightReqs_exact hallow hrun ?_, haccepted, htable⟩
  rw [haccepted]
  norm_num

end CpuRun
end GemSc
