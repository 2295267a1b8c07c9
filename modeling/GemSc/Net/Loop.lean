import GemSc.Net.Payloads

/-! One `CPUSim` over one `MemorySim`: how many packets the loop of requests and responses
takes from the pool. The reference of a response to its request frees nothing, so each request
that was answered stays acquired. -/

namespace GemSc
open ExceptFold

/-- The network of a CPU and a memory, with the requests that the port took, the responses that
the memory made and those that the CPU consumed. -/
structure Loop where
  net : Network
  sent : ℕ
  created : ℕ
  consumed : ℕ

inductive LoopStep
  | tick (host : Host)
  | offer (i : ℕ) (host : Host)
  | fire (i : ℕ) (host : Host)
  | stamp (p : PacketPtr) (cycle : UInt64)

def LoopStep.netStep : LoopStep → NetStep
  | .tick host => .tick (.cpu 0) host
  | .offer i host => .offer i host
  | .fire i host => .fire i host
  | .stamp p cycle => .stamp p cycle

/-- `current_usage` -/
def Arena.usage (a : Arena) : ℕ := a.pool.currentUsage.toNat

namespace Loop

def idle : Loop := ⟨.idle, 0, 0, 0⟩

def count (l : Loop) (n : Network) : LoopStep → Loop
  | .tick _ => { l with net := n, sent := l.sent + (n.requests.length - l.net.requests.length) }
  | .offer _ _ => { l with net := n, created := l.created + (n.tasks.length - l.net.tasks.length) }
  | .fire _ _ => { l with net := n, consumed := l.consumed + (l.net.tasks.length - n.tasks.length) }
  | .stamp _ _ => { l with net := n }

def step (l : Loop) (s : LoopStep) : Except MemoryFault Loop := do
  let n ← l.net.step (Network.cpuOver (.memory 0)) s.netStep
  return l.count n s

def run (steps : List LoopStep) : Except MemoryFault Loop := steps.foldlM step idle

/-- The pool counts the requests without a consumed response and the responses not consumed. -/
def Balanced (l : Loop) : Prop :=
  l.net.arena.usage = ((l.sent - l.consumed) + (l.created - l.consumed)) % 2 ^ 64

def Consumes (l : Loop) : LoopStep → Prop
  | .fire i _ => i < l.net.tasks.length
  | .tick _ => False
  | .offer _ _ => False
  | .stamp _ _ => False

structure Accounts (l : Loop) : Prop where
  used : (l.net.arena.usage + l.consumed) % 2 ^ 64 = (l.sent + l.created) % 2 ^ 64
  offered : l.sent = l.created + l.net.requests.length
  fired : l.created = l.consumed + l.net.tasks.length
  requests : ∀ r ∈ l.net.requests, r.2.1 = .memory 0
  responses : ∀ s ∈ l.net.tasks, ∃ port p, s = (.memory 0, .sendResp port p)
  uncounted : l.net.arena.Uncounted

variable {l l' : Loop} {host : Host} {i : ℕ}

theorem step_eq_ok {s : LoopStep} (h : l.step s = .ok l') :
    ∃ n, l.net.step (Network.cpuOver (.memory 0)) s.netStep = .ok n ∧ l' = l.count n s := by
  obtain ⟨n, hn, hend⟩ := bind_eq_ok.mp h
  exact ⟨n, hn, (Except.ok.inj hend).symm⟩

theorem accounts_idle : idle.Accounts :=
  ⟨rfl, rfl, rfl, fun _ h => (nomatch h), fun _ h => (nomatch h), fun _ => rfl⟩

theorem Accounts.balanced_iff (h : l.Accounts) : l.Balanced ↔ l.consumed % 2 ^ 64 = 0 := by
  have hused := h.used
  have hoffered := h.offered
  have hfired := h.fired
  have hlt : l.net.arena.usage < 2 ^ 64 := l.net.arena.pool.currentUsage.toNat_lt
  rw [Balanced]
  omega

theorem usage_acquired {a b : Arena} {x : PacketPtr} (h : a.Acquired x b) :
    b.usage = (a.usage + 1) % 2 ^ 64 := by
  rw [Arena.usage, h.usage, UInt64.toNat_add]
  rfl

theorem usage_released {a b : Arena} {x : PacketPtr} (h : a.Released x b) :
    (b.usage + 1) % 2 ^ 64 = a.usage := by
  have hlt : a.usage < 2 ^ 64 := a.pool.currentUsage.toNat_lt
  have hone : (1 : UInt64).toNat = 1 := rfl
  have hsub : b.usage = (2 ^ 64 - 1 + a.usage) % 2 ^ 64 := by
    rw [Arena.usage, h.usage, UInt64.toNat_sub, hone]
    rfl
  omega

theorem usage_request {a b : Arena} {value : Payload} {x : PacketPtr}
    (hacq : (a.newPayload value).2.Acquired x b) :
    (CPUSim.request host x (a.newPayload value).1 b).usage = (a.usage + 1) % 2 ^ 64 := by
  have hacquired : b.usage = ((a.newPayload value).2.usage + 1) % 2 ^ 64 := usage_acquired hacq
  exact hacquired

theorem usage_refused {a b a' : Arena} {value : Payload} {x : PacketPtr} (hu : a.Uncounted)
    (hacq : (a.newPayload value).2.Acquired x b)
    (hrel : (CPUSim.request host x (a.newPayload value).1 b).release x = .ok a') :
    a'.usage = a.usage := by
  have hreleased := usage_released (Arena.released (hu.request host hacq) hrel)
  have hacquired : (CPUSim.request host x (a.newPayload value).1 b).usage = (a.usage + 1) % 2 ^ 64 :=
    usage_request hacq
  have hlt : a'.usage < 2 ^ 64 := a'.pool.currentUsage.toNat_lt
  have hlt' : a.usage < 2 ^ 64 := a.pool.currentUsage.toNat_lt
  omega

theorem tick_eq_ok {n n' : Network} (hu : n.arena.Uncounted)
    (h : n.tick (Network.cpuOver (.memory 0)) host (.cpu 0) = .ok n') :
    n'.tasks = n.tasks ∧
      ((n'.requests = n.requests ∧ n'.arena.usage = n.arena.usage) ∨
        ∃ p, n'.requests = n.requests ++ [(p, .memory 0, 0)] ∧
          n'.arena.usage = (n.arena.usage + 1) % 2 ^ 64) := by
  obtain ⟨e, he, rfl⟩ := bind_pure_eq_ok.mp h
  rcases CPUSim.tick_eq_ok he with rfl | ⟨x, b, hacq, hsched, hcalls, ⟨hok, harena, -⟩ | ⟨hno, -, hrel⟩⟩
  · exact ⟨by simp, .inl ⟨by simp, rfl⟩⟩
  · refine ⟨by simp [hsched], .inr ⟨x, ?_, ?_⟩⟩
    · simp [hcalls, Network.taken, PortCall.taken, hok, Network.cpuOver]
    · rw [Network.arena_setCpu, Network.arena_absorb, harena]
      exact usage_request hacq
  · refine ⟨by simp [hsched], .inl ⟨?_, usage_refused hu hacq hrel⟩⟩
    simp [hcalls, Network.taken, PortCall.taken, hno]

theorem Accounts.tick (h : l.Accounts) (hstep : l.step (.tick host) = .ok l') : l'.Accounts := by
  obtain ⟨n, hn, rfl⟩ := step_eq_ok hstep
  have huncounted : n.arena.Uncounted := (Network.move_step hn).uncounted h.uncounted
  have hused := h.used
  have hoffered := h.offered
  obtain ⟨htasks, ⟨hreq, husage⟩ | ⟨p, hreq, husage⟩⟩ := tick_eq_ok h.uncounted hn
  · refine ⟨?_, ?_, ?_, hreq ▸ h.requests, htasks ▸ h.responses, huncounted⟩
    · simp only [count, hreq, husage, Nat.sub_self, Nat.add_zero]
      exact hused
    · simp only [count, hreq, Nat.sub_self, Nat.add_zero]
      exact hoffered
    · simp only [count, htasks]
      exact h.fired
  · have hone : n.requests.length = l.net.requests.length + 1 := by simp [hreq]
    refine ⟨?_, ?_, ?_, ?_, htasks ▸ h.responses, huncounted⟩
    · simp only [count, hone, husage]
      omega
    · simp only [count, hone]
      omega
    · simp only [count, htasks]
      exact h.fired
    · intro r hr
      simp only [count, hreq, List.mem_append, List.mem_singleton] at hr
      rcases hr with hr | rfl
      · exact h.requests r hr
      · rfl

theorem offer_eq_ok {n n' : Network} {p : PacketPtr} {port : ℕ}
    (hreq : n.requests[i]? = some (p, .memory 0, port))
    (h : n.step (Network.cpuOver (.memory 0)) (.offer i host) = .ok n') :
    n'.requests = n.requests.eraseIdx i ∧
      (∃ x, n'.tasks = n.tasks ++ [(.memory 0, .sendResp port x)]) ∧
      n'.arena.usage = (n.arena.usage + 1) % 2 ^ 64 := by
  rw [Network.step, hreq] at h
  obtain ⟨⟨ok, m⟩, hm, hend⟩ := bind_eq_ok.mp h
  obtain ⟨⟨b, e⟩, he, hend'⟩ := bind_eq_ok.mp hm
  obtain ⟨r, hresp, rfl, rfl⟩ := MemorySim.handleUpstreamRequest_eq_ok he
  obtain ⟨rfl, rfl⟩ := Prod.mk.inj (Except.ok.inj hend')
  obtain rfl := Except.ok.inj hend
  obtain ⟨-, b, hacq, heq⟩ := Arena.makeResponse_eq_ok hresp
  refine ⟨by simp, ⟨r.1, by simp⟩, ?_⟩
  have husage : r.2.usage = b.usage := by rw [heq]; rfl
  exact husage.trans (usage_acquired hacq)

theorem Accounts.offer (h : l.Accounts) (hstep : l.step (.offer i host) = .ok l') : l'.Accounts := by
  obtain ⟨n, hn, rfl⟩ := step_eq_ok hstep
  have huncounted : n.arena.Uncounted := (Network.move_step hn).uncounted h.uncounted
  cases hreq : l.net.requests[i]? with
  | none =>
    rw [LoopStep.netStep, Network.step, hreq] at hn
    obtain rfl := Except.ok.inj hn
    simpa [count] using h
  | some r =>
    obtain ⟨p, node, port⟩ := r
    obtain rfl : node = .memory 0 := h.requests _ (List.mem_of_getElem? hreq)
    obtain ⟨hrequests, ⟨x, htasks⟩, husage⟩ := offer_eq_ok hreq hn
    have hused := h.used
    have hoffered := h.offered
    have hfired := h.fired
    have hi : i < l.net.requests.length := (List.getElem?_eq_some_iff.mp hreq).1
    have hone : n.tasks.length = l.net.tasks.length + 1 := by simp [htasks]
    have hless : n.requests.length + 1 = l.net.requests.length := by
      rw [hrequests, List.length_eraseIdx_of_lt hi]
      omega
    refine ⟨?_, ?_, ?_, ?_, ?_, huncounted⟩
    · simp only [count, hone, husage]
      omega
    · simp only [count, hone]
      omega
    · simp only [count, hone]
      omega
    · intro r hr
      simp only [count, hrequests] at hr
      exact h.requests r (List.mem_of_mem_eraseIdx hr)
    · intro s hs
      simp only [count, htasks, List.mem_append, List.mem_singleton] at hs
      rcases hs with hs | rfl
      · exact h.responses s hs
      · exact ⟨port, x, rfl⟩

theorem fire_eq_ok {n n' : Network} {p : PacketPtr} {port : ℕ} (hu : n.arena.Uncounted)
    (htask : n.tasks[i]? = some (.memory 0, .sendResp port p))
    (h : n.step (Network.cpuOver (.memory 0)) (.fire i host) = .ok n') :
    n'.requests = n.requests ∧ n'.tasks = n.tasks.eraseIdx i ∧
      (n'.arena.usage + 1) % 2 ^ 64 = n.arena.usage := by
  rw [Network.step, htask] at h
  obtain ⟨⟨b, e⟩, he, rfl⟩ := bind_pure_eq_ok.mp h
  obtain ⟨hrel, hcalls, hsched⟩ := CPUSim.handleDownstreamResponse_eq_ok he
  refine ⟨?_, ?_, ?_⟩
  · simp [hcalls]
  · simp [hsched]
  · exact usage_released (Arena.released hu hrel)

theorem Accounts.fire (h : l.Accounts) (hstep : l.step (.fire i host) = .ok l') :
    l'.Accounts ∧ (i < l.net.tasks.length → l'.consumed = l.consumed + 1) ∧
      (¬ i < l.net.tasks.length → l'.consumed = l.consumed) := by
  obtain ⟨n, hn, rfl⟩ := step_eq_ok hstep
  have huncounted : n.arena.Uncounted := (Network.move_step hn).uncounted h.uncounted
  cases htask : l.net.tasks[i]? with
  | none =>
    have hi : ¬ i < l.net.tasks.length := not_lt.mpr (List.getElem?_eq_none_iff.mp htask)
    rw [LoopStep.netStep, Network.step, htask] at hn
    obtain rfl := Except.ok.inj hn
    exact ⟨by simpa [count] using h, fun hlt => absurd hlt hi, fun _ => by simp [count]⟩
  | some s =>
    obtain ⟨port, p, rfl⟩ := h.responses s (List.mem_of_getElem? htask)
    obtain ⟨hrequests, htasks, husage⟩ := fire_eq_ok h.uncounted htask hn
    have hused := h.used
    have hfired := h.fired
    have hi : i < l.net.tasks.length := (List.getElem?_eq_some_iff.mp htask).1
    have hless : n.tasks.length + 1 = l.net.tasks.length := by
      rw [htasks, List.length_eraseIdx_of_lt hi]
      omega
    have hone : l.net.tasks.length - n.tasks.length = 1 := by omega
    refine ⟨⟨?_, ?_, ?_, ?_, ?_, huncounted⟩, fun _ => ?_, absurd hi⟩
    · simp only [count, hone]
      omega
    · simp only [count, hrequests]
      exact h.offered
    · simp only [count, hone]
      omega
    · simp only [count, hrequests]
      exact h.requests
    · intro s hs
      simp only [count, htasks] at hs
      exact h.responses s (List.mem_of_mem_eraseIdx hs)
    · simp only [count, hone]

theorem Accounts.step {s : LoopStep} (h : l.Accounts) (hstep : l.step s = .ok l') :
    l'.Accounts ∧ (l.Consumes s → l'.consumed = l.consumed + 1) ∧
      (¬ l.Consumes s → l'.consumed = l.consumed) := by
  cases s with
  | fire i host => exact h.fire hstep
  | tick host =>
    have hacc := h.tick hstep
    obtain ⟨n, -, rfl⟩ := step_eq_ok hstep
    exact ⟨hacc, False.elim, fun _ => rfl⟩
  | offer i host =>
    have hacc := h.offer hstep
    obtain ⟨n, -, rfl⟩ := step_eq_ok hstep
    exact ⟨hacc, False.elim, fun _ => rfl⟩
  | stamp p cycle =>
    obtain ⟨n, hn, rfl⟩ := step_eq_ok hstep
    have huncounted : n.arena.Uncounted := (Network.move_step hn).uncounted h.uncounted
    obtain rfl := Except.ok.inj hn
    exact ⟨⟨h.used, h.offered, h.fired, h.requests, h.responses, huncounted⟩, False.elim,
      fun _ => rfl⟩

/-- In a run from the empty pool the pool's usage is the number of requests without a consumed
response plus the number of responses not consumed, as long as no response is consumed; each one
that is leaves its request behind. -/
theorem usage_balanced_iff (steps : List LoopStep) :
    Always step idle Balanced steps ↔ Never step idle Consumes steps := by
  refine always_iff_never (fun l : Loop => l.Accounts ∧ l.consumed = 0) Accounts _ (fun _ _ => True)
    _ (each_true _ _) ⟨accounts_idle, rfl⟩ accounts_idle ?_ ?_ ?_ ?_
  · intro l hl
    exact hl.1.balanced_iff.mpr (by rw [hl.2]; rfl)
  · intro l s l' hl hstep
    exact (hl.step hstep).1
  · intro l s l' hl _ hstep hno
    obtain ⟨hacc, -, hsame⟩ := hl.1.step hstep
    exact ⟨hacc, (hsame hno).trans hl.2⟩
  · intro l s l' hl hbalanced _ hstep hcons hbalanced'
    obtain ⟨hacc, hmore, -⟩ := hl.step hstep
    have hbefore := hl.balanced_iff.mp hbalanced
    have hafter := hacc.balanced_iff.mp hbalanced'
    rw [hmore hcons] at hafter
    omega

def oneRoundTrip : List LoopStep :=
  [.tick Network.sendingHost, .offer 0 Network.sendingHost, .fire 0 Network.sendingHost]

/-- After one round trip nothing is outstanding and one packet is still in use. -/
theorem request_leaked :
    ¬ Always step idle Balanced oneRoundTrip := by
  intro h
  have hleaked : ∃ l, run oneRoundTrip = .ok l ∧ l.net.arena.usage = 1 ∧ l.sent = 1 ∧
      l.created = 1 ∧ l.consumed = 1 := exists_ok_of_map rfl
  obtain ⟨l, hrun, husage, hsent, hcreated, hconsumed⟩ := hleaked
  have hbalanced := h oneRoundTrip l (List.prefix_refl _) hrun
  rw [Balanced, husage, hsent, hcreated, hconsumed] at hbalanced
  exact absurd hbalanced (by decide)

end Loop
end GemSc
