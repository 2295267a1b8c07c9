import GemSc.Link.PeerPort
import GemSc.Lib.CountedQueue
import GemSc.Lib.ExceptFold

/-! The output VCs of a port in every run of `sendReq` and `tick` against any peer, and when
their statistics are right: as long as no tick finds a packet to retry. -/

namespace GemSc
open Function

namespace OutputVC

def queue (vc : OutputVC) : CountedQueue PacketPtr where
  buffer := vc.buffer
  capacity := vc.capacity
  enqueued := vc.stats.enqueued
  dequeued := vc.stats.forwarded
  dropped := vc.stats.dropped

theorem queue_offer (vc : OutputVC) (p : PacketPtr) :
    (vc.queue.offer p).1 = (vc.offer p).1 ∧ (vc.queue.offer p).2 = (vc.offer p).2.queue := by
  unfold CountedQueue.offer offer
  by_cases h : vc.capacity ≤ vc.buffer.length
  · rw [if_pos h, if_pos (show vc.queue.capacity ≤ vc.queue.buffer.length from h)]
    exact ⟨rfl, rfl⟩
  · rw [if_neg h, if_neg (show ¬ vc.queue.capacity ≤ vc.queue.buffer.length from h), enqueue,
      if_neg h]
    exact ⟨rfl, rfl⟩

end OutputVC

/-- The calls of a port: a producer sends a packet, or the port ticks. In each the memory is as it
may be, and the peer would give the answers that are listed. -/
inductive OutputCall
  | sendReq (m : Memory) (peer : Bool) (p : PacketPtr)
  | tick (m : Memory) (peer : ℕ → Bool)

def OutputCall.mem : OutputCall → Memory
  | .sendReq m _ _ => m
  | .tick m _ => m

/-- A port with its history: by `vc_id`, the producers' packets that were put into a VC and how
many were refused; by VC, the buffered packets that the peer accepted. -/
structure OutputRun where
  port : DownstreamPort
  entered : ℤ → List PacketPtr := fun _ => []
  refused : ℤ → ℕ := fun _ => 0
  forwarded : ℕ → List PacketPtr := fun _ => []

namespace OutputRun

def step (s : OutputRun) : OutputCall → OutputRun
  | .sendReq m peer p =>
    let vcId := (m.packet p).vcId
    let r := s.port.sendReq peer m p
    { s with
      port := r.port
      entered := if r.answer && !r.delivered then update s.entered vcId (s.entered vcId ++ [p])
        else s.entered
      refused := if r.answer then s.refused else update s.refused vcId (s.refused vcId + 1) }
  | .tick m peer =>
    let r := s.port.tick peer m
    { s with
      port := r.1
      forwarded := fun k => s.forwarded k ++ (r.2.filter fun a => a.vc = k ∧ a.delivered).map (·.packet) }

def exec (d : DownstreamPort) (calls : List OutputCall) : OutputRun := calls.foldl step { port := d }

/-- The statistics of VC `k` against the history. They are `uint64_t`, so each equals its number
as long as that fits. -/
structure Truthful (s : OutputRun) (k : ℕ) (vc : OutputVC) : Prop where
  size : vc.buffer.length ≤ vc.capacity
  buffered : vc.stats.enqueued - vc.stats.forwarded = UInt64.ofNat vc.buffer.length
  forwarded : vc.stats.forwarded = UInt64.ofNat (s.forwarded k).length
  enqueued : vc.stats.enqueued = UInt64.ofNat (s.entered k).length
  dropped : vc.stats.dropped = UInt64.ofNat (s.refused k)

def AllTruthful (s : OutputRun) : Prop :=
  ∀ (k : ℕ) vc, s.port.outputVcs[k]? = some vc → s.Truthful k vc

/-- A tick that finds all VCs empty, or a `sendReq` whose `vc_id` the range check admits if there
is a VC of that index. -/
def Harmless (s : OutputRun) : OutputCall → Prop
  | .sendReq m _ p => ∀ k < s.port.outputVcs.length, (m.packet p).vcId = k →
      vcInRange k s.port.outputVcs.length
  | .tick _ _ => ∀ k, s.port.buffer k = []

def TruthfulRun (d : DownstreamPort) (calls : List OutputCall) : Prop :=
  ∀ pre, pre <+: calls → (exec d pre).AllTruthful

def HarmlessRun (d : DownstreamPort) (calls : List OutputCall) : Prop :=
  ∀ pre c, pre ++ [c] <+: calls → (exec d pre).Harmless c

def Agrees (s : OutputRun) : Prop :=
  ∀ (k : ℕ) vc, s.port.outputVcs[k]? = some vc →
    vc.queue.Agrees (s.entered k) (s.forwarded k) (s.refused k)

variable {s : OutputRun} {d : DownstreamPort} {k : ℕ} {vc : OutputVC} {calls : List OutputCall}
  {c : OutputCall}

theorem Agrees.allTruthful (h : s.Agrees) : s.AllTruthful := by
  intro k vc hvc
  have hagrees := h k vc hvc
  exact ⟨hagrees.size, hagrees.enqueued_sub, hagrees.dequeued, hagrees.enqueued, hagrees.dropped⟩

theorem history_sendReq (s : OutputRun) (m : Memory) (peer : Bool) (p : PacketPtr) (k : ℕ) :
    ((m.packet p).vcId ≠ k ∨ (s.port.sendReq peer m p).answer = true ∧
        (s.port.sendReq peer m p).delivered = true →
      (s.step (.sendReq m peer p)).entered k = s.entered k ∧
        (s.step (.sendReq m peer p)).refused k = s.refused k) ∧
      ((m.packet p).vcId = k → (s.port.sendReq peer m p).answer = true →
        (s.port.sendReq peer m p).delivered = false →
        (s.step (.sendReq m peer p)).entered k = s.entered k ++ [p] ∧
          (s.step (.sendReq m peer p)).refused k = s.refused k) ∧
      ((m.packet p).vcId = k → (s.port.sendReq peer m p).answer = false →
        (s.step (.sendReq m peer p)).entered k = s.entered k ∧
          (s.step (.sendReq m peer p)).refused k = s.refused k + 1) := by
  unfold step
  dsimp only
  refine ⟨?_, ?_, ?_⟩
  · rintro (hne | ⟨hok, hdel⟩)
    · constructor
      · split_ifs
        · exact update_of_ne hne.symm ..
        · rfl
      · split_ifs
        · rfl
        · exact update_of_ne hne.symm ..
    · rw [hok, hdel]
      exact ⟨rfl, rfl⟩
  · intro hk hok hdel
    rw [hok, hdel, ← hk]
    exact ⟨update_self .., rfl⟩
  · intro hk hno
    rw [hno, ← hk]
    exact ⟨rfl, update_self ..⟩

theorem Agrees.sendReq (h : s.Agrees) {m : Memory} {peer : Bool} {p : PacketPtr}
    (hsafe : s.Harmless (.sendReq m peer p)) : (s.step (.sendReq m peer p)).Agrees := by
  intro k vc hvc
  have hvc : (s.port.sendReq peer m p).port.outputVcs[k]? = some vc := hvc
  show vc.queue.Agrees _ (s.forwarded k) _
  obtain ⟨hkeep, htrue, hfalse⟩ := history_sendReq s m peer p k
  obtain ⟨hlen, ⟨hno, hdel, hout, hport⟩ | ⟨i, vi, hi, hr, hget, hcases⟩⟩ :=
    s.port.sendReq_cases peer m p
  · -- refused by the range check: no VC has this `vc_id`
    rw [hport] at hvc
    have hne : (m.packet p).vcId ≠ k := by
      intro hk
      have hin := hsafe k (List.getElem?_eq_some_iff.mp hvc).1 hk
      rw [← hk, hout] at hin
      cases hin
    obtain ⟨hentered, hrefused⟩ := hkeep (.inl hne)
    rw [hentered, hrefused]
    exact h k vc hvc
  · rcases hcases with ⟨-, -, hok, hdel, hvcs⟩ | ⟨-, hans, hdel, hvcs⟩
    · obtain ⟨hentered, hrefused⟩ := hkeep (.inr ⟨hok, hdel⟩)
      rw [hvcs] at hvc
      rw [hentered, hrefused]
      exact h k vc hvc
    · rw [hvcs] at hvc
      by_cases hk : k = i
      · subst hk
        rw [List.getElem?_set_self (List.getElem?_eq_some_iff.mp hget).1] at hvc
        obtain rfl := Option.some.inj hvc
        obtain ⟨hsame, hqueue⟩ := vi.queue_offer p
        rw [← hqueue]
        rcases (h k vi hget).offered p with ⟨hok, hagrees⟩ | ⟨hno, hagrees⟩
        · obtain ⟨hentered, hrefused⟩ := htrue hi (hans.trans (hsame.symm.trans hok)) hdel
          rwa [hentered, hrefused]
        · obtain ⟨hentered, hrefused⟩ := hfalse hi (hans.trans (hsame.symm.trans hno))
          rwa [hentered, hrefused]
      · have hne : (m.packet p).vcId ≠ k := by
          rw [hi]
          exact Int.ofNat_inj.not.mpr (Ne.symm hk)
        obtain ⟨hentered, hrefused⟩ := hkeep (.inl hne)
        rw [List.getElem?_set_ne (Ne.symm hk)] at hvc
        rw [hentered, hrefused]
        exact h k vc hvc

theorem tick_idle (hempty : ∀ k, d.buffer k = []) (peer : ℕ → Bool) (m : Memory) :
    d.tick peer m = (d, []) := by
  have htry : ∀ i, d.trySend (peer i) m i = ⟨true, false, d⟩ := by
    intro i
    cases hvc : d.outputVcs[i]? with
    | none => exact DownstreamPort.trySend_none (peer i) m hvc
    | some vc =>
      have hbuf : vc.buffer = [] := by
        rw [← DownstreamPort.buffer_of_getElem? hvc]
        exact hempty i
      simp only [DownstreamPort.trySend, hvc, hbuf]
  unfold DownstreamPort.tick
  generalize List.range d.outputVcs.length = is
  induction is with
  | nil => rfl
  | cons i is ih =>
    rw [DownstreamPort.tickFrom, htry, ih, hempty]
    rfl

theorem Agrees.step (h : s.Agrees) (hsafe : s.Harmless c) : (s.step c).Agrees := by
  cases c with
  | sendReq m peer p => exact h.sendReq hsafe
  | tick m peer =>
    have hstep : s.step (.tick m peer) = s := by
      rw [OutputRun.step, tick_idle hsafe]
      simp
    rwa [hstep]

theorem agrees_new (i : ℕ) (outSizes priorities : List ℕ) (label : String) :
    Agrees { port := .new i outSizes priorities label } := by
  intro k vc hvc
  simp only [DownstreamPort.new, List.getElem?_mapIdx, Option.map_eq_some_iff] at hvc
  obtain ⟨size, -, rfl⟩ := hvc
  exact CountedQueue.agrees_new size

theorem exec_concat (d : DownstreamPort) (calls : List OutputCall) (c : OutputCall) :
    exec d (calls ++ [c]) = (exec d calls).step c := by
  rw [exec, List.foldl_append]
  rfl

theorem agrees_exec (hnew : Agrees { port := d }) (hsafe : HarmlessRun d calls) :
    (exec d calls).Agrees := by
  induction calls using List.reverseRecOn with
  | nil => exact hnew
  | append_singleton calls c ih =>
    rw [exec_concat]
    have hinit : HarmlessRun d calls :=
      fun pre c hpre => hsafe pre c (hpre.trans (List.prefix_append ..))
    exact (ih hinit).step (hsafe calls c List.prefix_rfl)

/-- As long as nobody changes the `vc_id` of a packet, each buffered packet carries the index of
its VC, which the range check admits. -/
structure Placed (vcId : PacketPtr → ℤ) (d : DownstreamPort) : Prop where
  coherent : ∀ k, ∀ p ∈ d.buffer k, vcId p = k
  range : ∀ k, d.buffer k ≠ [] → vcInRange k d.outputVcs.length

variable {vcId : PacketPtr → ℤ} {m : Memory}

theorem Placed.sendReq (h : Placed vcId d) (hm : ∀ x, (m.packet x).vcId = vcId x) (peer : Bool)
    (p : PacketPtr) : Placed vcId (d.sendReq peer m p).port := by
  obtain ⟨hlen, ⟨-, -, -, hport⟩ | ⟨i, vi, hi, hr, hget, hcases⟩⟩ := d.sendReq_cases peer m p
  · rwa [hport]
  · rcases hcases with ⟨-, -, -, -, hvcs⟩ | ⟨-, -, -, hvcs⟩
    · refine ⟨fun k => ?_, fun k => ?_⟩ <;> rw [DownstreamPort.buffer, hvcs]
      · exact h.coherent k
      · exact h.range k
    · have hbuffer := DownstreamPort.buffer_of_set hget hvcs
      have hmem : ∀ x ∈ (vi.offer p).2.buffer, x ∈ d.buffer i ∨ x = p := by
        intro x hx
        rw [vi.buffer_offer] at hx
        rw [DownstreamPort.buffer_of_getElem? hget]
        split_ifs at hx
        · simpa using hx
        · exact .inl hx
      refine ⟨fun k x hx => ?_, fun k hne => ?_⟩
      · rw [hbuffer] at hx
        by_cases hk : k = i
        · subst hk
          rw [update_self] at hx
          rcases hmem x hx with hold | rfl
          · exact h.coherent k x hold
          · rw [← hm, hi]
        · rw [update_of_ne hk] at hx
          exact h.coherent k x hx
      · rw [hlen]
        by_cases hk : k = i
        · rwa [hk]
        · rw [hbuffer, update_of_ne hk] at hne
          exact h.range k hne

theorem Placed.tick (h : Placed vcId d) (hm : ∀ x, (m.packet x).vcId = vcId x)
    (peer : ℕ → Bool) : Placed vcId (d.tick peer m).1 := by
  have hc : d.Coherent m := fun k p hp => (hm p).trans (h.coherent k p hp)
  obtain ⟨hvcs, -⟩ := DownstreamPort.tick_coherent hc peer
  have hlen : (d.tick peer m).1.outputVcs.length = d.outputVcs.length :=
    DownstreamPort.length_tickFrom ..
  refine ⟨fun k p hp => ?_, fun k hne => ?_⟩
  · rw [← hm]
    exact hc.tick peer k p hp
  · rw [hlen]
    obtain ⟨p, hp⟩ := List.exists_mem_of_ne_nil _ hne
    rw [DownstreamPort.buffer, hvcs] at hp
    cases hvc : d.outputVcs[k]? with
    | none => simp [hvc] at hp
    | some vc =>
      simp only [hvc, Option.map_some, Option.getD_some] at hp
      apply h.range k
      rw [DownstreamPort.buffer_of_getElem? hvc]
      exact List.ne_nil_of_mem ((vc.mem_buffer_retry _ p).mp hp)

theorem Placed.step (h : Placed vcId s.port) (hm : ∀ x, (c.mem.packet x).vcId = vcId x) :
    Placed vcId (s.step c).port := by
  cases c with
  | sendReq m peer p => exact h.sendReq hm peer p
  | tick m peer => exact h.tick hm peer

theorem placed_exec (h : Placed vcId d) (hm : ∀ c ∈ calls, ∀ x, (c.mem.packet x).vcId = vcId x) :
    Placed vcId (exec d calls).port :=
  List.foldlRecOn calls step (motive := fun s => Placed vcId s.port) h
    fun _ hs c hc => hs.step (hm c hc)

theorem placed_new (i : ℕ) (outSizes priorities : List ℕ) (label : String) :
    Placed vcId (.new i outSizes priorities label) := by
  have hempty : ∀ k, (DownstreamPort.new i outSizes priorities label).buffer k = [] := by
    intro k
    simp only [DownstreamPort.buffer, DownstreamPort.new, List.getElem?_mapIdx, Option.map_map]
    cases outSizes[k]? <;> rfl
  refine ⟨fun k p hp => ?_, fun k hne => absurd (hempty k) hne⟩
  rw [hempty] at hp
  cases hp

theorem add_one_ne (n : UInt64) : n + 1 ≠ n := by
  intro heq
  have hone : n + 1 - n = 0 := by rw [heq, UInt64.sub_self]
  rw [UInt64.add_comm, UInt64.add_sub_cancel] at hone
  cases hone

/-- A retry counts a packet as forwarded that the peer has not got, or a drop that was no call of a
producer. -/
theorem retry_not_truthful (h : s.AllTruthful) (hplaced : Placed vcId s.port)
    (hm : ∀ x, (m.packet x).vcId = vcId x) {peer : ℕ → Bool} (hne : s.port.buffer k ≠ []) :
    ¬ (s.step (.tick m peer)).AllTruthful := by
  intro hafter
  -- the packets are where their `vc_id` says, so the tick is a retry of each VC
  have hc : s.port.Coherent m := fun k p hp => (hm p).trans (hplaced.coherent k p hp)
  obtain ⟨hvcs, hlog⟩ := DownstreamPort.tick_coherent hc peer
  have hforwarded : (s.step (.tick m peer)).forwarded k = s.forwarded k := by
    have hnone : (s.port.tick peer m).2.filter (fun a => a.vc = k ∧ a.delivered) = [] := by
      apply List.filter_eq_nil_iff.mpr
      intro a ha
      simp [hlog a ha]
    show s.forwarded k ++ List.map _ (List.filter _ _) = _
    rw [hnone]
    exact List.append_nil _
  cases hvc : s.port.outputVcs[k]? with
  | none => simp [DownstreamPort.buffer, hvc] at hne
  | some vc =>
    have hbefore := h k vc hvc
    have hlater := hafter k (vc.retry true) ((hvcs k).trans (by rw [hvc, hplaced.range k hne]; rfl))
    rw [DownstreamPort.buffer_of_getElem? hvc] at hne
    by_cases hfull : vc.capacity ≤ vc.buffer.length
    · rw [OutputVC.retry_of_full hne hfull] at hlater
      exact add_one_ne _ (hlater.dropped.trans hbefore.dropped.symm)
    · have hsame := hlater.forwarded
      rw [OutputVC.forwarded_retry hne hfull, hforwarded, ← hbefore.forwarded] at hsame
      exact add_one_ne _ hsame

/-- A `vc_id` of an existing VC that the range check does not admit is refused without a drop. -/
theorem uncounted_not_truthful (h : s.AllTruthful) {peer : Bool} {p : PacketPtr}
    (hk : k < s.port.outputVcs.length) (hp : (m.packet p).vcId = k)
    (hout : vcInRange k s.port.outputVcs.length = false) :
    ¬ (s.step (.sendReq m peer p)).AllTruthful := by
  intro hafter
  obtain ⟨-, -, hfalse⟩ := history_sendReq s m peer p k
  have hrefuse : (s.port.sendReq peer m p).answer = false ∧
      (s.port.sendReq peer m p).port = s.port := by
    obtain ⟨-, ⟨hno, -, -, hport⟩ | ⟨i, -, hi, hr, -⟩⟩ := s.port.sendReq_cases peer m p
    · exact ⟨hno, hport⟩
    · obtain rfl : k = i := Int.ofNat.inj (hp.symm.trans hi)
      rw [hout] at hr
      cases hr
  have hvc : s.port.outputVcs[k]? = some s.port.outputVcs[k] := List.getElem?_eq_getElem hk
  have hbefore := (h k _ hvc).dropped
  have hlater := (hafter k s.port.outputVcs[k] (by
    show (s.port.sendReq peer m p).port.outputVcs[k]? = _
    rw [hrefuse.2, hvc])).dropped
  rw [(hfalse hp hrefuse.1).2, UInt64.ofNat_add, ← hbefore] at hlater
  exact add_one_ne _ hlater.symm

/-- In a run in which no tick finds a packet to retry, and no `vc_id` of an existing VC is refused
by the range check, the statistics are truthful in every state. While nobody changes the `vc_id`
of a packet there is no other such run. -/
theorem output_accounting_iff (i : ℕ) (outSizes priorities : List ℕ) (label : String)
    (calls : List OutputCall) :
    (HarmlessRun (.new i outSizes priorities label) calls →
        TruthfulRun (.new i outSizes priorities label) calls) ∧
      ∀ vcId : PacketPtr → ℤ, (∀ c ∈ calls, ∀ x, (c.mem.packet x).vcId = vcId x) →
        TruthfulRun (.new i outSizes priorities label) calls →
        HarmlessRun (.new i outSizes priorities label) calls := by
  constructor
  · intro hsafe pre hpre
    exact (agrees_exec (agrees_new i outSizes priorities label)
      fun pre' c hpre' => hsafe pre' c (hpre'.trans hpre)).allTruthful
  · intro vcId hm htrue pre c hpre
    have hbefore := htrue pre ((List.prefix_append ..).trans hpre)
    have hafter := htrue _ hpre
    rw [exec_concat] at hafter
    have hc : ∀ x, (c.mem.packet x).vcId = vcId x := hm c (hpre.subset (by simp))
    cases c with
    | sendReq m peer p =>
      intro k hk hp
      by_contra hout
      exact uncounted_not_truthful hbefore hk hp (Bool.eq_false_iff.mpr hout) hafter
    | tick m peer =>
      intro k
      by_contra hne
      have hplaced := placed_exec (placed_new i outSizes priorities label)
        fun c hc => hm c (((List.prefix_append ..).trans hpre).subset hc)
      exact retry_not_truthful hbefore hplaced hc hne hafter

theorem harmlessRun_nil (d : DownstreamPort) : HarmlessRun d [] := by
  intro pre c hpre
  simp at hpre

theorem harmlessRun_concat (h : HarmlessRun d calls) (hc : (exec d calls).Harmless c) :
    HarmlessRun d (calls ++ [c]) := ExceptFold.forall_step_concat h hc

def busyPeer : List OutputCall :=
  [.sendReq ⟨fun _ => {}, fun _ => ⟨0, 0⟩⟩ true 0] ++ [.sendReq ⟨fun _ => {}, fun _ => ⟨0, 0⟩⟩ false 1] ++
    [.sendReq ⟨fun _ => {}, fun _ => ⟨0, 0⟩⟩ false 2]

theorem output_accounting_busyPeer :
    TruthfulRun (.new 0 [1] [] "") busyPeer ∧ HarmlessRun (.new 0 [1] [] "") busyPeer := by
  have hsafe : HarmlessRun (.new 0 [1] [] "") busyPeer := by
    refine harmlessRun_concat (harmlessRun_concat (harmlessRun_concat (harmlessRun_nil _) ?_) ?_) ?_
    all_goals
      intro k hk _
      obtain rfl : k = 0 := Nat.lt_one_iff.mp hk
      rfl
  have htrue := (output_accounting_iff 0 [1] [] "" busyPeer).1 hsafe
  refine ⟨htrue, (output_accounting_iff 0 [1] [] "" busyPeer).2 (fun _ => 0) ?_ htrue⟩
  intro c hc x
  simp only [busyPeer, List.cons_append, List.nil_append, List.mem_cons, List.not_mem_nil,
    or_false] at hc
  rcases hc with rfl | rfl | rfl <;> rfl

/-- A packet that the peer did not take is buffered, and the tick counts it as forwarded although
it is still there. -/
theorem retried_counted_forwarded : ¬ TruthfulRun (.new 0 [2] [] "")
    [.sendReq ⟨fun _ => {}, fun _ => ⟨0, 0⟩⟩ false 0,
      .tick ⟨fun _ => {}, fun _ => ⟨0, 0⟩⟩ fun _ => true] := by
  intro h
  have hforwarded := (h _ List.prefix_rfl 0 _ rfl).forwarded
  exact absurd hforwarded (by decide)

end OutputRun
end GemSc
