import GemSc.Core.MergedStats

/-! The average delay that `PortStats::toString` reports, against the delays that were recorded. It
divides by the requests that were counted, which need not be as many as the delays. -/

namespace GemSc

namespace PortStats

/-- `avg_delay`, before it is rounded. -/
def avgDelay (s : PortStats) : ℚ :=
  if s.reqCount ≠ 0 then (s.totalDelay.toNat : ℚ) / s.reqCount.toNat else 0

/-- The statistics that `requests` counted requests and the delays `samples` leave. -/
structure Tallies (s : PortStats) (requests : ℕ) (samples : List UInt64) : Prop where
  requests : s.reqCount = UInt64.ofNat requests
  total : s.totalDelay = UInt64.ofNat (samples.map UInt64.toNat).sum
  lower : s.minDelay.toNat = (samples.map UInt64.toNat).foldr min (2 ^ 64 - 1)
  upper : s.maxDelay.toNat = (samples.map UInt64.toNat).foldr max 0

theorem tallies_fresh : Tallies {} 0 [] := ⟨rfl, rfl, rfl, rfl⟩

theorem Tallies.count {s t : PortStats} {n : ℕ} {samples : List UInt64} (h : s.Tallies n samples)
    (hreq : t.reqCount = s.reqCount + 1) (htotal : t.totalDelay = s.totalDelay)
    (hmin : t.minDelay = s.minDelay) (hmax : t.maxDelay = s.maxDelay) :
    t.Tallies (n + 1) samples where
  requests := by rw [hreq, h.requests, UInt64.ofNat_add, UInt64.ofNat_one]
  total := htotal.trans h.total
  lower := hmin ▸ h.lower
  upper := hmax ▸ h.upper

theorem Tallies.record {s : PortStats} {n : ℕ} {samples : List UInt64} (h : s.Tallies n samples)
    (delay : UInt64) : (s.recordDelay delay).Tallies n (delay :: samples) where
  requests := h.requests
  total := by
    change s.totalDelay + delay = _
    rw [h.total, List.map_cons, List.sum_cons, UInt64.ofNat_add, UInt64.ofNat_toNat, add_comm]
  lower := by
    rw [toNat_minDelay_record, h.lower, List.map_cons, List.foldr_cons]
  upper := by
    rw [toNat_maxDelay_record, h.upper, List.map_cons, List.foldr_cons]

theorem Tallies.bounds {s : PortStats} {n : ℕ} {samples : List UInt64} (h : s.Tallies n samples) :
    ∀ d ∈ samples.map UInt64.toNat, s.minDelay.toNat ≤ d ∧ d ≤ s.maxDelay.toNat := by
  rw [h.lower, h.upper]
  generalize samples.map UInt64.toNat = delays
  induction delays with
  | nil => simp
  | cons d delays ih =>
    rw [List.forall_mem_cons, List.foldr_cons, List.foldr_cons]
    refine ⟨⟨min_le_left _ _, le_max_left _ _⟩, fun x hx => ?_⟩
    exact ⟨(min_le_right _ _).trans (ih x hx).1, (ih x hx).2.trans (le_max_right _ _)⟩

end PortStats

namespace PortUpdate

def sample : PortKind → PortUpdate → Memory → Option UInt64
  | .master, .recv now p, m =>
    if (m.packet p).isResponse then
      (m.packet p).originalReq.map fun q => now - (m.packet q).srcCycle
    else none
  | .slave, .recv now p, m =>
    if (m.packet p).originalReq.isSome && !(m.packet p).isCredit then
      some { m.packet p with dstCycle := now }.getDelayCycles
    else none
  | _, .send _, _ => none

def counts : PortKind → PortUpdate → Memory → Bool
  | .master, .send p, m => (m.packet p).isRequest
  | .slave, .recv _ p, m => (m.packet p).isRequest || (m.packet p).isStream
  | _, _, _ => false

section
variable {s : PortStats} {n : ℕ} {samples : List UInt64} {m : Memory} {p : PacketPtr}

theorem tallies_masterReceived (h : s.Tallies n samples) (now : UInt64) :
    (MasterPort.updateStats now p m s).2.Tallies n
      ((sample .master (.recv now p) m).toList ++ samples) := by
  have hself : (m.setDstCycle p now).packet p = { m.packet p with dstCycle := now } := by
    rw [Memory.packet_setDstCycle, if_pos rfl]
  rw [sample]
  by_cases hresp : (m.packet p).isResponse
  · have htype : (m.packet p).type = .resp := of_decide_eq_true hresp
    rw [if_pos hresp]
    cases horig : (m.packet p).originalReq with
    | none =>
      simp only [MasterPort.updateStats, MasterPort.countReceived, hself, Packet.isResponse, htype,
        horig, decide_true, if_true]
      exact ⟨h.requests, h.total, h.lower, h.upper⟩
    | some q =>
      have hcounted : PortStats.Tallies { s with
          respCount := s.respCount + 1
          byteCount := s.byteCount + m.dataLength p } n samples :=
        ⟨h.requests, h.total, h.lower, h.upper⟩
      rw [MasterPort.updateStats_response htype horig]
      exact hcounted.record _
  · rw [if_neg hresp]
    have hresp' : ¬ ((m.setDstCycle p now).packet p).isResponse := by rwa [hself]
    unfold MasterPort.updateStats MasterPort.countReceived
    rw [if_neg hresp']
    split
    · exact ⟨h.requests, h.total, h.lower, h.upper⟩
    · exact h

theorem tallies_masterSent (h : s.Tallies n samples) :
    (MasterPort.countSent m p s).Tallies (n + (m.packet p).isRequest.toNat) samples := by
  unfold MasterPort.countSent
  split
  · rename_i hreq
    rw [hreq]
    exact h.count rfl rfl rfl rfl
  · rename_i hreq
    rw [Bool.eq_false_iff.mpr hreq]
    split
    · exact ⟨h.requests, h.total, h.lower, h.upper⟩
    · exact h

theorem tallies_slaveReceived (h : s.Tallies n samples) (now : UInt64) :
    (SlavePort.updateStats now p m s).2.Tallies
      (n + ((m.packet p).isRequest || (m.packet p).isStream).toNat)
      ((sample .slave (.recv now p) m).toList ++ samples) := by
  have hself : (m.setDstCycle p now).packet p = { m.packet p with dstCycle := now } := by
    rw [Memory.packet_setDstCycle, if_pos rfl]
  have hdelay : (if (m.packet p).originalReq.isSome && !(m.packet p).isCredit then
      s.recordDelay { m.packet p with dstCycle := now }.getDelayCycles else s).Tallies n
      ((sample .slave (.recv now p) m).toList ++ samples) := by
    rw [sample]
    split
    · exact h.record _
    · exact h
  unfold SlavePort.updateStats SlavePort.countReceived
  simp only [hself]
  change PortStats.Tallies (if (m.packet p).isRequest then _ else
    if (m.packet p).isStream then _ else _) _ _
  by_cases hreq : (m.packet p).isRequest
  · rw [if_pos hreq, hreq]
    exact hdelay.count rfl rfl rfl rfl
  · rw [if_neg hreq]
    by_cases hstream : (m.packet p).isStream
    · rw [if_pos hstream, hstream, Bool.or_true]
      exact hdelay.count rfl rfl rfl rfl
    · rw [if_neg hstream, Bool.eq_false_iff.mpr hreq, Bool.eq_false_iff.mpr hstream]
      exact hdelay

end

theorem tallies_act (k : PortKind) (u : PortUpdate) (m : Memory) {s : PortStats} {n : ℕ}
    {samples : List UInt64} (h : s.Tallies n samples) :
    (u.act k m s).2.Tallies (n + (u.counts k m).toNat) ((u.sample k m).toList ++ samples) := by
  cases k <;> cases u
  · exact tallies_masterReceived h _
  · exact tallies_masterSent h
  · exact tallies_slaveReceived h _
  · exact ⟨h.requests, h.total, h.lower, h.upper⟩

end PortUpdate

/-- A step of the owner of a port: an update, or what it writes to packets in between. -/
inductive PortStep where
  | update (u : PortUpdate)
  | outside (m : Memory)

structure PortRun where
  mem : Memory
  stats : PortStats
  requests : ℕ
  samples : List UInt64

namespace PortRun

def step (k : PortKind) (r : PortRun) : PortStep → PortRun
  | .update u =>
    { mem := (u.act k r.mem r.stats).1
      stats := (u.act k r.mem r.stats).2
      requests := r.requests + (u.counts k r.mem).toNat
      samples := (u.sample k r.mem).toList ++ r.samples }
  | .outside m => { r with mem := m }

def run (k : PortKind) (m : Memory) (steps : List PortStep) : PortRun :=
  steps.foldl (step k) ⟨m, PortStats.reset {}, 0, []⟩

structure Unwrapped (r : PortRun) : Prop where
  requests : r.requests < 2 ^ 64
  samples : r.samples.length < 2 ^ 64
  total : (r.samples.map UInt64.toNat).sum < 2 ^ 64

def Averaged (r : PortRun) : Prop :=
  (r.stats.minDelay.toNat : ℚ) ≤ r.stats.avgDelay ∧ r.stats.avgDelay ≤ r.stats.maxDelay.toNat

end PortRun

def Memory.Retimed (m m' : Memory) : Prop :=
  m'.payload = m.payload ∧ ∀ p, ∃ src dst,
    m'.packet p = { m.packet p with srcCycle := src, dstCycle := dst }

inductive PortStep.Retimed : PortStep → PortStep → Prop
  | recv (now now' : UInt64) (p : PacketPtr) :
      Retimed (.update (.recv now p)) (.update (.recv now' p))
  | send (p : PacketPtr) : Retimed (.update (.send p)) (.update (.send p))
  | outside {m m' : Memory} (h : m.Retimed m') : Retimed (.outside m) (.outside m')

namespace PortRun
variable {k : PortKind} {m m' : Memory} {steps steps' : List PortStep} {r r' : PortRun}

theorem tallies_run (k : PortKind) (m : Memory) (steps : List PortStep) :
    (run k m steps).stats.Tallies (run k m steps).requests (run k m steps).samples := by
  unfold run
  induction steps using List.reverseRecOn with
  | nil => exact PortStats.tallies_fresh
  | append_singleton steps a ih =>
    rw [List.foldl_concat]
    cases a with
    | update u => exact PortUpdate.tallies_act k u _ ih
    | outside m' => exact ih

theorem averaged_of_counts (h : r.stats.Tallies r.requests r.samples) (hwrap : r.Unwrapped)
    (hsample : r.samples ≠ []) (hcounts : r.samples.length = r.requests) : r.Averaged := by
  have hpos : 0 < r.requests := hcounts ▸ List.length_pos_iff.mpr hsample
  have hreq : r.stats.reqCount.toNat = r.requests := by
    rw [h.requests, UInt64.toNat_ofNat_of_lt' hwrap.requests]
  have htotal : r.stats.totalDelay.toNat = (r.samples.map UInt64.toNat).sum := by
    rw [h.total, UInt64.toNat_ofNat_of_lt' hwrap.total]
  have hne : r.stats.reqCount ≠ 0 := by
    intro hzero
    rw [hzero] at hreq
    exact hpos.ne hreq
  have hlength : (r.samples.map UInt64.toNat).length = r.requests := by
    rw [List.length_map, hcounts]
  have hlower := List.card_nsmul_le_sum (r.samples.map UInt64.toNat) r.stats.minDelay.toNat
    fun d hd => (h.bounds d hd).1
  have hupper := List.sum_le_card_nsmul (r.samples.map UInt64.toNat) r.stats.maxDelay.toNat
    fun d hd => (h.bounds d hd).2
  rw [hlength, smul_eq_mul, ← htotal] at hlower hupper
  have hpos' : (0 : ℚ) < r.requests := by exact_mod_cast hpos
  unfold Averaged PortStats.avgDelay
  rw [if_pos hne, hreq, le_div_iff₀ hpos', div_le_iff₀ hpos', mul_comm,
    mul_comm (r.stats.maxDelay.toNat : ℚ)]
  exact ⟨by exact_mod_cast hlower, by exact_mod_cast hupper⟩

end PortRun

namespace Memory
variable {m m' : Memory} {p : PacketPtr}

theorem Retimed.refl (m : Memory) : m.Retimed m := ⟨rfl, fun _ => ⟨_, _, rfl⟩⟩

theorem Retimed.setDstCycle (h : m.Retimed m') (p : PacketPtr) (now now' : UInt64) :
    (m.setDstCycle p now).Retimed (m'.setDstCycle p now') := by
  refine ⟨h.1, fun x => ?_⟩
  obtain ⟨src, dst, hx⟩ := h.2 x
  rw [packet_setDstCycle, packet_setDstCycle]
  split
  · rename_i hxp
    rw [← hxp, hx]
    exact ⟨_, _, rfl⟩
  · exact ⟨_, _, hx⟩

end Memory

namespace PortUpdate
variable {k : PortKind} {u u' : PortUpdate} {m m' : Memory}

/-- What an update counts and whether it records a delay do not depend on the cycles. -/
theorem retimed_act (hu : PortStep.Retimed (.update u) (.update u')) (hm : m.Retimed m') :
    u'.counts k m' = u.counts k m ∧ (u'.sample k m').isSome = (u.sample k m).isSome ∧
      (u.memory m).Retimed (u'.memory m') := by
  cases hu with
  | recv now now' p =>
    obtain ⟨src, dst, hp⟩ := hm.2 p
    refine ⟨?_, ?_, hm.setDstCycle p now now'⟩
    · cases k
      · rfl
      · rw [counts, counts, hp]
        rfl
    · cases k
      · rw [sample, sample, hp]
        change (if (m.packet p).isResponse then _ else _ : Option UInt64).isSome = _
        split
        · rw [Option.isSome_map, Option.isSome_map]
        · rfl
      · rw [sample, sample, hp]
        change (if (m.packet p).originalReq.isSome && !(m.packet p).isCredit then _
          else _ : Option UInt64).isSome = _
        split
        · rfl
        · rfl
  | send p =>
    obtain ⟨src, dst, hp⟩ := hm.2 p
    refine ⟨?_, ?_, hm⟩
    · cases k
      · rw [counts, counts, hp]
        rfl
      · rfl
    · cases k
      · rfl
      · rfl

end PortUpdate

namespace PortRun
variable {k : PortKind} {m m' : Memory} {steps steps' : List PortStep} {r r' : PortRun}

structure Alike (r r' : PortRun) : Prop where
  memory : r.mem.Retimed r'.mem
  requests : r'.requests = r.requests
  samples : r'.samples.length = r.samples.length

theorem Alike.step (h : Alike r r') {a a' : PortStep} (ha : a.Retimed a') :
    Alike (r.step k a) (r'.step k a') := by
  have hupdate : ∀ u u', PortStep.Retimed (.update u) (.update u') →
      Alike (r.step k (.update u)) (r'.step k (.update u')) := by
    intro u u' hu
    obtain ⟨hcounts, hsample, hmem⟩ := PortUpdate.retimed_act (k := k) hu h.memory
    refine ⟨?_, ?_, ?_⟩
    · change (u.act k r.mem r.stats).1.Retimed (u'.act k r'.mem r'.stats).1
      rw [PortUpdate.act_eq, PortUpdate.act_eq]
      exact hmem
    · change r'.requests + _ = r.requests + _
      rw [h.requests, hcounts]
    · change ((u'.sample k r'.mem).toList ++ r'.samples).length =
        ((u.sample k r.mem).toList ++ r.samples).length
      rw [List.length_append, List.length_append, Option.length_toList, Option.length_toList,
        hsample, h.samples]
  cases ha with
  | recv now now' p => exact hupdate _ _ (.recv now now' p)
  | send p => exact hupdate _ _ (.send p)
  | outside hm => exact ⟨hm, h.requests, h.samples⟩

theorem alike_run (hm : m.Retimed m') (hsteps : List.Forall₂ PortStep.Retimed steps steps') :
    Alike (run k m steps) (run k m' steps') := by
  have key : ∀ r r' : PortRun, Alike r r' →
      Alike (steps.foldl (step k) r) (steps'.foldl (step k) r') := by
    induction hsteps with
    | nil => exact fun _ _ h => h
    | cons ha _ ih => exact fun r r' h => ih _ _ (h.step ha)
  exact key _ _ ⟨hm, rfl, rfl⟩

end PortRun

def Memory.unit (m : Memory) : Memory :=
  { m with packet := fun p => { m.packet p with srcCycle := 0, dstCycle := 0 } }

def PortStep.unit : PortStep → PortStep
  | .update (.recv _ p) => .update (.recv 1 p)
  | .update (.send p) => .update (.send p)
  | .outside m => .outside m.unit

theorem Memory.retimed_unit (m : Memory) : m.Retimed m.unit := ⟨rfl, fun _ => ⟨0, 0, rfl⟩⟩

theorem PortStep.retimed_unit (a : PortStep) : a.Retimed a.unit := by
  match a with
  | .update (.recv now p) => exact .recv now 1 p
  | .update (.send p) => exact .send p
  | .outside m => exact .outside m.retimed_unit

namespace PortRun
variable {k : PortKind} {m : Memory} {steps : List PortStep} {r : PortRun}

def AllUnit (r : PortRun) : Prop :=
  (∀ p, (r.mem.packet p).srcCycle = 0) ∧ ∀ d ∈ r.samples, d = 1

theorem AllUnit.step (h : r.AllUnit) (a : PortStep) : (r.step k a.unit).AllUnit := by
  match a with
  | .update (.recv now p) =>
    refine ⟨fun x => ?_, ?_⟩
    · change (((PortUpdate.recv 1 p).act k r.mem r.stats).1.packet x).srcCycle = 0
      rw [PortUpdate.act_eq]
      change ((r.mem.setDstCycle p 1).packet x).srcCycle = 0
      rw [Memory.packet_setDstCycle]
      split
      · exact h.1 p
      · exact h.1 x
    · change ∀ d ∈ ((PortUpdate.recv 1 p).sample k r.mem).toList ++ r.samples, d = 1
      rw [List.forall_mem_append]
      refine ⟨fun d hd => ?_, h.2⟩
      have hd := Option.mem_toList.mp hd
      cases k
      · rw [PortUpdate.sample] at hd
        split at hd
        · obtain ⟨q, -, rfl⟩ := Option.map_eq_some_iff.mp hd
          rw [h.1 q, UInt64.sub_zero]
        · cases hd
      · rw [PortUpdate.sample] at hd
        split at hd
        · rw [← Option.some.inj hd]
          unfold Packet.getDelayCycles
          simp only [h.1 p]
          rfl
        · cases hd
  | .update (.send p) =>
    refine ⟨fun x => ?_, ?_⟩
    · change (((PortUpdate.send p).act k r.mem r.stats).1.packet x).srcCycle = 0
      rw [PortUpdate.act_eq]
      exact h.1 x
    · cases k <;> exact h.2
  | .outside m => exact ⟨fun _ => rfl, h.2⟩

theorem allUnit_run (k : PortKind) (m : Memory) (steps : List PortStep) :
    (run k m.unit (steps.map PortStep.unit)).AllUnit := by
  have key : ∀ r : PortRun, r.AllUnit → ((steps.map PortStep.unit).foldl (step k) r).AllUnit := by
    induction steps with
    | nil => exact fun _ h => h
    | cons a steps ih => exact fun r h => ih _ (h.step a)
  exact key _ ⟨fun _ => rfl, fun _ hd => nomatch hd⟩

theorem AllUnit.map_toNat (h : r.AllUnit) :
    r.samples.map UInt64.toNat = List.replicate r.samples.length 1 := by
  rw [List.eq_replicate_iff, List.length_map]
  refine ⟨rfl, fun d hd => ?_⟩
  obtain ⟨x, hx, rfl⟩ := List.mem_map.mp hd
  rw [h.2 x hx]
  rfl

theorem foldr_replicate_one (n : ℕ) :
    (List.replicate (n + 1) 1).foldr min (2 ^ 64 - 1) = 1 ∧
      (List.replicate (n + 1) 1).foldr max 0 = 1 := by
  induction n with
  | zero => exact ⟨rfl, rfl⟩
  | succ n ih =>
    rw [List.replicate_succ, List.foldr_cons, List.foldr_cons, ih.1, ih.2]
    exact ⟨rfl, rfl⟩

theorem counts_of_allUnit (h : r.stats.Tallies r.requests r.samples) (hunit : r.AllUnit)
    (hwrap : r.Unwrapped) (hsample : r.samples ≠ []) (haverage : r.Averaged) :
    r.samples.length = r.requests := by
  obtain ⟨n, hn⟩ : ∃ n, r.samples.length = n + 1 :=
    Nat.exists_eq_succ_of_ne_zero (List.length_pos_iff.mpr hsample).ne'
  have hlower : r.stats.minDelay.toNat = 1 := by
    rw [h.lower, hunit.map_toNat, hn, (foldr_replicate_one n).1]
  have hupper : r.stats.maxDelay.toNat = 1 := by
    rw [h.upper, hunit.map_toNat, hn, (foldr_replicate_one n).2]
  have htotal : r.stats.totalDelay.toNat = r.samples.length := by
    rw [h.total, UInt64.toNat_ofNat_of_lt' hwrap.total, hunit.map_toNat, List.sum_replicate,
      smul_eq_mul, mul_one]
  have hreq : r.stats.reqCount.toNat = r.requests := by
    rw [h.requests, UInt64.toNat_ofNat_of_lt' hwrap.requests]
  have hone : r.stats.avgDelay = 1 := by
    unfold Averaged at haverage
    rw [hlower, hupper, Nat.cast_one] at haverage
    exact le_antisymm haverage.2 haverage.1
  unfold PortStats.avgDelay at hone
  split at hone
  · rw [htotal, hreq] at hone
    exact_mod_cast eq_of_div_eq_one hone
  · exact absurd hone zero_ne_one

/-- The packets of a run have an average within the bounds of their delays at all cycles at which
they may be issued and received, exactly when the port counted as many requests as it recorded
delays. -/
theorem averaged_iff (k : PortKind) (m : Memory) (steps : List PortStep)
    (hsample : (run k m steps).samples ≠ []) (hwrap : (run k m steps).Unwrapped) :
    (∀ m' steps', m.Retimed m' → List.Forall₂ PortStep.Retimed steps steps' →
      (run k m' steps').Unwrapped → (run k m' steps').Averaged) ↔
      (run k m steps).samples.length = (run k m steps).requests := by
  have hsome : ∀ r, Alike (run k m steps) r → r.samples ≠ [] := by
    intro r hr hnil
    have hlength := hr.samples
    rw [hnil] at hlength
    exact hsample (List.length_eq_zero_iff.mp hlength.symm)
  constructor
  · intro h
    have hretimed : List.Forall₂ PortStep.Retimed steps (steps.map PortStep.unit) := by
      rw [List.forall₂_map_right_iff, List.forall₂_same]
      exact fun a _ => a.retimed_unit
    have halike : Alike (run k m steps) (run k m.unit (steps.map PortStep.unit)) :=
      alike_run m.retimed_unit hretimed
    have hunit := allUnit_run k m steps
    have hwrap' : (run k m.unit (steps.map PortStep.unit)).Unwrapped := by
      refine ⟨halike.requests ▸ hwrap.requests, halike.samples ▸ hwrap.samples, ?_⟩
      rw [hunit.map_toNat, List.sum_replicate, smul_eq_mul, mul_one, halike.samples]
      exact hwrap.samples
    rw [← halike.samples, ← halike.requests]
    exact counts_of_allUnit (tallies_run ..) hunit hwrap' (hsome _ halike)
      (h _ _ m.retimed_unit hretimed hwrap')
  · intro hcounts m' steps' hm hsteps hwrap'
    have halike := alike_run (k := k) hm hsteps
    refine averaged_of_counts (tallies_run ..) hwrap' (hsome _ halike) ?_
    rw [halike.samples, halike.requests, hcounts]

def answered : Memory where
  packet p := if p = 2 then { type := .resp, originalReq := some 0 } else {}
  payload _ := ⟨0, 0⟩

theorem averaged_iff_one_response :
    (run .master answered [.update (.send 0), .update (.recv 10 2)]).Averaged := by
  have hwrap : (run .master answered [.update (.send 0), .update (.recv 10 2)]).Unwrapped :=
    ⟨by decide, by decide, by decide⟩
  have hiff :=
    averaged_iff .master answered [.update (.send 0), .update (.recv 10 2)] (by decide) hwrap
  exact hiff.mpr rfl _ _ (Memory.Retimed.refl _)
    (.cons (.send 0) (.cons (.recv 10 10 2) .nil)) hwrap

def twoSent : List PortStep := [.update (.send 0), .update (.send 1), .update (.recv 10 2)]

theorem average_below_minimum : (run .master answered twoSent).samples = [10] ∧
    (run .master answered twoSent).Unwrapped ∧ ¬ (run .master answered twoSent).Averaged := by
  refine ⟨by decide, ⟨by decide, by decide, by decide⟩, fun h => ?_⟩
  have hlower := h.1
  have hmin : (run .master answered twoSent).stats.minDelay.toNat = 10 := rfl
  have havg : (run .master answered twoSent).stats.avgDelay = (10 : ℕ) / (2 : ℕ) :=
    if_pos (by decide)
  rw [hmin, havg] at hlower
  norm_num at hlower

end PortRun
end GemSc
