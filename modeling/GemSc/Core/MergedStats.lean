import GemSc.Core.PortManager

/-! `PortStats::merge` and the totals of a `PortManager`. What a port does to its statistics is to
merge something into them, so that it does not matter which port of a kind did it. -/

namespace GemSc

namespace PortStats

def reset (_s : PortStats) : PortStats where
  reqCount := 0
  respCount := 0
  byteCount := 0
  totalDelay := 0
  minDelay := 0xFFFFFFFFFFFFFFFF
  maxDelay := 0
  creditSent := 0
  creditReceived := 0
  creditValue := 0

def merge (s other : PortStats) : PortStats where
  reqCount := s.reqCount + other.reqCount
  respCount := s.respCount + other.respCount
  byteCount := s.byteCount + other.byteCount
  totalDelay := s.totalDelay + other.totalDelay
  creditSent := s.creditSent + other.creditSent
  creditReceived := s.creditReceived + other.creditReceived
  creditValue := s.creditValue + other.creditValue
  minDelay := if other.minDelay < s.minDelay then other.minDelay else s.minDelay
  maxDelay := if other.maxDelay > s.maxDelay then other.maxDelay else s.maxDelay

theorem toNat_minDelay_merge (s other : PortStats) :
    (s.merge other).minDelay.toNat = min s.minDelay.toNat other.minDelay.toNat := by
  rw [min_comm, min_def_lt]
  exact (apply_ite UInt64.toNat _ _ _).trans (if_congr UInt64.lt_iff_toNat_lt rfl rfl)

theorem toNat_maxDelay_merge (s other : PortStats) :
    (s.merge other).maxDelay.toNat = max s.maxDelay.toNat other.maxDelay.toNat := by
  rw [max_def_lt]
  exact (apply_ite UInt64.toNat _ _ _).trans (if_congr UInt64.lt_iff_toNat_lt rfl rfl)

attribute [ext] PortStats

theorem eq_of_counters {s t : PortStats} (hreq : s.reqCount = t.reqCount)
    (hresp : s.respCount = t.respCount) (hbyte : s.byteCount = t.byteCount)
    (htotal : s.totalDelay = t.totalDelay) (hmin : s.minDelay.toNat = t.minDelay.toNat)
    (hmax : s.maxDelay.toNat = t.maxDelay.toNat) (hsent : s.creditSent = t.creditSent)
    (hreceived : s.creditReceived = t.creditReceived) (hvalue : s.creditValue = t.creditValue) :
    s = t :=
  PortStats.ext hreq hresp hbyte htotal (UInt64.toNat_inj.mp hmin) (UInt64.toNat_inj.mp hmax) hsent
    hreceived hvalue

theorem merge_assoc (a b c : PortStats) : (a.merge b).merge c = a.merge (b.merge c) := by
  apply eq_of_counters
  case hmin =>
    simp only [toNat_minDelay_merge]
    exact min_assoc ..
  case hmax =>
    simp only [toNat_maxDelay_merge]
    exact max_assoc ..
  all_goals exact UInt64.add_assoc ..

theorem merge_comm (a b : PortStats) : a.merge b = b.merge a := by
  apply eq_of_counters
  case hmin =>
    simp only [toNat_minDelay_merge]
    exact min_comm ..
  case hmax =>
    simp only [toNat_maxDelay_merge]
    exact max_comm ..
  all_goals exact UInt64.add_comm ..

theorem merge_fresh (a : PortStats) : a.merge {} = a := by
  apply eq_of_counters
  case hmin =>
    rw [toNat_minDelay_merge]
    exact min_eq_left (Nat.le_of_lt_succ a.minDelay.toNat_lt)
  case hmax =>
    rw [toNat_maxDelay_merge]
    exact max_eq_left (Nat.zero_le _)
  all_goals exact UInt64.add_zero _

instance : Add PortStats := ⟨merge⟩

instance : Zero PortStats := ⟨{}⟩

instance : AddCommMonoid PortStats where
  nsmul := nsmulRec
  add_assoc := merge_assoc
  add_comm := merge_comm
  zero_add a := (merge_comm {} a).trans (merge_fresh a)
  add_zero := merge_fresh

end PortStats

namespace PortStats
variable {f g : PortStats → PortStats}

def Adds (f : PortStats → PortStats) : Prop := ∀ s, f s = s + f 0

theorem Adds.comp (hg : Adds g) (hf : Adds f) : Adds fun s => g (f s) := by
  intro s
  change g (f s) = s + g (f 0)
  rw [hg (f s), hf s, hg (f 0), add_assoc]

theorem adds_id : Adds fun s => s := fun s => (add_zero s).symm

theorem toNat_minDelay_record (s : PortStats) (delay : UInt64) :
    (s.recordDelay delay).minDelay.toNat = min delay.toNat s.minDelay.toNat := by
  rw [min_def_lt]
  exact (apply_ite UInt64.toNat _ _ _).trans (if_congr UInt64.lt_iff_toNat_lt rfl rfl)

theorem toNat_maxDelay_record (s : PortStats) (delay : UInt64) :
    (s.recordDelay delay).maxDelay.toNat = max delay.toNat s.maxDelay.toNat := by
  rw [max_comm, max_def_lt]
  exact (apply_ite UInt64.toNat _ _ _).trans (if_congr UInt64.lt_iff_toNat_lt rfl rfl)

theorem adds_recordDelay (delay : UInt64) : Adds fun s => s.recordDelay delay := by
  have htop : delay.toNat ≤ (0 : PortStats).minDelay.toNat := Nat.le_of_lt_succ delay.toNat_lt
  have hbottom : (0 : PortStats).maxDelay.toNat ≤ delay.toNat := Nat.zero_le _
  intro s
  apply eq_of_counters
  case hmin =>
    change _ = (s.merge _).minDelay.toNat
    rw [toNat_minDelay_merge, toNat_minDelay_record, toNat_minDelay_record, min_eq_left htop,
      min_comm]
  case hmax =>
    change _ = (s.merge _).maxDelay.toNat
    rw [toNat_maxDelay_merge, toNat_maxDelay_record, toNat_maxDelay_record, max_eq_left hbottom,
      max_comm]
  case htotal => exact congrArg (s.totalDelay + ·) (UInt64.zero_add delay).symm
  all_goals exact (UInt64.add_zero _).symm

theorem adds_counters (req resp bytes sent received : UInt64) : Adds fun s => { s with
    reqCount := s.reqCount + req
    respCount := s.respCount + resp
    byteCount := s.byteCount + bytes
    creditSent := s.creditSent + sent
    creditReceived := s.creditReceived + received } := by
  intro s
  have hs := merge_fresh s
  apply eq_of_counters
  case hmin => exact congrArg (·.minDelay.toNat) hs.symm
  case hmax => exact congrArg (·.maxDelay.toNat) hs.symm
  case htotal => exact (UInt64.add_zero _).symm
  case hvalue => exact (UInt64.add_zero _).symm
  all_goals exact congrArg (_ + ·) (UInt64.zero_add _).symm

end PortStats

inductive PortKind where
  | master
  | slave
  deriving DecidableEq

/-- What changes the statistics of a port: a packet that it receives at a cycle, and `send` of a
`MasterPort` or `sendResp` of a `SlavePort`. -/
inductive PortUpdate where
  | recv (now : UInt64) (p : PacketPtr)
  | send (p : PacketPtr)

namespace PortUpdate
open PortStats
variable {m : Memory} {p : PacketPtr}

def act : PortKind → PortUpdate → Memory → PortStats → Memory × PortStats
  | .master, .recv now p, m, s => MasterPort.updateStats now p m s
  | .master, .send p, m, s => (m, MasterPort.countSent m p s)
  | .slave, .recv now p, m, s => SlavePort.updateStats now p m s
  | .slave, .send p, m, s => (m, SlavePort.countResponse m p s)

def memory : PortUpdate → Memory → Memory
  | .recv now p, m => m.setDstCycle p now
  | .send _, m => m

def share (k : PortKind) (u : PortUpdate) (m : Memory) : PortStats := (u.act k m 0).2

theorem adds_req (bytes : UInt64) : Adds fun s =>
    { s with reqCount := s.reqCount + 1, byteCount := s.byteCount + bytes } := by
  simpa only [UInt64.add_zero] using adds_counters 1 0 bytes 0 0

theorem adds_resp (bytes : UInt64) : Adds fun s =>
    { s with respCount := s.respCount + 1, byteCount := s.byteCount + bytes } := by
  simpa only [UInt64.add_zero] using adds_counters 0 1 bytes 0 0

theorem adds_masterReceived : Adds (MasterPort.countReceived m p) := by
  unfold MasterPort.countReceived
  split
  · split
    · exact adds_resp _
    · exact (adds_recordDelay _).comp (adds_resp _)
  · split
    · simpa only [UInt64.add_zero] using adds_counters 0 0 0 0 1
    · exact adds_id

theorem adds_masterSent : Adds (MasterPort.countSent m p) := by
  unfold MasterPort.countSent
  split
  · exact adds_req _
  · split
    · simpa only [UInt64.add_zero] using adds_counters 0 0 0 1 0
    · exact adds_id

theorem adds_slaveReceived : Adds (SlavePort.countReceived m p) := by
  have hdelay : Adds fun s => if (m.packet p).originalReq.isSome && !(m.packet p).isCredit then
      s.recordDelay (m.packet p).getDelayCycles else s := by
    split
    · exact adds_recordDelay _
    · exact adds_id
  have hcount : Adds fun s => if (m.packet p).isRequest then
      { s with reqCount := s.reqCount + 1, byteCount := s.byteCount + m.dataLength p }
      else if (m.packet p).isStream then { s with reqCount := s.reqCount + 1 } else s := by
    split
    · exact adds_req _
    · split
      · simpa only [UInt64.add_zero] using adds_counters 1 0 0 0 0
      · exact adds_id
  exact hcount.comp hdelay

theorem act_eq (k : PortKind) (u : PortUpdate) (m : Memory) (s : PortStats) :
    u.act k m s = (u.memory m, s + u.share k m) := by
  cases k <;> cases u
  · exact Prod.ext rfl (adds_masterReceived s)
  · exact Prod.ext rfl (adds_masterSent s)
  · exact Prod.ext rfl (adds_slaveReceived s)
  · exact Prod.ext rfl (adds_resp _ s)

end PortUpdate

namespace PortTable
variable {P : Type} {label : P → String}

def mapIdx (t : PortTable P label) (f : ℕ → P → P) (hf : ∀ i p, label (f i p) = label p) :
    PortTable P label where
  ports := t.ports.mapIdx f
  byLabel := t.byLabel
  labelled := by
    intro l i h
    obtain ⟨p, hp, hl⟩ := t.labelled l i h
    refine ⟨f i p, ?_, (hf i p).trans hl.1, hl.2⟩
    rw [List.getElem?_mapIdx, hp]
    rfl

end PortTable

namespace PortManager

def getUpstreamStats (pm : PortManager) : PortStats :=
  pm.upstream.ports.foldl (fun total p => total.merge p.stats) {}

def getDownstreamStats (pm : PortManager) : PortStats :=
  pm.downstream.ports.foldl (fun total p => total.merge p.stats) {}

def mapUpstreamStats (pm : PortManager) (f : ℕ → PortStats → PortStats) : PortManager :=
  { pm with
    upstream := pm.upstream.mapIdx (fun i p => { p with stats := f i p.stats }) fun _ _ => rfl }

def mapDownstreamStats (pm : PortManager) (f : ℕ → PortStats → PortStats) : PortManager :=
  { pm with
    downstream := pm.downstream.mapIdx (fun i p => { p with stats := f i p.stats }) fun _ _ => rfl }

def resetAllStats (pm : PortManager) : PortManager :=
  (pm.mapUpstreamStats fun _ s => s.reset).mapDownstreamStats fun _ s => s.reset

end PortManager

inductive StatsStep (upstream downstream : ℕ) where
  | upstream (i : Fin upstream) (u : PortUpdate)
  | downstream (i : Fin downstream) (u : PortUpdate)
  | outside (m : Memory)

namespace StatsStep
variable {a b : ℕ}

def onPorts (s : Memory × PortManager) : StatsStep a b → Memory × PortManager
  | .upstream i u => (u.memory s.1, s.2.mapUpstreamStats fun j t =>
      if j = i then (u.act .slave s.1 t).2 else t)
  | .downstream i u => (u.memory s.1, s.2.mapDownstreamStats fun j t =>
      if j = i then (u.act .master s.1 t).2 else t)
  | .outside m => (m, s.2)

def onOne (s : Memory × PortStats × PortStats) : StatsStep a b → Memory × PortStats × PortStats
  | .upstream _ u => (u.memory s.1, (u.act .slave s.1 s.2.1).2, s.2.2)
  | .downstream _ u => (u.memory s.1, s.2.1, (u.act .master s.1 s.2.2).2)
  | .outside m => (m, s.2)

end StatsStep

namespace PortManager
open PortUpdate
variable {pm pm' : PortManager}

def upstreamStats (pm : PortManager) : List PortStats := pm.upstream.ports.map (·.stats)

def downstreamStats (pm : PortManager) : List PortStats := pm.downstream.ports.map (·.stats)

theorem getUpstreamStats_eq (pm : PortManager) : pm.getUpstreamStats = pm.upstreamStats.sum := by
  rw [upstreamStats, List.sum_eq_foldl, List.foldl_map]
  rfl

theorem getDownstreamStats_eq (pm : PortManager) :
    pm.getDownstreamStats = pm.downstreamStats.sum := by
  rw [downstreamStats, List.sum_eq_foldl, List.foldl_map]
  rfl

theorem upstreamStats_map (pm : PortManager) (f : ℕ → PortStats → PortStats) :
    (pm.mapUpstreamStats f).upstreamStats = pm.upstreamStats.mapIdx f := by
  unfold upstreamStats mapUpstreamStats PortTable.mapIdx
  apply List.ext_getElem?
  intro i
  simp only [List.getElem?_map, List.getElem?_mapIdx, Option.map_map, Function.comp_def]

theorem downstreamStats_map (pm : PortManager) (f : ℕ → PortStats → PortStats) :
    (pm.mapDownstreamStats f).downstreamStats = pm.downstreamStats.mapIdx f := by
  unfold downstreamStats mapDownstreamStats PortTable.mapIdx
  apply List.ext_getElem?
  intro i
  simp only [List.getElem?_map, List.getElem?_mapIdx, Option.map_map, Function.comp_def]

end PortManager

theorem sum_mapIdx_add {M : Type*} [AddCommMonoid M] (l : List M) (d : M) {i : ℕ}
    (hi : i < l.length) : (l.mapIdx fun j t => if j = i then t + d else t).sum = l.sum + d := by
  induction l generalizing i with
  | nil => cases hi
  | cons t l ih =>
    rw [List.mapIdx_cons, List.sum_cons, List.sum_cons]
    cases i with
    | zero =>
      have hrest : (l.mapIdx fun j t => if j + 1 = 0 then t + d else t) = l := by
        apply List.ext_getElem?
        intro j
        simp [List.getElem?_mapIdx]
      rw [hrest, if_pos rfl, add_right_comm]
    | succ i =>
      have hrest := ih (Nat.lt_of_succ_lt_succ hi)
      simp only [Nat.succ_inj, hrest, (Nat.succ_ne_zero i).symm, if_false]
      exact (add_assoc _ _ _).symm

namespace StatsStep
open PortManager PortUpdate
variable {a b : ℕ}

structure Agrees (a b : ℕ) (s : Memory × PortManager) (t : Memory × PortStats × PortStats) :
    Prop where
  memory : s.1 = t.1
  ports : s.2.upstreamStats.length = a ∧ s.2.downstreamStats.length = b
  upstream : s.2.upstreamStats.sum = t.2.1
  downstream : s.2.downstreamStats.sum = t.2.2

theorem Agrees.step {s : Memory × PortManager} {t : Memory × PortStats × PortStats}
    (h : Agrees a b s t) (x : StatsStep a b) : Agrees a b (onPorts s x) (onOne t x) := by
  obtain ⟨m, pm⟩ := s
  obtain ⟨m', one⟩ := t
  obtain rfl : m = m' := h.memory
  cases x with
  | upstream i u =>
    have hmap : (pm.mapUpstreamStats fun j t =>
        if j = i then (u.act .slave m t).2 else t).upstreamStats =
        pm.upstreamStats.mapIdx fun j t => if j = i then t + u.share .slave m else t := by
      simp only [upstreamStats_map, act_eq]
    refine ⟨rfl, ⟨?_, h.ports.2⟩, ?_, h.downstream⟩
    · change (pm.mapUpstreamStats _).upstreamStats.length = a
      rw [hmap, List.length_mapIdx]
      exact h.ports.1
    · change (pm.mapUpstreamStats _).upstreamStats.sum = (u.act .slave m one.1).2
      rw [hmap, sum_mapIdx_add _ _ (h.ports.1 ▸ i.isLt), act_eq]
      exact congrArg (· + _) h.upstream
  | downstream i u =>
    have hmap : (pm.mapDownstreamStats fun j t =>
        if j = i then (u.act .master m t).2 else t).downstreamStats =
        pm.downstreamStats.mapIdx fun j t => if j = i then t + u.share .master m else t := by
      simp only [downstreamStats_map, act_eq]
    refine ⟨rfl, ⟨h.ports.1, ?_⟩, h.upstream, ?_⟩
    · change (pm.mapDownstreamStats _).downstreamStats.length = b
      rw [hmap, List.length_mapIdx]
      exact h.ports.2
    · change (pm.mapDownstreamStats _).downstreamStats.sum = (u.act .master m one.2).2
      rw [hmap, sum_mapIdx_add _ _ (h.ports.2 ▸ i.isLt), act_eq]
      exact congrArg (· + _) h.downstream
  | outside m'' => exact ⟨rfl, h.ports, h.upstream, h.downstream⟩

theorem Agrees.run {s : Memory × PortManager} {t : Memory × PortStats × PortStats}
    (h : Agrees a b s t) (steps : List (StatsStep a b)) :
    Agrees a b (steps.foldl onPorts s) (steps.foldl onOne t) := by
  induction steps generalizing s t with
  | nil => exact h
  | cons x steps ih => exact ih (h.step x)

end StatsStep

namespace PortManager

theorem mapIdx_reset (l : List PortStats) :
    (l.mapIdx fun _ s => s.reset) = List.replicate l.length 0 := by
  induction l with
  | nil => rfl
  | cons s l ih =>
    rw [List.mapIdx_cons, ih]
    rfl

theorem agrees_reset (pm : PortManager) (m : Memory) :
    StatsStep.Agrees pm.upstream.ports.length pm.downstream.ports.length (m, pm.resetAllStats)
      (m, {}, {}) := by
  have hup : pm.resetAllStats.upstreamStats = List.replicate pm.upstream.ports.length 0 := by
    change (pm.mapUpstreamStats _).upstreamStats = _
    rw [upstreamStats_map, mapIdx_reset, upstreamStats, List.length_map]
  have hdown : pm.resetAllStats.downstreamStats = List.replicate pm.downstream.ports.length 0 := by
    unfold resetAllStats
    rw [downstreamStats_map, mapIdx_reset, downstreamStats, List.length_map]
    rfl
  refine ⟨rfl, ⟨?_, ?_⟩, ?_, ?_⟩
  · exact (congrArg _ hup).trans List.length_replicate
  · exact (congrArg _ hdown).trans List.length_replicate
  · exact (congrArg _ hup).trans ((List.sum_replicate _ _).trans (nsmul_zero _))
  · exact (congrArg _ hdown).trans ((List.sum_replicate _ _).trans (nsmul_zero _))

/-- The total of the ports of a kind is what one port would have after all of the updates, whichever
ports they were made on and in whichever order these stand, and merging is the operation of a
commutative monoid of which the reset statistics are the unit. -/
theorem stats_merge (pm : PortManager) (m : Memory)
    (steps : List (StatsStep pm.upstream.ports.length pm.downstream.ports.length)) :
    let ports := (steps.foldl StatsStep.onPorts (m, pm.resetAllStats)).2
    let one := (steps.foldl StatsStep.onOne (m, {}, {})).2
    (ports.getUpstreamStats = one.1 ∧ ports.getDownstreamStats = one.2) ∧
    (∀ pm' : PortManager, pm'.upstream.ports.Perm ports.upstream.ports →
      pm'.downstream.ports.Perm ports.downstream.ports →
        pm'.getUpstreamStats = one.1 ∧ pm'.getDownstreamStats = one.2) ∧
    (∀ s t u : PortStats, (s.merge t).merge u = s.merge (t.merge u) ∧ s.merge t = t.merge s ∧
      s.merge t.reset = s ∧ t.reset.merge s = s) := by
  have hrun := (agrees_reset pm m).run steps
  refine ⟨⟨?_, ?_⟩, fun pm' hup hdown => ⟨?_, ?_⟩, fun s t u => ⟨?_, ?_, ?_, ?_⟩⟩
  · rw [getUpstreamStats_eq]
    exact hrun.upstream
  · rw [getDownstreamStats_eq]
    exact hrun.downstream
  · rw [getUpstreamStats_eq]
    exact (hup.map _).sum_eq.trans hrun.upstream
  · rw [getDownstreamStats_eq]
    exact (hdown.map _).sum_eq.trans hrun.downstream
  · exact PortStats.merge_assoc s t u
  · exact PortStats.merge_comm s t
  · exact PortStats.merge_fresh s
  · exact (PortStats.merge_comm _ s).trans (PortStats.merge_fresh s)

end PortManager
end GemSc
