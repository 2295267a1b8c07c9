import GemSc.Link.Isolation

/-! The delay of a link. `setDelay` stores it in the sending port, `send` does not read it. -/

namespace GemSc.Link

/-- A `sendReq` of the packet goes over the wire and is accepted. -/
def Crosses (l : Link) (p : PacketPtr) : Prop :=
  0 ≤ (l.mem.packet p).vcId ∧ (l.lane (l.mem.packet p).vcId.toNat).Passes

instance (a : Lane) : Decidable a.Passes :=
  inferInstanceAs (Decidable (a.outputInRange ∧ (∃ vo ∈ a.output, vo.buffer = []) ∧
    a.inputInRange ∧ ∃ vi ∈ a.input, ¬ vi.capacity ≤ vi.buffer.length))

instance (l : Link) (p : PacketPtr) : Decidable (l.Crosses p) :=
  inferInstanceAs (Decidable (0 ≤ (l.mem.packet p).vcId ∧
    (l.lane (l.mem.packet p).vcId.toNat).Passes))

def crossing (l : Link) : LinkStep → List (PacketPtr × UInt64)
  | .sendReq o p => if l.Crosses p then [(p, o.now)] else []
  | .downTick _ => []
  | .upTick _ => []

/-- What the input VCs of `l'` hold at their backs beyond what those of `l` held. -/
def arrivals (l l' : Link) : List PacketPtr :=
  (List.range l.up.inputVcs.length).flatMap fun k => (l'.up.buffer k).drop (l.up.buffer k).length

def receipt (l : Link) (a : LinkStep) : List (PacketPtr × UInt64) :=
  (arrivals l (l.step a)).map fun p => (p, a.now)

/-- The delay of the sending port is honoured in the run. -/
structure LatencyHonoured (l : Link) (steps : List LinkStep) : Prop where
  /-- What is sent over the link is received in the same order, the delay later. -/
  received : (l.collect receipt steps).map (fun r => (r.1, (r.2.toNat : ℤ))) =
    (l.collect crossing steps).map fun s => (s.1, s.2.toNat + (l.wires .down).delayCycles)
  stamped : ∀ pre o p post, steps = pre ++ .sendReq o p :: post → (l.exec pre).Crosses p →
    ((((l.exec pre).step (.sendReq o p)).mem.packet p).dstCycle.toNat : ℤ) =
      o.now.toNat + (l.wires .down).delayCycles
  unseen : ∀ pre o p mid o' post, steps = pre ++ .sendReq o p :: (mid ++ .upTick o' :: post) →
    (l.exec pre).Crosses p →
    ∀ f ∈ ((l.exec (pre ++ .sendReq o p :: mid)).upTick o').2, f.packet = p →
      (o.now.toNat : ℤ) + (l.wires .down).delayCycles ≤ o'.now.toNat

variable {l : Link} {p : PacketPtr}

theorem crosses_iff {k : ℕ} (hp : (l.mem.packet p).vcId = k) : l.Crosses p ↔ (l.lane k).Passes := by
  simp [Crosses, hp]

theorem flatMap_range_single {β : Type*} (n k : ℕ) (x : β) :
    ((List.range n).flatMap fun j => if j = k then [x] else []) = if k < n then [x] else [] := by
  induction n with
  | zero => rfl
  | succ n ih =>
    rw [List.range_succ, List.flatMap_append, ih]
    by_cases hk : n = k
    · subst hk
      simp
    · have hlt : k < n + 1 ↔ k < n := by omega
      simp [hk, hlt]

theorem drop_buffer_step (h : l.Sound) (a : LinkStep) (k : ℕ) :
    ((l.step a).up.buffer k).drop (l.up.buffer k).length =
      match a with
      | .sendReq _ p => if (l.mem.packet p).vcId = k ∧ (l.lane k).Passes then [p] else []
      | .downTick _ => []
      | .upTick _ => [] := by
  rw [← inputBuffer_lane (l.step a), ← inputBuffer_lane l, lane_step h]
  cases a with
  | sendReq o p =>
    by_cases hp : (l.mem.packet p).vcId = k
    · by_cases hpass : (l.lane k).Passes
      · simp [hp, hpass, Lane.inputBuffer_sendReq]
      · simp [hp, hpass, Lane.inputBuffer_sendReq]
    · simp [hp]
  | downTick o => simp [Lane.downTick, Lane.inputBuffer]
  | upTick o =>
    show List.drop _ _ = []
    rw [List.drop_eq_nil_iff]
    exact (Lane.inputBuffer_upTick_suffix _ _).length_le

theorem receipt_eq_crossing (h : l.Sound) (a : LinkStep) : l.receipt a = l.crossing a := by
  rw [receipt, arrivals, funext (drop_buffer_step h a)]
  cases a with
  | sendReq o p =>
    by_cases hcross : l.Crosses p
    · have hp : ((l.mem.packet p).vcId.toNat : ℤ) = (l.mem.packet p).vcId := Int.toNat_of_nonneg hcross.1
      have hone : (fun k : ℕ => if (l.mem.packet p).vcId = k ∧ (l.lane k).Passes then [p] else []) =
          fun k => if k = (l.mem.packet p).vcId.toNat then [p] else [] := by
        funext k
        have hiff : ((l.mem.packet p).vcId = k ∧ (l.lane k).Passes) ↔
            k = (l.mem.packet p).vcId.toNat := by
          constructor
          · rintro ⟨hk, -⟩
            omega
          · rintro rfl
            exact ⟨hp.symm, hcross.2⟩
        simp only [hiff]
      have hlt : (l.mem.packet p).vcId.toNat < l.up.inputVcs.length := by
        obtain ⟨-, -, -, vi, hvi, -⟩ := hcross.2
        exact (List.getElem?_eq_some_iff.mp hvi).1
      dsimp only
      rw [hone, flatMap_range_single, if_pos hlt, crossing, if_pos hcross]
      rfl
    · have hnone : (fun k : ℕ => if (l.mem.packet p).vcId = k ∧ (l.lane k).Passes then [p] else []) =
          fun _ => [] := by
        funext k
        refine if_neg ?_
        rintro ⟨hk, hpass⟩
        exact hcross ((crosses_iff hk).mpr hpass)
      dsimp only
      rw [hnone, crossing, if_neg hcross]
      simp
  | downTick o => simp [crossing]
  | upTick o => simp [crossing]

theorem collect_receipt (h : l.Sound) (steps : List LinkStep) :
    l.collect receipt steps = l.collect crossing steps := by
  induction steps generalizing l with
  | nil => rfl
  | cons a steps ih => rw [collect, collect, receipt_eq_crossing h, ih (h.step a)]

theorem sendReq_of_crosses (h : l.Sound) (o : Owners) (hp : l.Crosses p) :
    l.sendReq o p = l.masterSend o p := by
  obtain ⟨hnonneg, hrange, ⟨vo, hvo, hnil⟩, hroom⟩ := hp
  have hcast : ((l.mem.packet p).vcId.toNat : ℤ) = (l.mem.packet p).vcId := Int.toNat_of_nonneg hnonneg
  have hr : vcInRange (l.mem.packet p).vcId l.down.outputVcs.length = true := by
    rw [← hcast]
    exact hrange
  have hvo : l.down.outputVcs[(l.mem.packet p).vcId.toNat]? = some vo := hvo
  have hok : (l.masterSend o p).1 = true := by
    rw [(lane_masterSend_self o h.linked hcast.symm).1]
    exact Lane.recv_fst_iff.mpr hroom
  have hsend : l.masterSend o p = (true, (l.masterSend o p).2) := Prod.ext hok rfl
  rw [sendReq]
  simp only [hr, if_true, hvo, hnil, ne_eq, not_true_eq_false, if_false]
  rw [hsend]

theorem dstCycle_of_crosses (h : l.Sound) (o : Owners) (hp : l.Crosses p) :
    ((l.step (.sendReq o p)).mem.packet p).dstCycle = o.now := by
  rw [step, sendReq_of_crosses h o hp]
  exact dstCycle_masterSend o p h.linked

theorem mem_collect_crossing {pre post steps : List LinkStep} {o : Owners}
    (hsteps : steps = pre ++ .sendReq o p :: post) (hp : (l.exec pre).Crosses p) :
    (p, o.now) ∈ l.collect crossing steps := by
  rw [hsteps, collect_append, collect, crossing, if_pos hp]
  simp

/-- A run honours the delay of the link exactly when the delay is 0, or no `sendReq` of the
run finds its output VC empty and room in the peer VC. -/
theorem latency_honoured_iff {steps : List LinkStep} (h : l.Sound)
    (hcycles : steps.Pairwise fun a b => a.now ≤ b.now) :
    LatencyHonoured l steps ↔ (l.wires .down).delayCycles = 0 ∨ l.collect crossing steps = [] := by
  constructor
  · intro hlat
    by_cases hnone : l.collect crossing steps = []
    · exact .inr hnone
    · -- the first crossing is received in the cycle in which it is sent
      left
      obtain ⟨s, rest, hcons⟩ := List.exists_cons_of_ne_nil hnone
      have hreceived := hlat.received
      rw [collect_receipt h, hcons, List.map_cons, List.map_cons] at hreceived
      have hhead : (s.2.toNat : ℤ) = s.2.toNat + (l.wires .down).delayCycles :=
        (Prod.mk.inj (List.cons.inj hreceived).1).2
      omega
  · rintro (hzero | hnone)
    · refine ⟨?_, ?_, ?_⟩
      · rw [collect_receipt h]
        simp only [hzero, add_zero]
      · intro pre o p post _ hp
        rw [hzero, add_zero, dstCycle_of_crosses (h.exec pre) o hp]
      · intro pre o p mid o' post hsteps _ f _ _
        rw [hzero, add_zero]
        have hlater : o.now ≤ o'.now := by
          rw [hsteps] at hcycles
          have htail := (List.pairwise_append.mp hcycles).2.1
          exact (List.pairwise_cons.mp htail).1 (.upTick o') (by simp)
        exact_mod_cast UInt64.le_iff_toNat_le.mp hlater
    · refine ⟨?_, ?_, ?_⟩
      · rw [collect_receipt h, hnone]
        rfl
      · intro pre o p post hsteps hp
        have hmem := mem_collect_crossing hsteps hp
        rw [hnone] at hmem
        cases hmem
      · intro pre o p mid o' post hsteps hp
        have hmem := mem_collect_crossing hsteps hp
        rw [hnone] at hmem
        cases hmem

def promptLink : Link where
  wires := Function.update pairedWires .down ((pairedWires .down).setDelay 0)
  down := .new 0 [4, 4] [0, 1] ""
  up := .new 0 [1, 1] [0, 1] ""
  mem := ⟨fun p => { vcId := p % 2 }, fun _ => ⟨0, 0⟩⟩

theorem promptLink_sound : promptLink.Sound :=
  Sound.of_empty rfl fun k => by
    rcases k with _ | _ | k <;> exact ⟨rfl, rfl⟩

def promptOwners (now : UInt64) : Owners := ⟨now, fun _ _ => true, fun _ => true⟩

/-- Three packets cross, on both VCs; a fourth finds no place and waits. -/
def promptRun : List LinkStep :=
  [.sendReq (promptOwners 100) 0, .sendReq (promptOwners 100) 1, .upTick (promptOwners 101),
    .sendReq (promptOwners 102) 2, .sendReq (promptOwners 102) 4, .downTick (promptOwners 103),
    .upTick (promptOwners 104)]

theorem latency_honoured_iff_promptRun : LatencyHonoured promptLink promptRun ∧
    promptLink.collect receipt promptRun = [(0, 100), (1, 100), (2, 102)] ∧
    promptLink.collect (offered 0) promptRun = [⟨0, 0, true⟩, ⟨0, 2, true⟩] ∧
    promptLink.collect (offered 1) promptRun = [⟨1, 1, true⟩] :=
  ⟨(latency_honoured_iff promptLink_sound (by decide)).mpr (.inl rfl), rfl, rfl, rfl⟩

def delayedLink : Link where
  wires := Function.update pairedWires .down ((pairedWires .down).setDelay 5)
  down := .new 0 [4] [0] ""
  up := .new 0 [4] [0] ""
  mem := ⟨fun _ => {}, fun _ => ⟨0, 0⟩⟩

/-- A delay of 5 is set and one packet is sent at cycle 100: it arrives at cycle 100. -/
theorem delay_ignored : (delayedLink.wires .down).delayCycles = 5 ∧
    (delayedLink.collect receipt [.sendReq ⟨100, fun _ _ => true, fun _ => true⟩ 0] = [(0, 100)]) ∧
    ¬ LatencyHonoured delayedLink [.sendReq ⟨100, fun _ _ => true, fun _ => true⟩ 0] := by
  refine ⟨rfl, rfl, fun h => ?_⟩
  exact absurd h.received (by decide)

end GemSc.Link
