import GemSc.Pool.Ownership

/-! Runs of pool calls by users that let packets refer to each other. The pool counts no
references, so a packet is free as soon as it is released itself. -/

namespace GemSc
open Function ExceptFold

/-- The calls a user makes; `write` fills in a packet that he acquired. -/
inductive PoolCall
  | acquire
  | write (p : PacketPtr) (payload : Payload) (srcCycle streamId seqNum : UInt64)
  /-- `p->original_req = q` -/
  | refer (p q : PacketPtr)
  | release (p : PacketPtr)

namespace Arena

def step (s : Arena) : PoolCall → Except MemoryFault Arena
  | .acquire => do
    let r ← s.acquire
    return r.2
  | .write p payload srcCycle streamId seqNum =>
    let r := s.newPayload payload
    .ok (r.2.modify p fun pkt =>
      { pkt with payload := some r.1, srcCycle := srcCycle, streamId := streamId, seqNum := seqNum })
  | .refer p q => .ok (s.modify p fun pkt => { pkt with originalReq := some q })
  | .release p => s.release p

def run (calls : List PoolCall) : Except MemoryFault Arena := calls.foldlM step empty

/-- What the users keep to: only live packets are used, and a packet refers to another one. -/
def Allows (s : Arena) : PoolCall → Prop
  | .acquire => True
  | .write p _ _ _ _ => p ∈ s.live
  | .refer p q => p ∈ s.live ∧ q ∈ s.live ∧ p ≠ q
  | .release p => p ∈ s.live

def Throughout (P : Arena → PoolCall → Prop) (calls : List PoolCall) : Prop :=
  ∀ pre c s, pre ++ [c] <+: calls → run pre = .ok s → P s c

/-- Another live packet has `q` as its original request. -/
def Referenced (s : Arena) (q : PacketPtr) : Prop :=
  ∃ p ∈ s.live, p ≠ q ∧ (s.heap.packet p).originalReq = some q

def ReleasesReferenced (s : Arena) : PoolCall → Prop
  | .release p => s.Referenced p
  | _ => False

structure Protected (s : Arena) : Prop where
  unfreed : ∀ q, s.Referenced q →
    q ∉ s.pool.packetFreelist ∧ q ∉ s.heap.deletedPackets
  unacquired : ∀ q x a, s.Referenced q → s.acquire = .ok (x, a) → x ≠ q
  returned : ∀ q < s.heap.nextPacket, q ∉ s.live → ¬ s.Referenced q →
    q ∈ s.pool.packetFreelist ∨ q ∈ s.heap.deletedPackets

/-- The four fields that the users rely on. -/
def kept (s : Arena) (q : PacketPtr) : UInt64 × Option PayloadPtr × UInt64 × UInt64 :=
  let pkt := s.heap.packet q
  (pkt.srcCycle, pkt.payload, pkt.streamId, pkt.seqNum)

def Preserves (s : Arena) (c : PoolCall) (s' : Arena) : Prop :=
  ∀ q, s.Referenced q → (∀ payload src stream seq, c ≠ .write q payload src stream seq) →
    s'.kept q = s.kept q

/-- Throughout the run nothing faults and every referenced packet is protected. -/
def ReferencesProtected (calls : List PoolCall) : Prop :=
  ∀ pre, pre <+: calls → ∃ s, run pre = .ok s ∧ s.Protected ∧
    ∀ c s', pre ++ [c] <+: calls → s.step c = .ok s' → s.Preserves c s'

structure Sound (s : Arena) : Prop where
  payloads : PayloadsOwned s
  packets : PacketsOwned s
  unshared : ∀ p, ¬ SharesPayload s p
  originals : ∀ p ∈ s.live, ∀ q, (s.heap.packet p).originalReq = some q → q ∈ s.live ∧ q ≠ p

theorem run_concat (calls : List PoolCall) (c : PoolCall) :
    run (calls ++ [c]) = (run calls).bind (·.step c) := by
  rw [run, List.foldlM_append]
  unfold run
  congr 1
  funext s
  simp

variable {s s' : Arena} {c : PoolCall}

theorem Sound.referenced_live (h : s.Sound) {q : PacketPtr} (hq : s.Referenced q) : q ∈ s.live := by
  obtain ⟨p, hp, -, horig⟩ := hq
  exact (h.originals p hp q horig).1

theorem Sound.protected (h : s.Sound) : s.Protected := by
  refine ⟨?_, ?_, ?_⟩
  · intro q hq
    exact (h.packets.held q (h.referenced_live hq)).2
  · rintro q x a hq hacq rfl
    exact h.packets.acquired_not_live (acquired hacq) (h.referenced_live hq)
  · intro q hlt hlive _
    rcases h.packets.placed q hlt with hl | hplace
    · exact absurd hl hlive
    · exact hplace

theorem Sound.acquire (h : s.Sound) :
    ∃ s', s.step .acquire = .ok s' ∧ s'.Sound ∧ s.Preserves .acquire s' := by
  obtain ⟨x, a, hacq⟩ := acquire_ok_of_owned h.payloads h.packets
  have hspec := acquired hacq
  have hnew := h.packets.acquired_not_live hspec
  have hself : a.heap.packet x = {} := by rw [hspec.packet, update_self]
  have hother : ∀ p, p ≠ x → a.heap.packet p = s.heap.packet p := by
    intro p hp
    rw [hspec.packet, update_of_ne hp]
  refine ⟨a, bind_eq_ok.mpr ⟨_, hacq, rfl⟩, ⟨h.payloads.acquire hspec,
    h.packets.acquire hspec, ?_, ?_⟩, ?_⟩
  · rintro p ⟨y, hy, hne, heq, hsome⟩
    have hpx : p ≠ x := by
      rintro rfl
      exact hsome (by rw [hself])
    rcases Finset.mem_insert.mp (hspec.live ▸ hy) with rfl | hy
    · rw [hself] at heq
      exact hsome heq.symm
    · have hyx : y ≠ x := fun hyx => hnew (hyx ▸ hy)
      rw [hother p hpx, hother y hyx] at heq
      rw [hother p hpx] at hsome
      exact h.unshared p ⟨y, hy, hne, heq, hsome⟩
  · intro p hp q hq
    rcases Finset.mem_insert.mp (hspec.live ▸ hp) with rfl | hp
    · rw [hself] at hq
      cases hq
    · rw [hother p fun hpx => hnew (hpx ▸ hp)] at hq
      obtain ⟨hlive, hne⟩ := h.originals p hp q hq
      exact ⟨hspec.live ▸ Finset.mem_insert_of_mem hlive, hne⟩
  · intro q hq _
    have hqx : q ≠ x := fun hqx => hnew (hqx ▸ h.referenced_live hq)
    rw [kept, kept, hother q hqx]

theorem Sound.write (h : s.Sound) {p : PacketPtr} (hp : p ∈ s.live) (payload : Payload)
    (srcCycle streamId seqNum : UInt64) :
    ∃ s', s.step (.write p payload srcCycle streamId seqNum) = .ok s' ∧ s'.Sound ∧
      s.Preserves (.write p payload srcCycle streamId seqNum) s' := by
  have hother : ∀ x, x ≠ p → (s.heap.modify p fun pkt => { pkt with
      payload := some s.heap.nextPayload, srcCycle := srcCycle, streamId := streamId,
      seqNum := seqNum }).packet x = s.heap.packet x :=
    fun x hx => Heap.packet_modify_of_ne _ _ hx
  have hself := Heap.packet_modify_self s.heap p fun pkt => { pkt with
    payload := some s.heap.nextPayload, srcCycle := srcCycle, streamId := streamId,
    seqNum := seqNum }
  have hnew : ∀ x, (s.heap.packet x).payload ≠ some s.heap.nextPayload :=
    fun x hx => lt_irrefl _ (h.payloads.bound x _ hx)
  refine ⟨_, rfl, ⟨?_, (h.packets.newPayload payload).modify _ _, ?_, ?_⟩, ?_⟩
  · refine (h.payloads.newPayload payload).modify (absurd hp) rfl ?_
    rintro q hq
    rw [← Option.some.inj hq]
    exact h.payloads.fresh payload
  · rintro x ⟨y, hy, hne, heq, hsome⟩
    by_cases hx : x = p
    · subst hx
      have hy' := (congrArg Packet.payload (hother y hne)).symm.trans heq
      exact hnew y (hy'.trans (congrArg Packet.payload hself))
    · have hx' := congrArg Packet.payload (hother x hx)
      by_cases hyp : y = p
      · subst hyp
        exact hnew x (hx'.symm.trans (heq.symm.trans (congrArg Packet.payload hself)))
      · have hy' := congrArg Packet.payload (hother y hyp)
        exact h.unshared x ⟨y, hy, hne, hy'.symm.trans (heq.trans hx'), fun hn => hsome (hx'.trans hn)⟩
  · intro x hx q hq
    by_cases hxp : x = p
    · subst hxp
      exact h.originals x hx q ((congrArg Packet.originalReq hself).symm.trans hq)
    · exact h.originals x hx q ((congrArg Packet.originalReq (hother x hxp)).symm.trans hq)
  · intro q _ hwrite
    have hqp : q ≠ p := by
      rintro rfl
      exact hwrite payload srcCycle streamId seqNum rfl
    exact congrArg (fun pkt : Packet => (pkt.srcCycle, pkt.payload, pkt.streamId, pkt.seqNum))
      (hother q hqp)

theorem Sound.refer (h : s.Sound) {p r : PacketPtr} (hp : p ∈ s.live) (hr : r ∈ s.live) (hpr : p ≠ r) :
    ∃ s', s.step (.refer p r) = .ok s' ∧ s'.Sound ∧ s.Preserves (.refer p r) s' := by
  have hpacket : ∀ x, (s.heap.modify p fun pkt => { pkt with originalReq := some r }).packet x =
      { s.heap.packet x with
        originalReq := if x = p then some r else (s.heap.packet x).originalReq } := by
    intro x
    by_cases hx : x = p
    · subst hx
      simp
    · rw [Heap.packet_modify_of_ne _ _ hx, if_neg hx]
  refine ⟨_, rfl, ⟨?_, h.packets.modify _ _, ?_, ?_⟩, ?_⟩
  · exact h.payloads.modify (absurd hp) rfl fun q hq => h.payloads.carried hq
  · rintro x ⟨y, hy, hne, heq, hsome⟩
    have hpay : ∀ x, ((s.heap.modify p fun pkt => { pkt with originalReq := some r }).packet
        x).payload = (s.heap.packet x).payload := fun x => by rw [hpacket]
    exact h.unshared x ⟨y, hy, hne, (hpay y).symm.trans (heq.trans (hpay x)),
      fun hn => hsome ((hpay x).trans hn)⟩
  · intro x hx q hq
    have horig := (congrArg Packet.originalReq (hpacket x)).symm.trans hq
    dsimp only at horig
    split_ifs at horig with hxp
    · obtain rfl := Option.some.inj horig
      exact ⟨hr, hxp ▸ hpr.symm⟩
    · exact h.originals x hx q horig
  · intro q _ _
    have hkept := congrArg
      (fun pkt : Packet => (pkt.srcCycle, pkt.payload, pkt.streamId, pkt.seqNum)) (hpacket q)
    exact hkept

theorem Sound.release (h : s.Sound) {p : PacketPtr} (hp : p ∈ s.live) (hfree : ¬ s.Referenced p) :
    ∃ s', s.step (.release p) = .ok s' ∧ s'.Sound ∧ s.Preserves (.release p) s' := by
  have halive : ∀ r, (s.heap.packet p).originalReq = some r → r ∉ s.heap.deletedPackets :=
    fun r hr => (h.packets.held r (h.originals p hp r hr).1).2.2
  obtain ⟨a, hrel⟩ := release_ok h.payloads.uncounted (h.packets.held p hp).2.2 halive
    fun q hq => (h.payloads.kept p hp q hq).2
  have hspec := released h.payloads.uncounted hrel
  have hother : ∀ x, x ≠ p → a.heap.packet x = s.heap.packet x := by
    intro x hx
    rw [hspec.packet, update_of_ne hx]
  refine ⟨a, hrel,
    ⟨h.payloads.release hspec fun _ => h.unshared p, h.packets.release hspec hp, ?_, ?_⟩, ?_⟩
  · rintro x ⟨y, hy, hne, heq, hsome⟩
    have hxp : x ≠ p := by
      rintro rfl
      rw [hspec.packet, update_self] at hsome
      exact hsome rfl
    obtain ⟨hyp, hylive⟩ := Finset.mem_erase.mp (hspec.live ▸ hy)
    rw [hother x hxp, hother y hyp] at heq
    rw [hother x hxp] at hsome
    exact h.unshared x ⟨y, hylive, hne, heq, hsome⟩
  · intro x hx q hq
    obtain ⟨hxp, hxlive⟩ := Finset.mem_erase.mp (hspec.live ▸ hx)
    rw [hother x hxp] at hq
    obtain ⟨hqlive, hqx⟩ := h.originals x hxlive q hq
    refine ⟨hspec.live ▸ Finset.mem_erase.mpr ⟨?_, hqlive⟩, hqx⟩
    rintro rfl
    exact hfree ⟨x, hxlive, hxp, hq⟩
  · intro q hq _
    have hqp : q ≠ p := by
      rintro rfl
      exact hfree hq
    rw [kept, kept, hother q hqp]

theorem Sound.step (h : s.Sound) (hallow : s.Allows c) (hrel : ¬ s.ReleasesReferenced c) :
    ∃ s', s.step c = .ok s' ∧ s'.Sound ∧ s.Preserves c s' := by
  cases c with
  | acquire => exact h.acquire
  | write p payload srcCycle streamId seqNum => exact h.write hallow payload srcCycle streamId seqNum
  | refer p q => exact h.refer hallow.1 hallow.2.1 hallow.2.2
  | release p => exact h.release hallow hrel

theorem sound_empty : empty.Sound where
  payloads := payloadsOwned_empty
  packets := packetsOwned_empty
  unshared := fun _ ⟨x, hx, _⟩ => absurd hx (Finset.notMem_empty x)
  originals := fun p hp => absurd hp (Finset.notMem_empty p)

theorem Uncounted.step (hu : s.Uncounted) (h : s.step c = .ok s') : s'.Uncounted := by
  cases c with
  | acquire =>
    obtain ⟨⟨x, a⟩, hacq, rfl⟩ := bind_pure_eq_ok.mp h
    exact hu.acquire (acquired hacq)
  | write p payload srcCycle streamId seqNum =>
    obtain rfl := Except.ok.inj h
    have hnew : (s.newPayload payload).2.Uncounted := hu
    exact hnew.modify rfl
  | refer p q =>
    obtain rfl := Except.ok.inj h
    exact hu.modify rfl
  | release p => exact hu.release (released hu h)

theorem uncounted_run {calls : List PoolCall} (h : run calls = .ok s) : s.Uncounted := by
  apply foldlM_invariant (fun s : Arena => s.Uncounted) h
  · intro p
    rfl
  · intro c _ s s' hu hstep
    exact hu.step hstep

theorem Throughout.initial {P : Arena → PoolCall → Prop} {pre calls : List PoolCall}
    (h : Throughout P calls) (hpre : pre <+: calls) : Throughout P pre :=
  fun pre' c s hc => h pre' c s (hc.trans hpre)

theorem throughout_concat {P : Arena → PoolCall → Prop} {calls : List PoolCall}
    (h : Throughout P calls) (hc : ∀ s, run calls = .ok s → P s c) : Throughout P (calls ++ [c]) :=
  each_concat h hc

theorem sound_run {calls : List PoolCall} (hlegal : Throughout Allows calls)
    (hrel : Throughout (fun s c => ¬ s.ReleasesReferenced c) calls) :
    ∃ s, run calls = .ok s ∧ s.Sound := by
  induction calls using List.reverseRecOn with
  | nil => exact ⟨.empty, rfl, sound_empty⟩
  | append_singleton calls c ih =>
    have hpre : calls <+: calls ++ [c] := List.prefix_append _ _
    obtain ⟨s, hrun, hs⟩ := ih (hlegal.initial hpre) (hrel.initial hpre)
    have hlast := List.prefix_refl (calls ++ [c])
    obtain ⟨s', hstep, hs', -⟩ := hs.step (hlegal calls c s hlast hrun) (hrel calls c s hlast hrun)
    exact ⟨s', by rw [run_concat, hrun]; exact hstep, hs'⟩

/-- In a run of allowed calls the referenced packets are protected exactly when no call of the
run releases a packet that another live packet refers to. -/
theorem references_protected_iff {calls : List PoolCall} (hlegal : Throughout Allows calls) :
    ReferencesProtected calls ↔ Throughout (fun s c => ¬ s.ReleasesReferenced c) calls := by
  constructor
  · intro hprot pre c s hpre hrun hc
    cases c with
    | acquire => exact hc
    | write p payload srcCycle streamId seqNum => exact hc
    | refer p q => exact hc
    | release p =>
      obtain ⟨x, hx, hxp, horig⟩ := hc
      obtain ⟨s', hrun', hs', -⟩ := hprot _ hpre
      rw [run_concat, hrun] at hrun'
      have hstep : s.step (.release p) = .ok s' := hrun'
      have hspec := released (uncounted_run hrun) hstep
      -- `x` still refers to `p`, which is free now
      have hstill : s'.Referenced p := by
        refine ⟨x, hspec.live ▸ Finset.mem_erase.mpr ⟨hxp, hx⟩, hxp, ?_⟩
        rw [hspec.packet, update_of_ne hxp]
        exact horig
      obtain ⟨hfree, hdel⟩ := hs'.unfreed p hstill
      rcases hspec.packets with ⟨happ, -⟩ | ⟨-, hins⟩
      · exact hfree (by simp [happ])
      · exact hdel (by simp [hins])
  · intro hrel pre hpre
    obtain ⟨s, hrun, hs⟩ := sound_run (hlegal.initial hpre) (hrel.initial hpre)
    refine ⟨s, hrun, hs.protected, fun c s' hc hstep => ?_⟩
    obtain ⟨s'', hstep', -, hkeep⟩ := hs.step (hlegal pre c s hc hrun) (hrel pre c s hc hrun)
    obtain rfl := Except.ok.inj (hstep.symm.trans hstep')
    exact hkeep

instance (s : Arena) : (c : PoolCall) → Decidable (s.Allows c)
  | .acquire => isTrue trivial
  | .write p _ _ _ _ => inferInstanceAs (Decidable (p ∈ s.live))
  | .refer p q => inferInstanceAs (Decidable (p ∈ s.live ∧ q ∈ s.live ∧ p ≠ q))
  | .release p => inferInstanceAs (Decidable (p ∈ s.live))

instance (s : Arena) : (c : PoolCall) → Decidable (s.ReleasesReferenced c)
  | .acquire => isFalse id
  | .write _ _ _ _ _ => isFalse id
  | .refer _ _ => isFalse id
  | .release q => inferInstanceAs (Decidable
      (∃ p ∈ s.live, p ≠ q ∧ (s.heap.packet p).originalReq = some q))

theorem of_map_run {P : Arena → Prop} [DecidablePred P] {calls : List PoolCall}
    (h : (run calls).map (fun s => decide (P s)) = .ok true) : ∀ s, run calls = .ok s → P s :=
  forall_ok_of_map h

def responseFirst : List PoolCall := [.acquire] ++ [.acquire] ++ [.refer 1 0] ++ [.release 1]

theorem references_protected_iff_demo : ReferencesProtected responseFirst := by
  have hnil : ∀ P, Throughout P [] := fun P pre c s h => by simp at h
  refine (references_protected_iff ?_).mpr ?_
  · refine throughout_concat (throughout_concat (throughout_concat (throughout_concat (hnil _) ?_) ?_) ?_) ?_
    all_goals exact of_map_run rfl
  · refine throughout_concat (throughout_concat (throughout_concat (throughout_concat (hnil _) ?_) ?_) ?_) ?_
    all_goals exact of_map_run rfl

def requestFirst : List PoolCall := [.acquire] ++ [.acquire] ++ [.refer 1 0] ++ [.release 0]

/-- A request is released before the response that refers to it: it is free at once. -/
theorem request_freed_early : Throughout Allows requestFirst ∧ ¬ ReferencesProtected requestFirst := by
  constructor
  · have hnil : ∀ P, Throughout P [] := fun P pre c s h => by simp at h
    refine throughout_concat (throughout_concat (throughout_concat (throughout_concat (hnil _) ?_) ?_) ?_) ?_
    all_goals exact of_map_run rfl
  · intro h
    obtain ⟨s, hrun, hs, -⟩ := h _ (List.prefix_refl _)
    have hfree : ∀ s, run requestFirst = .ok s →
        0 ∈ s.pool.packetFreelist ∧ s.ReleasesReferenced (.release 0) := of_map_run rfl
    exact (hs.unfreed 0 (hfree s hrun).2).1 (hfree s hrun).1

end Arena
end GemSc
