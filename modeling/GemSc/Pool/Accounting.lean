import GemSc.Pool.Ownership
import GemSc.Pool.Usable

/-! What the counters and the free lists of the pool say in every run of its users, who write
to a packet what they like as long as it is theirs. -/

namespace GemSc
open Function ExceptFold

inductive PoolUse
  | acquire
  | newPayload (value : Payload)
  | write (p : PacketPtr) (f : Packet → Packet)
  | release (p : PacketPtr)

namespace Arena

def start (maxSize : ℕ) : Arena := { empty with pool := { maxSize := maxSize } }

def use (s : Arena) : PoolUse → Except MemoryFault Arena
  | .acquire => do
    let r ← s.acquire
    return r.2
  | .newPayload value => .ok (s.newPayload value).2
  | .write p f => .ok (s.modify p f)
  | .release p => s.release p

/-- Only live packets are written and released. The reference count is private to the pool. -/
def Permits (s : Arena) : PoolUse → Prop
  | .acquire => True
  | .newPayload _ => True
  | .write p f => p ∈ s.live ∧ (f (s.heap.packet p)).refCount = (s.heap.packet p).refCount
  | .release p => p ∈ s.live

/-- No packet gets a payload that is not in use, and a release meets nothing that was deleted. -/
def Careful (s : Arena) : PoolUse → Prop
  | .acquire => True
  | .newPayload _ => True
  | .write p f => ∀ q, (f (s.heap.packet p)).payload = some q →
      q < s.heap.nextPayload ∧ q ∉ s.pool.payloadFreelist ∧ q ∉ s.heap.deletedPayloads
  | .release p => (∀ r, (s.heap.packet p).originalReq = some r → r ∉ s.heap.deletedPackets) ∧
      ¬ SharesPayload s p

def usages (maxSize : ℕ) (uses : List PoolUse) : Set UInt64 :=
  {n | ∃ pre t, pre <+: uses ∧ pre.foldlM use (start maxSize) = .ok t ∧ t.pool.currentUsage = n}

/-- The accounts of the pool after a run. The usage is a `size_t`, so it is exact for as many
packets as have different addresses. -/
structure Accounted (maxSize : ℕ) (uses : List PoolUse) (s : Arena) : Prop where
  usage : s.pool.currentUsage = UInt64.ofNat s.live.card
  exact : s.live.card < 2 ^ 64 → s.pool.currentUsage.toNat = s.live.card
  noUnderflow : s.live.card < 2 ^ 64 → ∀ p ∈ s.live, ∀ t, s.release p = .ok t →
    t.pool.currentUsage.toNat + 1 = s.pool.currentUsage.toNat
  peak : IsGreatest (usages maxSize uses) s.pool.peakUsage
  fresh : ∀ x t, s.acquire = .ok (x, t) → x ∉ s.live
  nodup : s.pool.packetFreelist.Nodup
  apart : ∀ p ∈ s.pool.packetFreelist, p ∉ s.live
  packets : s.pool.packetFreelist.length ≤ maxSize
  payloads : s.pool.payloadFreelist.length ≤ maxSize

/-- What every use keeps. The peak is bounded from below by the live packets, as far as a
counter goes, so that no release can lead above it. -/
structure Balanced (maxSize : ℕ) (s : Arena) : Prop where
  owned : PacketsOwned s
  uncounted : s.Uncounted
  usage : s.pool.currentUsage = UInt64.ofNat s.live.card
  peak : min s.live.card (2 ^ 64 - 1) ≤ s.pool.peakUsage.toNat
  size : s.pool.maxSize = maxSize
  packets : s.pool.packetFreelist.length ≤ maxSize
  payloads : s.pool.payloadFreelist.length ≤ maxSize

variable {a b s t : Arena} {p x : PacketPtr} {c : PoolUse} {maxSize : ℕ} {uses : List PoolUse}

theorem takePacket_pool (a : Arena) :
    a.takePacket.2.pool = { a.pool with packetFreelist := a.pool.packetFreelist.tail } := by
  rcases a.takePacket_cases with ⟨y, rest, hfree, heq⟩ | ⟨hfree, heq⟩
  · rw [heq, hfree]
    rfl
  · have htail : a.pool.packetFreelist.tail = a.pool.packetFreelist := by
      rw [hfree]
      rfl
    rw [heq, htail]

theorem bindPayload_pool (h : a.bindPayload p = .ok b) :
    b.pool = { a.pool with payloadFreelist := a.pool.payloadFreelist.tail } := by
  rcases bindPayload_eq_ok h with ⟨q, rest, hfree, -, rfl⟩ | ⟨hfree, rfl⟩
  · rw [hfree]
    rfl
  · have htail : a.pool.payloadFreelist.tail = a.pool.payloadFreelist := by
      rw [hfree]
      rfl
    rw [htail]
    rfl

theorem acquire_pool (h : a.acquire = .ok (x, b)) :
    b.pool = { a.pool with
      packetFreelist := a.pool.packetFreelist.tail
      payloadFreelist := a.pool.payloadFreelist.tail
      currentUsage := a.pool.currentUsage + 1
      peakUsage := if a.pool.peakUsage < a.pool.currentUsage + 1 then a.pool.currentUsage + 1
        else a.pool.peakUsage } := by
  obtain ⟨taken, bound, h', htake, -, hbind, -, rfl⟩ := acquire_eq_ok h
  have hpool : taken.pool = { a.pool with packetFreelist := a.pool.packetFreelist.tail } := by
    rw [← a.takePacket_pool, htake]
  simp only [countAcquired, bindPayload_pool hbind, hpool]

/-- A release puts an element at the end of a free list only where there is room for it. -/
def Pushed {α : Type} (maxSize : ℕ) (l l' : List α) : Prop :=
  l' = l ∨ l.length < maxSize ∧ ∃ x, l' = l ++ [x]

theorem Pushed.length_le {α : Type} {l l' : List α} (h : Pushed maxSize l l')
    (hl : l.length ≤ maxSize) : l'.length ≤ maxSize := by
  rcases h with rfl | ⟨hlt, x, rfl⟩
  · exact hl
  · rw [List.length_append, List.length_singleton]
    exact hlt

theorem recyclePayload_pool (h : a.recyclePayload p = .ok b) :
    ∃ payloads, Pushed a.pool.maxSize a.pool.payloadFreelist payloads ∧
      b.pool = { a.pool with payloadFreelist := payloads } := by
  unfold recyclePayload at h
  split at h
  · obtain rfl := Except.ok.inj h
    exact ⟨_, .inl rfl, rfl⟩
  · next q hq =>
    obtain ⟨d, hfree, rfl⟩ := bind_pure_eq_ok.mp h
    unfold freePayload at hfree
    split_ifs at hfree with hroom
    · obtain rfl := Except.ok.inj hfree
      exact ⟨_, .inr ⟨hroom, q, rfl⟩, rfl⟩
    · obtain ⟨h', -, rfl⟩ := bind_pure_eq_ok.mp hfree
      exact ⟨_, .inl rfl, rfl⟩

theorem recyclePacket_pool (h : a.recyclePacket p = .ok b) :
    ∃ packets, Pushed a.pool.maxSize a.pool.packetFreelist packets ∧
      b.pool = { a.pool with packetFreelist := packets } := by
  unfold recyclePacket at h
  split_ifs at h with hroom
  · obtain rfl := Except.ok.inj h
    exact ⟨_, .inr ⟨hroom, p, rfl⟩, rfl⟩
  · obtain ⟨h', -, rfl⟩ := bind_pure_eq_ok.mp h
    exact ⟨_, .inl rfl, rfl⟩

theorem release_pool (h : a.release p = .ok b) :
    ∃ packets payloads, Pushed a.pool.maxSize a.pool.packetFreelist packets ∧
      Pushed a.pool.maxSize a.pool.payloadFreelist payloads ∧
      b.pool = { a.pool with
        packetFreelist := packets
        payloadFreelist := payloads
        currentUsage := a.pool.currentUsage - 1 } := by
  obtain ⟨pkt, -, hrest⟩ := bind_eq_ok.mp h
  obtain ⟨d, hdrop, hrest'⟩ := bind_eq_ok.mp hrest
  obtain ⟨e, hpay, hrest''⟩ := bind_eq_ok.mp hrest'
  obtain ⟨h', -, hrest₄⟩ := bind_eq_ok.mp hrest''
  obtain ⟨r, hpacket, rfl⟩ := bind_pure_eq_ok.mp hrest₄
  obtain ⟨hpool, -⟩ := dropReference_frame hdrop
  obtain ⟨payloads, hpushed, he⟩ := recyclePayload_pool hpay
  obtain ⟨packets, hpushed', hr⟩ := recyclePacket_pool hpacket
  have hd : e.pool = { a.pool with payloadFreelist := payloads } := by
    rw [he, ← hpool]
    rfl
  have hr' : r.pool = { e.pool with packetFreelist := packets } := hr
  refine ⟨packets, payloads, ?_, ?_, ?_⟩
  · have hfree : Pushed e.pool.maxSize e.pool.packetFreelist packets := hpushed'
    rwa [hd] at hfree
  · rw [← hpool]
    exact hpushed
  · rw [countReleased, hr', hd]

theorem Balanced.usage_toNat (h : Balanced maxSize s) :
    s.pool.currentUsage.toNat = s.live.card % 2 ^ 64 := by
  rw [h.usage]
  exact UInt64.toNat_ofNat'

theorem Balanced.usage_le_peak (h : Balanced maxSize s) :
    s.pool.currentUsage ≤ s.pool.peakUsage := by
  rw [UInt64.le_iff_toNat_le, h.usage_toNat]
  have hmod : s.live.card % 2 ^ 64 ≤ s.live.card := Nat.mod_le ..
  have hlt : s.live.card % 2 ^ 64 < 2 ^ 64 := Nat.mod_lt _ (by decide)
  exact (le_min hmod (Nat.le_sub_one_of_lt hlt)).trans h.peak

theorem Balanced.acquire (h : Balanced maxSize s) (hacq : s.acquire = .ok (x, t)) :
    Balanced maxSize t := by
  have hspec := acquired hacq
  have hpool := acquire_pool hacq
  have hcard : t.live.card = s.live.card + 1 := by
    rw [hspec.live]
    exact Finset.card_insert_of_notMem (h.owned.acquired_not_live hspec)
  have hused : s.pool.currentUsage + 1 = UInt64.ofNat t.live.card := by
    rw [h.usage, hcard, UInt64.ofNat_add]
    rfl
  refine ⟨h.owned.acquire hspec, h.uncounted.acquire hspec, ?_, ?_, ?_, ?_, ?_⟩
  · rw [hpool]
    exact hused
  · rw [hpool]
    dsimp only
    have hold := h.peak
    split_ifs with hlt
    · -- below the end of the counter the new usage is the number of packets
      rw [hused, UInt64.toNat_ofNat']
      by_cases hfits : t.live.card < 2 ^ 64
      · rw [Nat.mod_eq_of_lt hfits]
        exact min_le_left ..
      · rw [UInt64.lt_iff_toNat_lt, hused, UInt64.toNat_ofNat'] at hlt
        omega
    · rw [UInt64.lt_iff_toNat_lt, hused, UInt64.toNat_ofNat'] at hlt
      omega
  · rw [hpool]
    exact h.size
  · rw [hpool, List.length_tail]
    exact (Nat.sub_le ..).trans h.packets
  · rw [hpool, List.length_tail]
    exact (Nat.sub_le ..).trans h.payloads

theorem Balanced.release (h : Balanced maxSize s) (hp : p ∈ s.live) (hrel : s.release p = .ok t) :
    Balanced maxSize t := by
  have hspec := released h.uncounted hrel
  obtain ⟨packets, payloads, hpackets, hpayloads, hpool⟩ := release_pool hrel
  rw [h.size] at hpackets hpayloads
  have hcard : t.live.card + 1 = s.live.card := by
    rw [hspec.live]
    exact Finset.card_erase_add_one hp
  refine ⟨h.owned.release hspec hp, h.uncounted.release hspec, ?_, ?_, ?_, ?_, ?_⟩
  · rw [hpool]
    show s.pool.currentUsage - 1 = UInt64.ofNat t.live.card
    -- with a packet live the count is at least one, whatever the counter wrapped to
    rw [h.usage, ← hcard, UInt64.ofNat_add]
    exact UInt64.add_sub_cancel ..
  · rw [hpool]
    exact (min_le_min_right _ (hcard ▸ Nat.le_succ _)).trans h.peak
  · rw [hpool]
    exact h.size
  · rw [hpool]
    exact hpackets.length_le h.packets
  · rw [hpool]
    exact hpayloads.length_le h.payloads

theorem Balanced.use (h : Balanced maxSize s) (hpermit : s.Permits c) (hstep : s.use c = .ok t) :
    Balanced maxSize t := by
  cases c with
  | acquire =>
    obtain ⟨⟨x, a⟩, hacq, rfl⟩ := bind_pure_eq_ok.mp hstep
    exact h.acquire hacq
  | newPayload value =>
    obtain rfl := Except.ok.inj hstep
    exact ⟨h.owned.newPayload value, h.uncounted, h.usage, h.peak, h.size, h.packets, h.payloads⟩
  | write p f =>
    obtain rfl := Except.ok.inj hstep
    exact ⟨h.owned.modify p f, h.uncounted.modify hpermit.2, h.usage, h.peak, h.size, h.packets,
      h.payloads⟩
  | release p => exact h.release hpermit hstep

theorem balanced_start (maxSize : ℕ) : Balanced maxSize (start maxSize) where
  owned := ⟨packetsOwned_empty.held, packetsOwned_empty.freed, packetsOwned_empty.nodup,
    packetsOwned_empty.deleted, packetsOwned_empty.placed⟩
  uncounted := fun _ => rfl
  usage := rfl
  peak := Nat.zero_le _
  size := rfl
  packets := Nat.zero_le _
  payloads := Nat.zero_le _

theorem use_peak (hstep : s.use c = .ok t) :
    t.pool.peakUsage = s.pool.peakUsage ∨
      (s.pool.peakUsage < t.pool.currentUsage ∧ t.pool.peakUsage = t.pool.currentUsage) := by
  cases c with
  | acquire =>
    obtain ⟨⟨x, a⟩, hacq, rfl⟩ := bind_pure_eq_ok.mp hstep
    rw [acquire_pool hacq]
    dsimp only
    split_ifs with hlt
    · exact .inr ⟨hlt, rfl⟩
    · exact .inl rfl
  | newPayload value =>
    obtain rfl := Except.ok.inj hstep
    exact .inl rfl
  | write p f =>
    obtain rfl := Except.ok.inj hstep
    exact .inl rfl
  | release p =>
    obtain ⟨packets, payloads, -, -, hpool⟩ := release_pool hstep
    rw [hpool]
    exact .inl rfl

theorem usages_subset (c : PoolUse) : usages maxSize uses ⊆ usages maxSize (uses ++ [c]) :=
  fun _ ⟨pre, t, hpre, hrun, hn⟩ => ⟨pre, t, hpre.trans (List.prefix_append ..), hrun, hn⟩

theorem mem_usages (hrun : uses.foldlM use (start maxSize) = .ok s) :
    s.pool.currentUsage ∈ usages maxSize uses := ⟨uses, s, List.prefix_rfl, hrun, rfl⟩

theorem mem_usages_concat (hrun : (uses ++ [c]).foldlM use (start maxSize) = .ok t) {n : UInt64}
    (hn : n ∈ usages maxSize (uses ++ [c])) : n ∈ usages maxSize uses ∨ n = t.pool.currentUsage := by
  obtain ⟨pre, r, hpre, hr, rfl⟩ := hn
  rcases List.prefix_concat_iff.mp hpre with rfl | hpre
  · obtain rfl := Except.ok.inj (hr.symm.trans hrun)
    exact .inr rfl
  · exact .inl ⟨pre, r, hpre, hr, rfl⟩

theorem isGreatest_peak_concat (hpeak : IsGreatest (usages maxSize uses) s.pool.peakUsage)
    (hbal : Balanced maxSize t) (hstep : s.use c = .ok t)
    (hrun : (uses ++ [c]).foldlM use (start maxSize) = .ok t) :
    IsGreatest (usages maxSize (uses ++ [c])) t.pool.peakUsage := by
  have hgrows : s.pool.peakUsage ≤ t.pool.peakUsage := by
    rcases use_peak hstep with heq | ⟨hlt, heq⟩
    · rw [heq]
      exact UInt64.le_refl _
    · rw [heq]
      exact UInt64.le_of_lt hlt
  constructor
  · -- the old peak was a usage of the shorter run; a new one is the last usage
    rcases use_peak hstep with heq | ⟨-, heq⟩
    · rw [heq]
      exact usages_subset c hpeak.1
    · rw [heq]
      exact mem_usages hrun
  · intro n hn
    rcases mem_usages_concat hrun hn with hold | rfl
    · exact UInt64.le_trans (hpeak.2 hold) hgrows
    · exact hbal.usage_le_peak

theorem isGreatest_peak_start : IsGreatest (usages maxSize []) (start maxSize).pool.peakUsage := by
  constructor
  · exact mem_usages (s := start maxSize) rfl
  · rintro n ⟨pre, t, hpre, hrun, rfl⟩
    obtain rfl := List.prefix_nil.mp hpre
    obtain rfl := Except.ok.inj hrun
    exact UInt64.le_refl _

theorem balanced_run (hpermit : Each use (start maxSize) Permits uses)
    (hrun : uses.foldlM use (start maxSize) = .ok s) :
    Balanced maxSize s ∧ IsGreatest (usages maxSize uses) s.pool.peakUsage := by
  suffices h : uses.foldlM use (start maxSize) = .ok s ∧ Balanced maxSize s ∧
      IsGreatest (usages maxSize uses) s.pool.peakUsage from h.2
  refine foldlM_invariant_prefix
    (fun pre s => pre.foldlM use (start maxSize) = .ok s ∧ Balanced maxSize s ∧
      IsGreatest (usages maxSize pre) s.pool.peakUsage) hrun
    ⟨rfl, balanced_start maxSize, isGreatest_peak_start⟩ ?_
  rintro pre c post d e rfl ⟨hd, hbal, hpeak⟩ hstep
  have he : (pre ++ [c]).foldlM use (start maxSize) = .ok e :=
    foldlM_append_ok.mpr ⟨d, hd, foldlM_cons_ok.mpr ⟨e, hstep, rfl⟩⟩
  have hbal' : Balanced maxSize e := hbal.use (hpermit pre c d ⟨post, by simp⟩ hd) hstep
  exact ⟨he, hbal', isGreatest_peak_concat hpeak hbal' hstep he⟩

theorem Balanced.exact (h : Balanced maxSize s) (hfits : s.live.card < 2 ^ 64) :
    s.pool.currentUsage.toNat = s.live.card := by
  rw [h.usage_toNat]
  exact Nat.mod_eq_of_lt hfits

theorem Balanced.noUnderflow (h : Balanced maxSize s) (hfits : s.live.card < 2 ^ 64)
    (hp : p ∈ s.live) (hrel : s.release p = .ok t) :
    t.pool.currentUsage.toNat + 1 = s.pool.currentUsage.toNat := by
  have hcard : t.live.card + 1 = s.live.card := by
    rw [(released h.uncounted hrel).live]
    exact Finset.card_erase_add_one hp
  rw [h.exact hfits, ← hcard, (h.release hp hrel).exact (by omega)]

theorem Balanced.accounted (h : Balanced maxSize s)
    (hpeak : IsGreatest (usages maxSize uses) s.pool.peakUsage) : Accounted maxSize uses s where
  usage := h.usage
  exact := h.exact
  noUnderflow := fun hfits _ hp _ hrel => h.noUnderflow hfits hp hrel
  peak := hpeak
  fresh := fun _ _ hacq => h.owned.acquired_not_live (acquired hacq)
  nodup := h.owned.nodup
  apart := fun p hfree hlive => (h.owned.held p hlive).2.1 hfree
  packets := h.packets
  payloads := h.payloads

theorem payloadsOwned_use (hpay : PayloadsOwned s) (hbal : Balanced maxSize s)
    (hpermit : s.Permits c) (hcare : s.Careful c) : ∃ t, s.use c = .ok t ∧ PayloadsOwned t := by
  cases c with
  | acquire =>
    obtain ⟨x, t, hacq⟩ := acquire_ok_of_owned hpay hbal.owned
    exact ⟨t, bind_eq_ok.mpr ⟨_, hacq, rfl⟩, hpay.acquire (acquired hacq)⟩
  | newPayload value => exact ⟨_, rfl, hpay.newPayload value⟩
  | write p f => exact ⟨_, rfl, hpay.modify (absurd hpermit.1) hpermit.2 hcare⟩
  | release p =>
    obtain ⟨t, hrel⟩ := release_ok hpay.uncounted (hbal.owned.held p hpermit).2.2 hcare.1
      fun q hq => (hpay.carried hq).2.2
    exact ⟨t, hrel, hpay.release (released hpay.uncounted hrel) fun _ => hcare.2⟩

theorem payloadsOwned_start (maxSize : ℕ) : PayloadsOwned (start maxSize) :=
  ⟨⟨payloadsOwned_empty.kept, payloadsOwned_empty.nodup⟩, payloadsOwned_empty.idle,
    payloadsOwned_empty.bound, payloadsOwned_empty.freed, payloadsOwned_empty.deleted, fun _ => rfl⟩

theorem careful_run_ok (hpermit : Each use (start maxSize) Permits uses)
    (hcare : Each use (start maxSize) Careful uses) :
    ∃ s, uses.foldlM use (start maxSize) = .ok s ∧ PayloadsOwned s := by
  induction uses using List.reverseRecOn with
  | nil => exact ⟨_, rfl, payloadsOwned_start maxSize⟩
  | append_singleton uses c ih =>
    have hinit : uses <+: uses ++ [c] := List.prefix_append ..
    have hpermit' : Each use (start maxSize) Permits uses :=
      fun pre d r hpre => hpermit pre d r (hpre.trans hinit)
    obtain ⟨s, hrun, hpay⟩ := ih hpermit' fun pre d r hpre => hcare pre d r (hpre.trans hinit)
    obtain ⟨t, hstep, hpay'⟩ := payloadsOwned_use hpay (balanced_run hpermit' hrun).1
      (hpermit uses c s List.prefix_rfl hrun) (hcare uses c s List.prefix_rfl hrun)
    exact ⟨t, foldlM_append_ok.mpr ⟨s, hrun, foldlM_cons_ok.mpr ⟨t, hstep, rfl⟩⟩, hpay'⟩

/-- After every run in which only live packets are written and released the accounts are right,
and a careful run comes to its end. -/
theorem accounted_run (maxSize : ℕ) (uses : List PoolUse)
    (hpermit : Each use (start maxSize) Permits uses) :
    (∀ s, uses.foldlM use (start maxSize) = .ok s → Accounted maxSize uses s) ∧
      (Each use (start maxSize) Careful uses → ∃ s, uses.foldlM use (start maxSize) = .ok s) := by
  constructor
  · intro s hrun
    obtain ⟨hbal, hpeak⟩ := balanced_run hpermit hrun
    exact hbal.accounted hpeak
  · intro hcare
    obtain ⟨s, hrun, -⟩ := careful_run_ok hpermit hcare
    exact ⟨s, hrun⟩

def releasedInOrder : List PoolUse :=
  [.acquire] ++ [.acquire] ++ [.write 1 fun pkt => { pkt with originalReq := some 0 }] ++
    [.release 0] ++ [.release 1]

theorem accounted_releasedInOrder : ∃ s, releasedInOrder.foldlM use (start 1) = .ok s ∧
    Accounted 1 releasedInOrder s ∧ s.pool.peakUsage = 2 ∧ s.pool.packetFreelist = [0] := by
  have hpermit : Each use (start 1) Permits releasedInOrder := by
    refine each_concat (each_concat (each_concat (each_concat (each_concat (each_nil _ _) ?_) ?_) ?_)
      ?_) ?_
    · exact fun _ _ => trivial
    · exact fun _ _ => trivial
    · exact forall_ok_of_map (P := fun s : Arena => 1 ∈ s.live ∧
        (s.heap.packet 1).refCount = (s.heap.packet 1).refCount) rfl
    · exact forall_ok_of_map (P := fun s : Arena => 0 ∈ s.live) rfl
    · exact forall_ok_of_map (P := fun s : Arena => 1 ∈ s.live) rfl
  obtain ⟨s, hrun, hpeak⟩ := exists_ok_of_map
    (P := fun s : Arena => s.pool.peakUsage = 2 ∧ s.pool.packetFreelist = [0])
    (x := releasedInOrder.foldlM use (start 1)) rfl
  exact ⟨s, hrun, (accounted_run 1 releasedInOrder hpermit).1 s hrun, hpeak⟩

end Arena
end GemSc
