import GemSc.Pool.Accounting

/-! `PacketPool` of `core`, which keeps whole packets and has no size, and what is known of the
packet that either pool hands out. -/

namespace GemSc
open Function ExceptFold

/-- A packet as `acquire` should return it: as `reset` leaves it, with a payload that is alive
and held by no other live packet, by no free packet and by no list of free payloads. -/
def CleanPacket (h : Heap) (live : Finset PacketPtr) (packets : List PacketPtr)
    (payloads : List PayloadPtr) (x : PacketPtr) : Prop :=
  ∃ q, h.packet x = { payload := some q } ∧ q ∉ h.deletedPayloads ∧ q ∉ payloads ∧
    ∀ y, y ∈ live ∨ y ∈ packets → y ≠ x → (h.packet y).payload ≠ some q

def Arena.Clean (a : Arena) (x : PacketPtr) : Prop :=
  CleanPacket a.heap a.live a.pool.packetFreelist a.pool.payloadFreelist x

/-- The pool and the heap; `live` is ghost, as in `Arena`. -/
structure CoreArena where
  heap : Heap
  pool : List PacketPtr
  live : Finset PacketPtr

/-- What is found in the fields of a new packet that its constructor does not set: `cmd` and
`dst_cycle`. -/
abbrev Unset := PacketPtr → CmdType × UInt64

namespace CoreArena

def start : CoreArena := ⟨.empty, [], ∅⟩

/-- `new Packet(payload, 0, PKT_REQ)` with `payload` a new one -/
def newPacket (unset : Unset) (h : Heap) : PacketPtr × Heap :=
  let q := h.newPayload ⟨0, 0⟩
  let p := q.2.newPacket
  (p.1, p.2.modify p.1 fun pkt =>
    { pkt with payload := some q.1, cmd := (unset p.1).1, dstCycle := (unset p.1).2 })

def acquire (unset : Unset) (a : CoreArena) : Except MemoryFault (PacketPtr × CoreArena) :=
  match a.pool with
  | [] =>
    let r := newPacket unset a.heap
    .ok (r.1, { a with heap := r.2, live := insert r.1 a.live })
  | p :: rest => do
    let h ← a.heap.resetPacket p
    return (p, { a with heap := h, pool := rest, live := insert p a.live })

/-- The payload of a credit is kept. -/
def cleanPayload (p : PacketPtr) (h : Heap) : Except MemoryFault Heap := do
  let pkt ← h.get p
  let h ← h.dropPayload pkt
  if pkt.isCredit then return h else return h.modify p fun pkt => { pkt with payload := none }

def release (p : PacketPtr) (a : CoreArena) : Except MemoryFault CoreArena := do
  let h ← cleanPayload p a.heap
  return { a with heap := h, pool := a.pool ++ [p], live := a.live.erase p }

def use (unset : Unset) (a : CoreArena) : PoolUse → Except MemoryFault CoreArena
  | .acquire => do
    let r ← a.acquire unset
    return r.2
  | .newPayload value => .ok { a with heap := (a.heap.newPayload value).2 }
  | .write p f => .ok { a with heap := a.heap.modify p f }
  | .release p => a.release p

/-- Only live packets are written and released, and a packet gets none but a payload that was
made by `new`. -/
def Permits (a : CoreArena) : PoolUse → Prop
  | .acquire => True
  | .newPayload _ => True
  | .write p f => p ∈ a.live ∧ (f (a.heap.packet p)).refCount = (a.heap.packet p).refCount ∧
      ∀ q, (f (a.heap.packet p)).payload = some q → q < a.heap.nextPayload
  | .release p => p ∈ a.live

def Clean (a : CoreArena) (x : PacketPtr) : Prop := CleanPacket a.heap a.live a.pool [] x

/-- Every payload that a packet holds or that was deleted was made by `new` before. -/
structure Allocated (h : Heap) : Prop where
  held : ∀ p q, (h.packet p).payload = some q → q < h.nextPayload
  deleted : ∀ q ∈ h.deletedPayloads, q < h.nextPayload

variable {unset : Unset} {h h' : Heap} {a b s : CoreArena} {p x : PacketPtr} {c : PoolUse}
  {uses : List PoolUse}

theorem packet_newPacket (unset : Unset) (h : Heap) :
    (newPacket unset h).2.packet = update h.packet h.nextPacket
      { payload := some h.nextPayload
        cmd := (unset h.nextPacket).1
        dstCycle := (unset h.nextPacket).2 } := by
  simp [newPacket, Heap.newPacket, Heap.newPayload, Heap.modify]

theorem acquire_eq_ok (hacq : a.acquire unset = .ok (x, b)) :
    (a.pool = [] ∧ x = a.heap.nextPacket ∧ b = { a with
        heap := (newPacket unset a.heap).2
        live := insert x a.live }) ∨
      ∃ rest h', a.pool = x :: rest ∧ a.heap.resetPacket x = .ok h' ∧
        b = ⟨h', rest, insert x a.live⟩ := by
  unfold acquire at hacq
  split at hacq
  · next hpool =>
    obtain ⟨rfl, rfl⟩ := Prod.mk.inj (Except.ok.inj hacq)
    exact .inl ⟨hpool, rfl, rfl⟩
  · next y rest hpool =>
    obtain ⟨h', hreset, hend⟩ := bind_pure_eq_ok.mp hacq
    obtain ⟨rfl, rfl⟩ := Prod.mk.inj hend
    exact .inr ⟨rest, h', hpool, hreset, rfl⟩

theorem Allocated.newPayload (halloc : Allocated h) (value : Payload) :
    Allocated (h.newPayload value).2 :=
  ⟨fun p q hq => Nat.lt_succ_of_lt (halloc.held p q hq),
    fun q hq => Nat.lt_succ_of_lt (halloc.deleted q hq)⟩

theorem Allocated.modify {f : Packet → Packet} (halloc : Allocated h)
    (hf : ∀ q, (f (h.packet p)).payload = some q → q < h.nextPayload) :
    Allocated (h.modify p f) := by
  refine ⟨fun y q hq => ?_, halloc.deleted⟩
  by_cases hy : y = p
  · subst hy
    rw [Heap.packet_modify_self] at hq
    exact hf q hq
  · rw [Heap.packet_modify_of_ne _ _ hy] at hq
    exact halloc.held y q hq

theorem Allocated.newPacket (halloc : Allocated h) (unset : Unset) :
    Allocated (newPacket unset h).2 := by
  refine ⟨fun y q hq => ?_, fun q hq => Nat.lt_succ_of_lt (halloc.deleted q hq)⟩
  show q < h.nextPayload + 1
  rw [packet_newPacket, update_apply] at hq
  split_ifs at hq
  · obtain rfl := Option.some.inj hq
    exact Nat.lt_succ_self _
  · exact Nat.lt_succ_of_lt (halloc.held y q hq)

theorem dropPayload_eq_ok (hdrop : h.dropPayload (h.packet p) = .ok h') :
    h' = h ∨ ∃ q, (h.packet p).payload = some q ∧
      h' = { h with deletedPayloads := insert q h.deletedPayloads } := by
  unfold Heap.dropPayload at hdrop
  split at hdrop
  · exact .inl (Except.ok.inj hdrop).symm
  · next q hq =>
    split_ifs at hdrop
    · exact .inl (Except.ok.inj hdrop).symm
    · exact .inr ⟨q, hq, (Heap.deletePayload_eq_ok hdrop).2⟩

theorem Allocated.dropPayload (halloc : Allocated h)
    (hdrop : h.dropPayload (h.packet p) = .ok h') : Allocated h' := by
  rcases dropPayload_eq_ok hdrop with rfl | ⟨q, hq, rfl⟩
  · exact halloc
  · refine ⟨halloc.held, fun r hr => ?_⟩
    rcases Finset.mem_insert.mp hr with rfl | hr
    · exact halloc.held p r hq
    · exact halloc.deleted r hr

theorem Allocated.reset (halloc : Allocated h) (hreset : h.resetPacket p = .ok h') :
    Allocated h' := by
  obtain ⟨pkt, hget, hrest⟩ := bind_eq_ok.mp hreset
  obtain ⟨mid, hdrop, rfl⟩ := bind_pure_eq_ok.mp hrest
  obtain ⟨-, rfl⟩ := Heap.get_eq_ok hget
  exact (halloc.dropPayload hdrop).modify fun q hq => by cases hq

theorem Allocated.clean (halloc : Allocated h) (hclean : cleanPayload p h = .ok h') :
    Allocated h' := by
  obtain ⟨pkt, hget, hrest⟩ := bind_eq_ok.mp hclean
  obtain ⟨mid, hdrop, hend⟩ := bind_eq_ok.mp hrest
  obtain ⟨-, rfl⟩ := Heap.get_eq_ok hget
  split_ifs at hend
  · obtain rfl := Except.ok.inj hend
    exact halloc.dropPayload hdrop
  · obtain rfl := Except.ok.inj hend
    exact (halloc.dropPayload hdrop).modify fun q hq => by cases hq

theorem Allocated.use (halloc : Allocated a.heap) (hpermit : a.Permits c)
    (hstep : a.use unset c = .ok b) : Allocated b.heap := by
  cases c with
  | acquire =>
    obtain ⟨⟨x, d⟩, hacq, rfl⟩ := bind_pure_eq_ok.mp hstep
    rcases acquire_eq_ok hacq with ⟨-, -, rfl⟩ | ⟨rest, h', -, hreset, rfl⟩
    · exact halloc.newPacket unset
    · exact halloc.reset hreset
  | newPayload value =>
    obtain rfl := Except.ok.inj hstep
    exact halloc.newPayload value
  | write p f =>
    obtain rfl := Except.ok.inj hstep
    exact halloc.modify hpermit.2.2
  | release p =>
    obtain ⟨h', hclean, rfl⟩ := bind_pure_eq_ok.mp hstep
    exact halloc.clean hclean

theorem allocated_run (hpermit : Each (use unset) start Permits uses)
    (hrun : uses.foldlM (use unset) start = .ok s) : Allocated s.heap := by
  suffices h : uses.foldlM (use unset) start = .ok s ∧ Allocated s.heap from h.2
  refine foldlM_invariant_prefix
    (fun pre s => pre.foldlM (use unset) start = .ok s ∧ Allocated s.heap) hrun
    ⟨rfl, fun _ _ hq => (nomatch hq), fun q hq => absurd hq (Finset.notMem_empty q)⟩ ?_
  rintro pre c post d e rfl ⟨hd, halloc⟩ hstep
  exact ⟨foldlM_append_ok.mpr ⟨d, hd, foldlM_cons_ok.mpr ⟨e, hstep, rfl⟩⟩,
    halloc.use (hpermit pre c d ⟨post, by simp⟩ hd) hstep⟩

/-- A recycled packet has been reset, its payload with it. A new one has a new payload, and is
as `reset` leaves a packet when nothing else was in the two fields that are not set. -/
theorem clean_iff (halloc : Allocated a.heap) (hacq : a.acquire unset = .ok (x, b)) :
    b.Clean x ↔ a.pool = [] ∧ unset a.heap.nextPacket = (.invalid, 0) := by
  rcases acquire_eq_ok hacq with ⟨hpool, rfl, rfl⟩ | ⟨rest, h', hpool, hreset, rfl⟩
  · -- a new packet: all of it is known but for the two fields that the constructor leaves
    have hself : (newPacket unset a.heap).2.packet a.heap.nextPacket =
        { payload := some a.heap.nextPayload
          cmd := (unset a.heap.nextPacket).1
          dstCycle := (unset a.heap.nextPacket).2 } := by
      rw [packet_newPacket, update_self]
    constructor
    · rintro ⟨q, hq, -⟩
      have heq := hself.symm.trans hq
      exact ⟨hpool, Prod.ext (congrArg Packet.cmd heq) (congrArg Packet.dstCycle heq)⟩
    · rintro ⟨-, hunset⟩
      refine ⟨a.heap.nextPayload, ?_, ?_, List.not_mem_nil, ?_⟩
      · show (newPacket unset a.heap).2.packet a.heap.nextPacket = _
        rw [hself, hunset]
      · exact fun hd => lt_irrefl _ (halloc.deleted _ hd)
      · intro y _ hy hpay
        rw [packet_newPacket, update_of_ne hy] at hpay
        exact lt_irrefl _ (halloc.held y _ hpay)
  · -- a recycled one: `reset` has set the payload to null
    obtain ⟨D, rfl, -⟩ := Heap.resetPacket_eq_ok hreset
    constructor
    · rintro ⟨q, hq, -⟩
      have hnone : (update a.heap.packet x {} x).payload = some q := congrArg Packet.payload hq
      rw [update_self] at hnone
      cases hnone
    · rintro ⟨hnil, -⟩
      rw [hpool] at hnil
      cases hnil

end CoreArena

/-- The pool of `core/ext` deletes the payload that it has just bound. -/
theorem Arena.not_clean {a b : Arena} {x : PacketPtr} (hacq : a.acquire = .ok (x, b)) :
    ¬ b.Clean x := by
  rintro ⟨q, hq, -⟩
  rw [(Arena.acquired hacq).packet, update_self] at hq
  cases congrArg Packet.payload hq

/-- In every run: what the pool of `core/ext` hands out is never clean, and what the pool of
`core` hands out is clean exactly when it was empty and nothing was left over in the fields of
the new packet that are not set. -/
theorem acquire_clean_iff (maxSize : ℕ) (unset : Unset) (uses : List PoolUse) :
    (∀ s, uses.foldlM Arena.use (Arena.start maxSize) = .ok s →
        ∀ x t, s.acquire = .ok (x, t) → ¬ t.Clean x) ∧
      (Each (CoreArena.use unset) CoreArena.start CoreArena.Permits uses →
        ∀ s, uses.foldlM (CoreArena.use unset) CoreArena.start = .ok s →
          ∀ x t, s.acquire unset = .ok (x, t) →
            (t.Clean x ↔ s.pool = [] ∧ unset s.heap.nextPacket = (.invalid, 0))) := by
  constructor
  · intro s _ x t hacq
    exact Arena.not_clean hacq
  · intro hpermit s hrun x t hacq
    exact CoreArena.clean_iff (CoreArena.allocated_run hpermit hrun) hacq

def busyHistory : List PoolUse :=
  [.acquire, .acquire, .write 0 fun pkt => { pkt with seqNum := 7 }, .release 1, .acquire]

theorem busyHistory_permitted : Each (CoreArena.use fun _ => (.invalid, 0)) CoreArena.start
    CoreArena.Permits busyHistory := by
  have hstart : Each (CoreArena.use fun _ => (.invalid, 0)) CoreArena.start CoreArena.Permits [] :=
    each_nil _ _
  have hfirst := each_concat (a := PoolUse.acquire) hstart fun s _ => trivial
  have hsecond := each_concat (a := PoolUse.acquire) hfirst fun s _ => trivial
  have hwritten := each_concat (a := PoolUse.write 0 fun pkt => { pkt with seqNum := 7 }) hsecond
    fun s hs => by
      cases hs
      refine ⟨by decide, rfl, fun q hq => ?_⟩
      cases hq
      decide
  have hreleased := each_concat (a := PoolUse.release 1) hwritten fun s hs => by
    cases hs
    show 1 ∈ _
    decide
  exact each_concat (a := PoolUse.acquire) hreleased fun s _ => trivial

/-- From memory that is zero the packet after these is a new one, and clean. -/
theorem acquire_clean_busyHistory :
    ∃ s t, busyHistory.foldlM (CoreArena.use fun _ => (.invalid, 0)) CoreArena.start = .ok s ∧
      s.acquire (fun _ => (.invalid, 0)) = .ok (2, t) ∧ s.live = {0, 1} ∧ t.Clean 2 :=
  ⟨_, _, rfl, rfl, by decide, ((acquire_clean_iff 0 (fun _ => (.invalid, 0)) busyHistory).2
    busyHistory_permitted _ rfl _ _ rfl).mpr ⟨rfl, rfl⟩⟩

/-- The first packet of the `core/ext` pool is not clean, and the one that the `core` pool
recycles is not. -/
theorem acquire_not_clean :
    (∃ x t, (Arena.start 1024).acquire = .ok (x, t) ∧ ¬ t.Clean x) ∧
      ∃ s x t, [PoolUse.acquire, .release 0].foldlM (CoreArena.use fun _ => (.invalid, 0))
          CoreArena.start = .ok s ∧
        s.acquire (fun _ => (.invalid, 0)) = .ok (x, t) ∧ ¬ t.Clean x := by
  constructor
  · obtain ⟨x, t, hacq⟩ := Arena.acquire_ok_of_owned (Arena.payloadsOwned_start 1024)
      (Arena.balanced_start 1024).owned
    exact ⟨x, t, hacq, Arena.not_clean hacq⟩
  · refine ⟨_, 0, _, rfl, rfl, ?_⟩
    rintro ⟨q, hq, -⟩
    cases congrArg Packet.payload hq

end GemSc
