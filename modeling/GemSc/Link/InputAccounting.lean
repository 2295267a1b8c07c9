import GemSc.Link.Lanes
import GemSc.Lib.CountedQueue

/-! The input VCs of a port in every run of `recv` and `tick`: each is a counted queue that
agrees with what was received on it and what the owner accepted from it. -/

namespace GemSc
open Function

namespace InputVC

def queue (vc : InputVC) : CountedQueue PacketPtr where
  buffer := vc.buffer
  capacity := vc.capacity
  enqueued := vc.stats.enqueued
  dequeued := vc.stats.processed
  dropped := vc.stats.dropped

theorem queue_offer (vc : InputVC) (p : PacketPtr) :
    (vc.queue.offer p).1 = (vc.offer p).1 ∧ (vc.queue.offer p).2 = (vc.offer p).2.queue := by
  unfold CountedQueue.offer offer
  by_cases h : vc.capacity ≤ vc.buffer.length
  · rw [if_pos h, if_pos (show vc.queue.capacity ≤ vc.queue.buffer.length from h)]
    exact ⟨rfl, rfl⟩
  · rw [if_neg h, if_neg (show ¬ vc.queue.capacity ≤ vc.queue.buffer.length from h), enqueue,
      if_neg h]
    exact ⟨rfl, rfl⟩

theorem queue_pop (vc : InputVC) : vc.pop.queue = vc.queue.pop := by
  cases hbuf : vc.buffer with
  | nil => simp only [pop, CountedQueue.pop, queue, hbuf]
  | cons p rest => simp only [pop, CountedQueue.pop, queue, hbuf]

end InputVC

inductive InputCall
  | recv (now : UInt64) (p : PacketPtr) (m : Memory)
  | tick (answer : ℕ → PacketPtr → Bool)

/-- A port with its history: by `vc_id`, the packets whose `recv` returned true and how many it
returned false for; by VC, the packets that the owner accepted. -/
structure InputRun where
  port : UpstreamPort
  entered : ℤ → List PacketPtr := fun _ => []
  refused : ℤ → ℕ := fun _ => 0
  accepted : ℕ → List PacketPtr := fun _ => []

namespace InputRun

def step (s : InputRun) : InputCall → InputRun
  | .recv now p m =>
    let vcId := (m.packet p).vcId
    let r := s.port.recv now p m
    if r.1 then { s with port := r.2.1, entered := update s.entered vcId (s.entered vcId ++ [p]) }
    else { s with port := r.2.1, refused := update s.refused vcId (s.refused vcId + 1) }
  | .tick answer =>
    let r := s.port.tick answer
    { s with
      port := r.1
      accepted := fun k => s.accepted k ++ (r.2.filter fun f => f.vc = k ∧ f.accepted).map (·.packet) }

def exec (u : UpstreamPort) (calls : List InputCall) : InputRun := calls.foldl step { port := u }

/-- What the statistics of VC `k` say about the run, and what a tick does to the VC. -/
structure Truthful (s : InputRun) (k : ℕ) (vc : InputVC) : Prop where
  size : vc.buffer.length ≤ vc.capacity
  enqueued : (s.entered k).length < 2 ^ 64 →
    vc.stats.enqueued.toNat = vc.stats.processed.toNat + vc.buffer.length
  processed : (s.accepted k).length < 2 ^ 64 →
    vc.stats.processed.toNat = (s.accepted k).length
  dropped : vcInRange k s.port.inputVcs.length → s.refused k < 2 ^ 64 →
    vc.stats.dropped.toNat = s.refused k
  order : s.entered k = s.accepted k ++ vc.buffer
  offers : ∀ answer, (s.port.tick answer).2.filter (fun f => f.vc = k) =
    (vc.buffer.head?.map fun p => ⟨k, p, answer k p⟩).toList
  removes : ∀ answer, (s.port.tick answer).1.buffer k =
    if ∃ p ∈ vc.buffer.head?, answer k p then vc.buffer.tail else vc.buffer

/-- The VC agrees with its history. A VC that the range check of `recv` does not admit turns
nothing away itself. -/
def Agrees (s : InputRun) : Prop :=
  ∀ (k : ℕ) vc, s.port.inputVcs[k]? = some vc →
    vc.queue.Agrees (s.entered k) (s.accepted k)
      (if vcInRange k s.port.inputVcs.length then s.refused k else 0)

variable {s : InputRun} {u : UpstreamPort} {k : ℕ} {vc : InputVC}

theorem length_inputVcs_recv (now : UInt64) (p : PacketPtr) (u : UpstreamPort) (m : Memory) :
    (u.recv now p m).2.1.inputVcs.length = u.inputVcs.length := by
  obtain ⟨m', -, heq⟩ := u.recv_eq now p m
  rw [heq]
  split
  · exact List.length_set
  · rfl

theorem recv_named (now : UInt64) {p : PacketPtr} {m : Memory} (hp : (m.packet p).vcId = k)
    (hr : vcInRange k u.inputVcs.length) (hvc : u.inputVcs[k]? = some vc) :
    (u.recv now p m).1 = (vc.offer p).1 ∧
      (u.recv now p m).2.1.inputVcs[k]? = some (vc.offer p).2 := by
  obtain ⟨m', -, heq⟩ := u.recv_eq now p m
  have hk : k < u.inputVcs.length := (List.getElem?_eq_some_iff.mp hvc).1
  rw [heq, hp, Int.toNat_natCast, hr, hvc]
  exact ⟨rfl, by simp [hk]⟩

theorem recv_unnamed (now : UInt64) {p : PacketPtr} {m : Memory}
    (h : (m.packet p).vcId ≠ k ∨ vcInRange k u.inputVcs.length = false) :
    ((m.packet p).vcId = k → (u.recv now p m).1 = false) ∧
      (u.recv now p m).2.1.inputVcs[k]? = u.inputVcs[k]? := by
  obtain ⟨m', -, heq⟩ := u.recv_eq now p m
  rw [heq]
  split
  · next vi hr hvi =>
    have hne : (m.packet p).vcId ≠ k := by
      rcases h with hne | hout
      · exact hne
      · intro hk
        rw [hk, hout] at hr
        cases hr
    have hne' : (m.packet p).vcId.toNat ≠ k := by
      have := (vcInRange_toNat hr).2
      omega
    exact ⟨fun hk => absurd hk hne, List.getElem?_set_ne hne'⟩
  · exact ⟨fun _ => rfl, rfl⟩

theorem port_recv (s : InputRun) (now : UInt64) (p : PacketPtr) (m : Memory) :
    (s.step (.recv now p m)).port = (s.port.recv now p m).2.1 := by
  unfold step
  dsimp only
  split_ifs <;> rfl

theorem history_recv (s : InputRun) (now : UInt64) (p : PacketPtr) (m : Memory) (k : ℕ) :
    (s.step (.recv now p m)).accepted k = s.accepted k ∧
      ((m.packet p).vcId ≠ k → (s.step (.recv now p m)).entered k = s.entered k ∧
        (s.step (.recv now p m)).refused k = s.refused k) ∧
      ((m.packet p).vcId = k → (s.port.recv now p m).1 = true →
        (s.step (.recv now p m)).entered k = s.entered k ++ [p] ∧
          (s.step (.recv now p m)).refused k = s.refused k) ∧
      ((m.packet p).vcId = k → (s.port.recv now p m).1 = false →
        (s.step (.recv now p m)).entered k = s.entered k ∧
          (s.step (.recv now p m)).refused k = s.refused k + 1) := by
  unfold step
  dsimp only
  cases hok : (s.port.recv now p m).1 with
  | true =>
    refine ⟨rfl, fun hne => ⟨update_of_ne hne.symm .., rfl⟩, ?_, fun _ h => (nomatch h)⟩
    rintro hk -
    rw [← hk]
    exact ⟨update_self .., rfl⟩
  | false =>
    refine ⟨rfl, fun hne => ⟨rfl, update_of_ne hne.symm ..⟩, fun _ h => (nomatch h), ?_⟩
    rintro hk -
    rw [← hk]
    exact ⟨rfl, update_self ..⟩

theorem Agrees.recv (h : s.Agrees) (now : UInt64) (p : PacketPtr) (m : Memory) :
    (s.step (.recv now p m)).Agrees := by
  intro k vc' hvc'
  obtain ⟨haccepted, hother, htrue, hfalse⟩ := history_recv s now p m k
  rw [port_recv] at hvc' ⊢
  rw [length_inputVcs_recv, haccepted]
  have hk : k < s.port.inputVcs.length := by
    rw [← length_inputVcs_recv now p s.port m]
    exact (List.getElem?_eq_some_iff.mp hvc').1
  have hvc : s.port.inputVcs[k]? = some s.port.inputVcs[k] := List.getElem?_eq_getElem hk
  have hagrees := h k _ hvc
  by_cases hnamed : (m.packet p).vcId = k ∧ vcInRange k s.port.inputVcs.length
  · -- the packet is offered to this VC, and enters it or is counted as dropped
    obtain ⟨hp, hr⟩ := hnamed
    obtain ⟨hanswer, hget⟩ := recv_named now hp hr hvc
    obtain rfl := Option.some.inj (hget.symm.trans hvc')
    obtain ⟨hsame, hqueue⟩ := s.port.inputVcs[k].queue_offer p
    rw [if_pos hr] at hagrees ⊢
    rw [← hqueue]
    rcases hagrees.offered p with ⟨hok, hagrees'⟩ | ⟨hno, hagrees'⟩
    · obtain ⟨hentered, hrefused⟩ := htrue hp (hanswer.trans (hsame.symm.trans hok))
      rwa [hentered, hrefused]
    · obtain ⟨hentered, hrefused⟩ := hfalse hp (hanswer.trans (hsame.symm.trans hno))
      rwa [hentered, hrefused]
  · have hunnamed : (m.packet p).vcId ≠ k ∨ vcInRange k s.port.inputVcs.length = false := by
      rcases not_and_or.mp hnamed with hne | hout
      · exact .inl hne
      · exact .inr (Bool.eq_false_iff.mpr hout)
    obtain ⟨hno, hget⟩ := recv_unnamed now hunnamed
    obtain rfl := Option.some.inj (hvc.symm.trans (hget.symm.trans hvc'))
    by_cases hp : (m.packet p).vcId = k
    · -- refused before it reaches the VC, so the VC has nothing to count
      have hout : vcInRange k s.port.inputVcs.length = false := hunnamed.resolve_left (not_not.mpr hp)
      rw [(hfalse hp (hno hp)).1]
      rwa [hout] at hagrees ⊢
    · obtain ⟨hentered, hrefused⟩ := hother hp
      rwa [hentered, hrefused]

theorem tick_vc (answer : ℕ → PacketPtr → Bool) (hvc : u.inputVcs[k]? = some vc) :
    (u.tick answer).1.inputVcs[k]? = some (match vc.buffer with
      | [] => vc
      | p :: _ => if answer k p then vc.pop else vc) ∧
    (u.tick answer).2.filter (fun f => f.vc = k) =
      (vc.buffer.head?.map fun p => ⟨k, p, answer k p⟩).toList := by
  have hget := UpstreamPort.getElem?_tickVcs answer 0 u.inputVcs k
  have hoffers := UpstreamPort.filter_offers_tickVcs answer 0 u.inputVcs k
  rw [Nat.zero_add, hvc] at hget hoffers
  refine ⟨hget, hoffers.trans ?_⟩
  cases hbuf : vc.buffer <;> simp [hbuf]

theorem filter_accepted (offers : List Offer) (k : ℕ) :
    offers.filter (fun f => f.vc = k ∧ f.accepted) =
      (offers.filter fun f => f.vc = k).filter (·.accepted) := by
  rw [List.filter_filter]
  apply List.filter_congr
  intro f _
  simp [and_comm]

theorem Agrees.tick (h : s.Agrees) (answer : ℕ → PacketPtr → Bool) :
    (s.step (.tick answer)).Agrees := by
  intro k vc' hvc'
  have hlen : (s.step (.tick answer)).port.inputVcs.length = s.port.inputVcs.length :=
    Link.length_tickVcs answer 0 s.port.inputVcs
  have hk : k < s.port.inputVcs.length := by
    rw [← hlen]
    exact (List.getElem?_eq_some_iff.mp hvc').1
  have hvc : s.port.inputVcs[k]? = some s.port.inputVcs[k] := List.getElem?_eq_getElem hk
  obtain ⟨hget, hoffers⟩ := tick_vc answer hvc
  obtain rfl := Option.some.inj (hget.symm.trans hvc')
  have hagrees := h k _ hvc
  have haccepted : (s.step (.tick answer)).accepted k = s.accepted k ++
      (((s.port.inputVcs[k].buffer.head?.map fun p => (⟨k, p, answer k p⟩ : Offer)).toList).filter
        (·.accepted)).map (·.packet) := by
    rw [← hoffers, ← filter_accepted]
    rfl
  rw [hlen, haccepted]
  show (InputVC.queue _).Agrees (s.entered k) _ (if _ then s.refused k else 0)
  cases hbuf : s.port.inputVcs[k].buffer with
  | nil =>
    rw [List.head?_nil, Option.map_none, Option.toList_none, List.filter_nil, List.map_nil,
      List.append_nil]
    exact hagrees
  | cons p rest =>
    cases hanswer : answer k p with
    | true =>
      have hpopped := hagrees.popped (show s.port.inputVcs[k].queue.buffer = p :: rest from hbuf)
      rw [← InputVC.queue_pop] at hpopped
      simpa [hanswer] using hpopped
    | false => simpa [hanswer] using hagrees

theorem Agrees.exec (u : UpstreamPort) (calls : List InputCall)
    (hstart : Agrees { port := u }) : (exec u calls).Agrees := by
  refine List.foldlRecOn calls step hstart fun s hs c _ => ?_
  cases c with
  | recv now p m => exact hs.recv now p m
  | tick answer => exact hs.tick answer

theorem agrees_new (i : ℕ) (inSizes priorities : List ℕ) (label : String) :
    Agrees { port := .new i inSizes priorities label } := by
  intro k vc hvc
  simp only [UpstreamPort.new, List.getElem?_mapIdx, Option.map_eq_some_iff] at hvc
  obtain ⟨size, -, rfl⟩ := hvc
  rw [ite_self]
  exact CountedQueue.agrees_new size

theorem Agrees.truthful (h : s.Agrees) (hvc : s.port.inputVcs[k]? = some vc) : s.Truthful k vc := by
  have hagrees := h k vc hvc
  refine ⟨hagrees.size, hagrees.enqueued_toNat, hagrees.dequeued_toNat, ?_, hagrees.order, ?_, ?_⟩
  · intro hr hfits
    rw [if_pos hr] at hagrees
    exact hagrees.dropped_toNat hfits
  · exact fun answer => (tick_vc answer hvc).2
  · intro answer
    rw [UpstreamPort.buffer, (tick_vc answer hvc).1]
    cases hbuf : vc.buffer with
    | nil => simp [hbuf]
    | cons p rest => cases hanswer : answer k p <;> simp [hbuf, hanswer, InputVC.pop]

/-- The statistics of every VC are truthful after every run of a new port. -/
theorem input_accounting (i : ℕ) (inSizes priorities : List ℕ) (label : String)
    (calls : List InputCall) (k : ℕ) (vc : InputVC)
    (hvc : (exec (.new i inSizes priorities label) calls).port.inputVcs[k]? = some vc) :
    (exec (.new i inSizes priorities label) calls).Truthful k vc :=
  (Agrees.exec _ calls (agrees_new i inSizes priorities label)).truthful hvc

def smallRun : InputRun :=
  exec (.new 0 [1] [] "") [.recv 0 0 ⟨fun _ => {}, fun _ => ⟨0, 0⟩⟩,
    .recv 0 1 ⟨fun _ => {}, fun _ => ⟨0, 0⟩⟩, .tick fun _ _ => true]

theorem input_accounting_smallRun : ∃ vc, smallRun.port.inputVcs[0]? = some vc ∧
    smallRun.Truthful 0 vc ∧ vc.stats.dropped = 1 ∧ smallRun.accepted 0 = [0] := by
  exact ⟨_, rfl, input_accounting 0 [1] [] "" _ 0 _ rfl, rfl, rfl⟩

/-- A new port whose VCs the range check does not admit refuses what names its VC 0, and that
VC counts no drop. -/
theorem not_counted {n : ℕ} (hn : 0 < n) (hout : vcInRange (0 : ℕ) n = false) {m : Memory}
    (hm : (m.packet 0).vcId = (0 : ℕ)) :
    ∃ vc, (exec (.new 0 (List.replicate n 1) [] "") [.recv 0 0 m]).port.inputVcs[0]? = some vc ∧
      vc.stats.dropped = 0 ∧
      (exec (.new 0 (List.replicate n 1) [] "") [.recv 0 0 m]).refused 0 = 1 := by
  let u : UpstreamPort := .new 0 (List.replicate n 1) [] ""
  have hlen : u.inputVcs.length = n := by
    simp only [u, UpstreamPort.new, List.length_mapIdx, List.length_replicate]
  have hvc : u.inputVcs[0]? = some { id := 0, priority := 0, capacity := 1 } := by
    simp only [u, UpstreamPort.new, List.getElem?_mapIdx, List.getElem?_replicate_of_lt hn]
    rfl
  obtain ⟨hno, hget⟩ := recv_unnamed (u := u) 0 (m := m) (p := 0) (k := 0)
    (.inr (hlen.symm ▸ hout))
  obtain ⟨-, -, -, hfalse⟩ := history_recv { port := u } 0 0 m 0
  refine ⟨{ id := 0, priority := 0, capacity := 1 }, ?_, rfl, (hfalse hm (hno hm)).2⟩
  show (step { port := u } (.recv 0 0 m)).port.inputVcs[0]? = _
  rw [port_recv, hget, hvc]

/-- So does one of 2^31 VCs, where `(int)input_vcs.size()` is negative. -/
theorem refused_uncounted :
    ∃ vc, (exec (.new 0 (List.replicate (2 ^ 31) 1) [] "")
        [.recv 0 0 ⟨fun _ => {}, fun _ => ⟨0, 0⟩⟩]).port.inputVcs[0]? = some vc ∧
      vc.stats.dropped = 0 ∧
      (exec (.new 0 (List.replicate (2 ^ 31) 1) [] "")
        [.recv 0 0 ⟨fun _ => {}, fun _ => ⟨0, 0⟩⟩]).refused 0 = 1 :=
  not_counted (by decide) (by decide) rfl

end InputRun
end GemSc
