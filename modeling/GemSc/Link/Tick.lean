import GemSc.Link.SendReq

/-! The two `tick`s of a link. `DownstreamPort::tick` never reaches the peer: the retry
finds its own packet still in the buffer, so the packet goes to the back of that buffer. -/

namespace GemSc

theorem modify_set {α : Type*} (l : List α) (i : ℕ) (f : α → α) (a : α) :
    (l.set i a).modify i f = l.set i (f a) := by
  apply List.ext_getElem?
  intro k
  by_cases hk : i = k
  · subst hk
    by_cases hi : i < l.length <;> simp [hi]
  · simp [List.getElem?_set_ne hk, hk]

theorem set_getElem?_self {α : Type*} {l : List α} {i : ℕ} {a : α} (h : l[i]? = some a) :
    l.set i a = l := by
  obtain ⟨hi, rfl⟩ := List.getElem?_eq_some_iff.mp h
  exact List.set_getElem_self hi

/-- `trySend` on a VC whose packets carry its index: a rotation, or a counted drop. -/
def OutputVC.retry (inRange : Bool) (vc : OutputVC) : OutputVC :=
  match vc.buffer with
  | [] => vc
  | p :: rest =>
    if inRange then
      if vc.capacity ≤ vc.buffer.length then vc.countDropped
      else { vc with
        buffer := rest ++ [p]
        stats := { vc.stats with
          enqueued := vc.stats.enqueued + 1
          forwarded := vc.stats.forwarded + 1 } }
    else vc

theorem OutputVC.buffer_retry (b : Bool) (vc : OutputVC) :
    (vc.retry b).buffer =
      if b ∧ vc.buffer.length < vc.capacity then vc.buffer.rotate 1 else vc.buffer := by
  unfold retry
  cases hbuf : vc.buffer with
  | nil => simp [hbuf]
  | cons p rest =>
    by_cases hc : vc.capacity ≤ rest.length + 1
    · have hlt : ¬ rest.length + 1 < vc.capacity := not_lt.mpr hc
      cases b <;> simp [hc, hlt, hbuf, countDropped]
    · have hlt : rest.length + 1 < vc.capacity := not_le.mp hc
      cases b <;> simp [hc, hlt, hbuf]

theorem OutputVC.retry_of_full {vc : OutputVC} (hne : vc.buffer ≠ [])
    (hfull : vc.capacity ≤ vc.buffer.length) : vc.retry true = vc.countDropped := by
  obtain ⟨p, rest, hbuf⟩ := List.exists_cons_of_ne_nil hne
  rw [hbuf, List.length_cons] at hfull
  simp [retry, hbuf, hfull]

theorem OutputVC.forwarded_retry {vc : OutputVC} (hne : vc.buffer ≠ [])
    (hroom : ¬ vc.capacity ≤ vc.buffer.length) :
    (vc.retry true).stats.forwarded = vc.stats.forwarded + 1 := by
  obtain ⟨p, rest, hbuf⟩ := List.exists_cons_of_ne_nil hne
  rw [hbuf, List.length_cons] at hroom
  simp [retry, hbuf, hroom]

theorem OutputVC.mem_buffer_retry (b : Bool) (vc : OutputVC) (p : PacketPtr) :
    p ∈ (vc.retry b).buffer ↔ p ∈ vc.buffer := by
  rw [buffer_retry]
  split_ifs
  · exact List.mem_rotate
  · rfl

namespace Link

structure Coherent (l : Link) : Prop where
  output : ∀ k, ∀ p ∈ l.down.buffer k, (l.mem.packet p).vcId = k
  input : ∀ k, ∀ p ∈ l.up.buffer k, (l.mem.packet p).vcId = k

def withOutputVcs (l : Link) (vcs : List OutputVC) : Link :=
  { l with down := { l.down with outputVcs := vcs } }

theorem trySend_eq (o : Owners) {l : Link} (hc : l.Coherent) {i : ℕ} {vc : OutputVC}
    (h : l.down.outputVcs[i]? = some vc) :
    (l.trySend o i).2 =
      l.withOutputVcs (l.down.outputVcs.set i (vc.retry (l.inRange i))) := by
  have hself : l.down.outputVcs.set i vc = l.down.outputVcs := set_getElem?_self h
  cases hbuf : vc.buffer with
  | nil =>
    have hretry : vc.retry (l.inRange i) = vc := by simp [OutputVC.retry, hbuf]
    rw [hretry, hself]
    simp [trySend, h, hbuf, withOutputVcs]
  | cons p rest =>
    have hmem : p ∈ l.down.buffer i := by
      rw [DownstreamPort.buffer_of_getElem? h, hbuf]
      exact List.mem_cons_self ..
    have hvc : (l.mem.packet p).vcId = i := hc.output i p hmem
    have hne : vc.buffer ≠ [] := by simp [hbuf]
    by_cases hr : l.inRange i
    · have hr' : vcInRange (i : ℤ) l.down.outputVcs.length = true := hr
      have hreq : l.sendReq o p = ((l.down.enqueueOrDrop i vc p).1,
          { l with down := (l.down.enqueueOrDrop i vc p).2 }) := by
        have hget : l.down.outputVcs[(l.mem.packet p).vcId.toNat]? = some vc := by rwa [hvc]
        have hqueued := sendReq_of_queued o (by rwa [hvc]) hget hne
        rwa [hvc] at hqueued
      by_cases hfull : vc.capacity ≤ vc.buffer.length
      · have hdrop : l.down.enqueueOrDrop i vc p = (false, l.down.setVc i vc.countDropped) := by
          simp [DownstreamPort.enqueueOrDrop, OutputVC.enqueue, hfull]
        have hretry : vc.retry (l.inRange i) = vc.countDropped := by
          rw [hr]
          exact OutputVC.retry_of_full hne hfull
        simp [trySend, h, hbuf, hreq, hdrop, hretry, withOutputVcs, DownstreamPort.setVc]
      · have henq : l.down.enqueueOrDrop i vc p = (true, l.down.setVc i { vc with
            buffer := vc.buffer ++ [p]
            stats := { vc.stats with enqueued := vc.stats.enqueued + 1 } }) := by
          simp [DownstreamPort.enqueueOrDrop, OutputVC.enqueue, hfull]
        have hfull' : ¬ vc.capacity ≤ rest.length + 1 := by simpa [hbuf] using hfull
        -- the pop takes off the front the packet that was just enqueued again
        simp [trySend, h, hbuf, hreq, henq, modify_set, withOutputVcs, DownstreamPort.setVc,
          OutputVC.popForwarded, OutputVC.retry, hr, hfull']
    · have hreq : l.sendReq o p = (false, l) := by
        refine sendReq_of_outOfRange o ?_
        rwa [hvc]
      have hretry : vc.retry (l.inRange i) = vc := by simp [OutputVC.retry, hbuf, hr]
      rw [hretry, hself]
      simp [trySend, h, hbuf, hreq, withOutputVcs]

def sweep (l : Link) (n : ℕ) : Link :=
  l.withOutputVcs (l.down.outputVcs.mapIdx fun i vc => if i < n then vc.retry (l.inRange i) else vc)

theorem getElem?_sweep (l : Link) (n k : ℕ) : (l.sweep n).down.outputVcs[k]? =
    l.down.outputVcs[k]?.map fun vc => if k < n then vc.retry (l.inRange k) else vc := by
  simp [sweep, withOutputVcs]

theorem Coherent.sweep {l : Link} (hc : l.Coherent) (n : ℕ) : (l.sweep n).Coherent := by
  refine ⟨fun k p hp => hc.output k p ?_, hc.input⟩
  unfold DownstreamPort.buffer at hp ⊢
  rw [getElem?_sweep] at hp
  cases hvc : l.down.outputVcs[k]? with
  | none => simp [hvc] at hp
  | some vc =>
    simp only [hvc, Option.map_some, Option.getD_some] at hp ⊢
    split_ifs at hp
    · exact (vc.mem_buffer_retry _ p).mp hp
    · exact hp

theorem sweep_succ (o : Owners) {l : Link} (hc : l.Coherent) {n : ℕ}
    (hn : n < l.down.outputVcs.length) : ((l.sweep n).trySend o n).2 = l.sweep (n + 1) := by
  have hvc : (l.sweep n).down.outputVcs[n]? = some l.down.outputVcs[n] := by
    simp [getElem?_sweep, hn]
  have hlen : (l.sweep n).inRange n = l.inRange n := by simp [inRange, Link.sweep, withOutputVcs]
  have hset : (l.sweep n).down.outputVcs.set n (l.down.outputVcs[n].retry (l.inRange n)) =
      (l.sweep (n + 1)).down.outputVcs := by
    apply List.ext_getElem?
    intro k
    by_cases hk : n = k
    · subst hk
      simp [hn, Link.sweep, withOutputVcs]
    · have hlt : k < n ↔ k < n + 1 := by omega
      rw [List.getElem?_set_ne hk, getElem?_sweep, getElem?_sweep]
      simp only [hlt]
  rw [trySend_eq o (hc.sweep n) hvc, hlen, hset]
  rfl

theorem downTick_eq (o : Owners) {l : Link} (hc : l.Coherent) :
    l.downTick o = l.sweep l.down.outputVcs.length := by
  have key : ∀ n ≤ l.down.outputVcs.length,
      (List.range n).foldl (fun l i => (l.trySend o i).2) l = l.sweep n := by
    intro n
    induction n with
    | zero =>
      have hid : (l.down.outputVcs.mapIdx fun _ vc => vc) = l.down.outputVcs := by
        apply List.ext_getElem?
        simp
      simp [sweep, withOutputVcs, hid]
    | succ n ih =>
      intro hn
      have hprefix := ih (Nat.le_of_succ_le hn)
      rw [List.range_succ, List.foldl_append, hprefix]
      exact sweep_succ o hc hn
  exact key _ le_rfl

theorem getElem?_downTick (o : Owners) {l : Link} (hc : l.Coherent) (k : ℕ) :
    (l.downTick o).down.outputVcs[k]? =
      l.down.outputVcs[k]?.map fun vc => vc.retry (l.inRange k) := by
  rw [downTick_eq o hc, getElem?_sweep]
  cases hvc : l.down.outputVcs[k]? with
  | none => rfl
  | some vc =>
    have hk : k < l.down.outputVcs.length := (List.getElem?_eq_some_iff.mp hvc).1
    simp [hk]

theorem downTick_frame (o : Owners) {l : Link} (hc : l.Coherent) :
    Frame l (l.downTick o) ∧ (l.downTick o).up = l.up ∧ (l.downTick o).mem = l.mem := by
  rw [downTick_eq o hc]
  exact ⟨⟨rfl, by simp [sweep, withOutputVcs], fun _ => rfl⟩, rfl, rfl⟩

end Link

namespace UpstreamPort

theorem getElem?_tickVcs (answer : ℕ → PacketPtr → Bool) (i : ℕ) (vcs : List InputVC) (k : ℕ) :
    (tickVcs answer i vcs).1[k]? = vcs[k]?.map fun vc =>
      match vc.buffer with
      | [] => vc
      | p :: _ => if answer (i + k) p then vc.pop else vc := by
  induction vcs generalizing i k with
  | nil => simp [tickVcs]
  | cons vc vcs ih =>
    cases k with
    | zero => cases hbuf : vc.buffer <;> simp [tickVcs, hbuf]
    | succ k =>
      have hik : i + 1 + k = i + (k + 1) := by omega
      cases hbuf : vc.buffer <;> simp [tickVcs, hbuf, ih, hik]

theorem filter_offers_tickVcs (answer : ℕ → PacketPtr → Bool) (i : ℕ) (vcs : List InputVC) (k : ℕ) :
    (tickVcs answer i vcs).2.filter (fun f => f.vc = i + k) =
      match vcs[k]?.bind (·.buffer.head?) with
      | none => []
      | some p => [⟨i + k, p, answer (i + k) p⟩] := by
  have later : ∀ (vcs : List InputVC) (i j : ℕ), j < i →
      (tickVcs answer i vcs).2.filter (fun f => f.vc = j) = [] := by
    intro vcs
    induction vcs with
    | nil => simp [tickVcs]
    | cons vc vcs ih =>
      intro i j hij
      have hne : i ≠ j := by omega
      cases hbuf : vc.buffer <;> simp [tickVcs, hbuf, hne, ih (i + 1) j (by omega)]
  induction vcs generalizing i k with
  | nil => simp [tickVcs]
  | cons vc vcs ih =>
    cases k with
    | zero => cases hbuf : vc.buffer <;> simp [tickVcs, hbuf, later vcs (i + 1) i (by omega)]
    | succ k =>
      have hik : i + (k + 1) = i + 1 + k := by omega
      have hne : i ≠ i + 1 + k := by omega
      cases hbuf : vc.buffer <;> simp [tickVcs, hbuf, hik, hne, ih]

end UpstreamPort
end GemSc
