import GemSc.Link.Lanes

/-! A `DownstreamPort` against any peer: a call that may reach the peer is given the answer that
the peer would make. `Link` is the case of a peer that is an `UpstreamPort`. -/

namespace GemSc
open Function

namespace DownstreamPort

structure Sent where
  answer : Bool
  delivered : Bool
  port : DownstreamPort

structure Attempt where
  vc : ℕ
  packet : PacketPtr
  delivered : Bool
  deriving DecidableEq

def enqueueSent (d : DownstreamPort) (i : ℕ) (vc : OutputVC) (p : PacketPtr) : Sent :=
  ⟨(d.enqueueOrDrop i vc p).1, false, (d.enqueueOrDrop i vc p).2⟩

def sendReq (peer : Bool) (m : Memory) (p : PacketPtr) (d : DownstreamPort) : Sent :=
  let vcId := (m.packet p).vcId
  if vcInRange vcId d.outputVcs.length then
    match d.outputVcs[vcId.toNat]? with
    | none => ⟨false, false, d⟩
    | some vc =>
      if vc.buffer ≠ [] then d.enqueueSent vcId.toNat vc p
      else
        -- `MasterPort::sendReq`
        let counted := { d with stats := MasterPort.countSent m p d.stats }
        if peer then ⟨true, true, counted⟩ else counted.enqueueSent vcId.toNat vc p
  else ⟨false, false, d⟩

def trySend (peer : Bool) (m : Memory) (i : ℕ) (d : DownstreamPort) : Sent :=
  match d.outputVcs[i]? with
  | none => ⟨true, false, d⟩
  | some vc => match vc.buffer with
    | [] => ⟨true, false, d⟩
    | p :: _ =>
      let r := d.sendReq peer m p
      if r.answer then
        { r with port :=
          { r.port with outputVcs := r.port.outputVcs.modify i OutputVC.popForwarded } }
      else r

def tickFrom (peer : ℕ → Bool) (m : Memory) : List ℕ → DownstreamPort → DownstreamPort × List Attempt
  | [], d => (d, [])
  | i :: is, d =>
    let r := d.trySend (peer i) m i
    let rest := tickFrom peer m is r.port
    (rest.1, ((d.buffer i).head?.map fun p => ⟨i, p, r.delivered⟩).toList ++ rest.2)

def tick (peer : ℕ → Bool) (m : Memory) (d : DownstreamPort) : DownstreamPort × List Attempt :=
  tickFrom peer m (List.range d.outputVcs.length) d

def Coherent (m : Memory) (d : DownstreamPort) : Prop :=
  ∀ k, ∀ p ∈ d.buffer k, (m.packet p).vcId = k

variable {d : DownstreamPort} {m : Memory} {p : PacketPtr} {peer : Bool} {i k : ℕ}

theorem sendReq_cases (peer : Bool) (m : Memory) (p : PacketPtr) (d : DownstreamPort) :
    (d.sendReq peer m p).port.outputVcs.length = d.outputVcs.length ∧
      (((d.sendReq peer m p).answer = false ∧ (d.sendReq peer m p).delivered = false ∧
          vcInRange (m.packet p).vcId d.outputVcs.length = false ∧
          (d.sendReq peer m p).port = d) ∨
        ∃ (k : ℕ) (vc : OutputVC), (m.packet p).vcId = k ∧ vcInRange k d.outputVcs.length ∧
          d.outputVcs[k]? = some vc ∧
          ((vc.buffer = [] ∧ peer = true ∧ (d.sendReq peer m p).answer = true ∧
              (d.sendReq peer m p).delivered = true ∧
              (d.sendReq peer m p).port.outputVcs = d.outputVcs) ∨
            ((vc.buffer ≠ [] ∨ peer = false) ∧ (d.sendReq peer m p).answer = (vc.offer p).1 ∧
              (d.sendReq peer m p).delivered = false ∧
              (d.sendReq peer m p).port.outputVcs = d.outputVcs.set k (vc.offer p).2))) := by
  cases hr : vcInRange (m.packet p).vcId d.outputVcs.length with
  | false =>
    have hreq : d.sendReq peer m p = ⟨false, false, d⟩ := by
      rw [sendReq, hr]
      rfl
    rw [hreq]
    exact ⟨rfl, .inl ⟨rfl, rfl, rfl, rfl⟩⟩
  | true =>
    obtain ⟨hlt, hk⟩ := vcInRange_toNat hr
    have hget : d.outputVcs[(m.packet p).vcId.toNat]? = some (d.outputVcs[(m.packet p).vcId.toNat]) :=
      List.getElem?_eq_getElem hlt
    have hreq : d.sendReq peer m p =
        if d.outputVcs[(m.packet p).vcId.toNat].buffer ≠ [] then
          d.enqueueSent (m.packet p).vcId.toNat (d.outputVcs[(m.packet p).vcId.toNat]) p
        else if peer then ⟨true, true, { d with stats := MasterPort.countSent m p d.stats }⟩
        else enqueueSent { d with stats := MasterPort.countSent m p d.stats }
          (m.packet p).vcId.toNat (d.outputVcs[(m.packet p).vcId.toNat]) p := by
      rw [sendReq]
      simp only [hr, if_true, hget]
    rw [hreq]
    split_ifs with hne hpeer
    · refine ⟨by simp [enqueueSent, enqueueOrDrop_eq, setVc], .inr ⟨_, _, hk.symm, hk ▸ hr, hget, .inr ?_⟩⟩
      exact ⟨.inl hne, by rw [enqueueSent, enqueueOrDrop_eq], rfl, by
        rw [enqueueSent, enqueueOrDrop_eq]
        rfl⟩
    · exact ⟨rfl, .inr ⟨_, _, hk.symm, hk ▸ hr, hget, .inl ⟨not_not.mp hne, hpeer, rfl, rfl, rfl⟩⟩⟩
    · refine ⟨by simp [enqueueSent, enqueueOrDrop_eq, setVc], .inr ⟨_, _, hk.symm, hk ▸ hr, hget, .inr ?_⟩⟩
      exact ⟨.inr (Bool.eq_false_iff.mpr hpeer), by rw [enqueueSent, enqueueOrDrop_eq], rfl, by
        rw [enqueueSent, enqueueOrDrop_eq]
        rfl⟩

theorem buffer_of_set {d' : DownstreamPort} {vc vc' : OutputVC} (hget : d.outputVcs[i]? = some vc)
    (hvcs : d'.outputVcs = d.outputVcs.set i vc') : d'.buffer = update d.buffer i vc'.buffer := by
  rw [← buffer_setVc hget]
  funext k
  rw [buffer, hvcs]
  rfl

theorem trySend_retry (hc : d.Coherent m) (peer : Bool) {vc : OutputVC}
    (hvc : d.outputVcs[i]? = some vc) :
    (d.trySend peer m i).delivered = false ∧
      (d.trySend peer m i).port.outputVcs =
        d.outputVcs.set i (vc.retry (vcInRange i d.outputVcs.length)) := by
  cases hbuf : vc.buffer with
  | nil =>
    have htry : d.trySend peer m i = ⟨true, false, d⟩ := by simp [trySend, hvc, hbuf]
    have hretry : ∀ b, vc.retry b = vc := fun b => by simp [OutputVC.retry, hbuf]
    rw [htry, hretry, set_getElem?_self hvc]
    exact ⟨rfl, rfl⟩
  | cons p rest =>
    have hp : (m.packet p).vcId = i := by
      apply hc i p
      simp [buffer, hvc, hbuf]
    have htry : d.trySend peer m i = if (d.sendReq peer m p).answer then
        { d.sendReq peer m p with port := { (d.sendReq peer m p).port with
          outputVcs := (d.sendReq peer m p).port.outputVcs.modify i OutputVC.popForwarded } }
        else d.sendReq peer m p := by
      simp [trySend, hvc, hbuf]
    rw [htry]
    obtain ⟨-, ⟨hno, hdel, hout, hport⟩ | ⟨k, vc', hk, hr, hget, hcases⟩⟩ := d.sendReq_cases peer m p
    · rw [hp] at hout
      have hretry : vc.retry false = vc := by simp [OutputVC.retry, hbuf]
      rw [if_neg (Bool.eq_false_iff.mp hno), hport, hout, hretry, set_getElem?_self hvc]
      exact ⟨hdel, rfl⟩
    · obtain rfl : i = k := Int.ofNat.inj (hp.symm.trans hk)
      obtain rfl := Option.some.inj (hvc.symm.trans hget)
      rcases hcases with ⟨hnil, -⟩ | ⟨-, hans, hdel, hvcs⟩
      · rw [hbuf] at hnil
        cases hnil
      · rw [hans, hr]
        by_cases hfull : vc.capacity ≤ vc.buffer.length
        · have hoffer : vc.offer p = (false, vc.countDropped) := if_pos hfull
          rw [hoffer] at hvcs ⊢
          rw [if_neg Bool.false_ne_true, OutputVC.retry_of_full (by simp [hbuf]) hfull]
          exact ⟨hdel, hvcs⟩
        · have hoffer : vc.offer p = (true, { vc with
              buffer := vc.buffer ++ [p]
              stats := { vc.stats with enqueued := vc.stats.enqueued + 1 } }) := by
            simp [OutputVC.offer, OutputVC.enqueue, hfull]
          rw [hoffer] at hvcs ⊢
          rw [if_pos rfl]
          refine ⟨hdel, ?_⟩
          show List.modify _ _ _ = _
          -- the pop takes off the front the packet that was just enqueued again
          have hfull' : ¬ vc.capacity ≤ rest.length + 1 := by simpa [hbuf] using hfull
          rw [hvcs, modify_set]
          simp [OutputVC.popForwarded, OutputVC.retry, hbuf, hfull']

theorem trySend_none (peer : Bool) (m : Memory) (h : d.outputVcs[i]? = none) :
    d.trySend peer m i = ⟨true, false, d⟩ := by
  rw [trySend, h]

theorem getElem?_trySend (hc : d.Coherent m) (peer : Bool) (i k : ℕ) :
    (d.trySend peer m i).port.outputVcs[k]? = d.outputVcs[k]?.map fun vc =>
      if k = i then vc.retry (vcInRange k d.outputVcs.length) else vc := by
  cases hvc : d.outputVcs[i]? with
  | none =>
    rw [trySend_none peer m hvc]
    by_cases hk : k = i
    · subst hk
      rw [hvc]
      rfl
    · simp [hk]
  | some vc =>
    have hi : i < d.outputVcs.length := (List.getElem?_eq_some_iff.mp hvc).1
    rw [(trySend_retry hc peer hvc).2]
    by_cases hk : k = i
    · subst hk
      rw [List.getElem?_set_self hi, hvc]
      simp
    · rw [List.getElem?_set_ne (Ne.symm hk)]
      simp [hk]

theorem length_trySend (peer : Bool) (m : Memory) (i : ℕ) (d : DownstreamPort) :
    (d.trySend peer m i).port.outputVcs.length = d.outputVcs.length := by
  unfold trySend
  split
  · rfl
  · split
    · rfl
    · next p _ _ =>
      have hlen := (d.sendReq_cases peer m p).1
      dsimp only
      split_ifs
      · rw [List.length_modify, hlen]
      · exact hlen

theorem length_tickFrom (peer : ℕ → Bool) (m : Memory) (is : List ℕ) (d : DownstreamPort) :
    (tickFrom peer m is d).1.outputVcs.length = d.outputVcs.length := by
  induction is generalizing d with
  | nil => rfl
  | cons i is ih => exact (ih _).trans (length_trySend ..)

theorem Coherent.of_retried {d' : DownstreamPort} (hc : d.Coherent m) (retried : ℕ → Prop)
    [DecidablePred retried] (b : ℕ → Bool)
    (h : ∀ k, d'.outputVcs[k]? = d.outputVcs[k]?.map fun vc => if retried k then vc.retry (b k) else vc) :
    d'.Coherent m := by
  intro k p hp
  apply hc k p
  unfold buffer at hp ⊢
  rw [h k] at hp
  cases hvc : d.outputVcs[k]? with
  | none => simp [hvc] at hp
  | some vc =>
    simp only [hvc, Option.map_some, Option.getD_some] at hp ⊢
    split_ifs at hp
    · exact (vc.mem_buffer_retry _ p).mp hp
    · exact hp

theorem Coherent.trySend (hc : d.Coherent m) (peer : Bool) (i : ℕ) :
    (d.trySend peer m i).port.Coherent m :=
  hc.of_retried (· = i) (vcInRange · d.outputVcs.length) (getElem?_trySend hc peer i)

theorem tickFrom_coherent (hc : d.Coherent m) (peer : ℕ → Bool) {is : List ℕ} (hnd : is.Nodup) :
    (∀ k, (tickFrom peer m is d).1.outputVcs[k]? = d.outputVcs[k]?.map fun vc =>
        if k ∈ is then vc.retry (vcInRange k d.outputVcs.length) else vc) ∧
      ∀ a ∈ (tickFrom peer m is d).2, a.delivered = false := by
  -- on the indices still to come, with the port that the earlier attempts left
  induction is generalizing d with
  | nil =>
    refine ⟨fun k => ?_, fun a ha => (nomatch ha)⟩
    simp [tickFrom]
  | cons i is ih =>
    obtain ⟨hi, hnd⟩ := List.nodup_cons.mp hnd
    obtain ⟨hvcs, hlog⟩ := ih (hc.trySend (peer i) i) hnd
    constructor
    · intro k
      show (tickFrom peer m is (d.trySend (peer i) m i).port).1.outputVcs[k]? = _
      rw [hvcs, getElem?_trySend hc, length_trySend, Option.map_map]
      congr 1
      funext vc
      by_cases hk : k = i
      · subst hk
        simp [hi]
      · simp [hk]
    · intro a ha
      rcases List.mem_append.mp ha with hhere | hlater
      · have hdelivered : (d.trySend (peer i) m i).delivered = false := by
          cases hvc : d.outputVcs[i]? with
          | none => rw [trySend_none _ m hvc]
          | some vc => exact (trySend_retry hc (peer i) hvc).1
        rw [Option.mem_toList, Option.map_eq_some_iff] at hhere
        obtain ⟨p, -, rfl⟩ := hhere
        exact hdelivered
      · exact hlog a hlater

theorem tick_coherent (hc : d.Coherent m) (peer : ℕ → Bool) :
    (∀ k : ℕ, (d.tick peer m).1.outputVcs[k]? =
        d.outputVcs[k]?.map fun vc => vc.retry (vcInRange k d.outputVcs.length)) ∧
      ∀ a ∈ (d.tick peer m).2, a.delivered = false := by
  obtain ⟨hvcs, hlog⟩ := tickFrom_coherent hc peer List.nodup_range
  refine ⟨fun k => (hvcs k).trans ?_, hlog⟩
  cases hvc : d.outputVcs[k]? with
  | none => rfl
  | some vc =>
    have hk : k < d.outputVcs.length := (List.getElem?_eq_some_iff.mp hvc).1
    simp [hk]

theorem Coherent.tick (hc : d.Coherent m) (peer : ℕ → Bool) : (d.tick peer m).1.Coherent m := by
  refine hc.of_retried (fun _ => True) (vcInRange · d.outputVcs.length) fun k => ?_
  rw [(tick_coherent hc peer).1]
  simp only [if_true]

end DownstreamPort

namespace Link
variable {l : Link}

theorem down_masterSend (o : Owners) (p : PacketPtr) (hl : l.Wired) :
    (l.masterSend o p).2.down =
      { l.down with stats := MasterPort.countSent l.mem p l.down.stats } := by
  rcases hl with hnone | hl
  · rw [masterSend, send]
    simp only [hnone]
  · rw [masterSend_eq o p hl]

theorem sendReq_eq_port (o : Owners) (p : PacketPtr) (hl : l.Wired) :
    (l.sendReq o p).1 = (l.down.sendReq (l.masterSend o p).1 l.mem p).answer ∧
      (l.sendReq o p).2.down = (l.down.sendReq (l.masterSend o p).1 l.mem p).port := by
  have hdown := down_masterSend o p hl
  rw [sendReq, DownstreamPort.sendReq]
  cases hr : vcInRange (l.mem.packet p).vcId l.down.outputVcs.length with
  | false => exact ⟨rfl, rfl⟩
  | true =>
    cases hvc : l.down.outputVcs[(l.mem.packet p).vcId.toNat]? with
    | none => exact ⟨rfl, rfl⟩
    | some vc =>
      simp only [if_true]
      by_cases hne : vc.buffer = []
      · simp only [hne, ne_eq, not_true_eq_false, if_false]
        cases hsend : (l.masterSend o p).1 with
        | true =>
          rw [show l.masterSend o p = (true, (l.masterSend o p).2) from Prod.ext hsend rfl]
          exact ⟨rfl, hdown⟩
        | false =>
          rw [show l.masterSend o p = (false, (l.masterSend o p).2) from Prod.ext hsend rfl]
          simp only [hdown, Bool.false_eq_true, if_false, DownstreamPort.enqueueSent, and_self]
      · simp only [hne, ne_eq, not_false_eq_true, if_true, DownstreamPort.enqueueSent, and_self]

theorem outputVcs_downTick (o : Owners) (hc : l.Coherent) (peer : ℕ → Bool) :
    (l.downTick o).down.outputVcs = (l.down.tick peer l.mem).1.outputVcs := by
  apply List.ext_getElem?
  intro k
  rw [getElem?_downTick o hc, (DownstreamPort.tick_coherent hc.output peer).1]
  rfl

end Link
end GemSc
