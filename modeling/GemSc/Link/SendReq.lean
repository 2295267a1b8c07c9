import GemSc.Core.Link

/-! What `sendReq` and `recv` can do to the buffers of a link: one inversion lemma each. -/

namespace GemSc
open Function

theorem InputVC.enqueue_cases (vc : InputVC) (p : PacketPtr) :
    (vc.Full ∧ vc.enqueue p = (false, vc)) ∨
      (¬ vc.Full ∧ (vc.enqueue p).1 = true ∧ (vc.enqueue p).2.buffer = vc.buffer ++ [p]) := by
  by_cases h : vc.capacity ≤ vc.buffer.length
  · exact .inl ⟨h, by simp [enqueue, h]⟩
  · exact .inr ⟨h, by simp [enqueue, h]⟩

theorem OutputVC.enqueue_cases (vc : OutputVC) (p : PacketPtr) :
    (vc.Full ∧ vc.enqueue p = (false, vc)) ∨
      (¬ vc.Full ∧ (vc.enqueue p).1 = true ∧ (vc.enqueue p).2.buffer = vc.buffer ++ [p]) := by
  by_cases h : vc.capacity ≤ vc.buffer.length
  · exact .inl ⟨h, by simp [enqueue, h]⟩
  · exact .inr ⟨h, by simp [enqueue, h]⟩

namespace UpstreamPort

theorem buffer_of_getElem? {u : UpstreamPort} {k : ℕ} {vc : InputVC} (h : u.inputVcs[k]? = some vc) :
    u.buffer k = vc.buffer := by simp [buffer, h]

theorem buffer_set {u : UpstreamPort} {i : ℕ} {vc : InputVC} (h : u.inputVcs[i]? = some vc)
    (vc' : InputVC) :
    buffer { u with inputVcs := u.inputVcs.set i vc' } = update u.buffer i vc'.buffer := by
  have hi : i < u.inputVcs.length := (List.getElem?_eq_some_iff.mp h).1
  funext k
  by_cases hk : k = i
  · subst hk
    simp [buffer, hi]
  · simp [buffer, hk, List.getElem?_set_ne (Ne.symm hk)]

theorem recv_cases (now : UInt64) (p : PacketPtr) (u : UpstreamPort) (m : Memory) :
    (∀ x, ((u.recv now p m).2.2.packet x).vcId = (m.packet x).vcId) ∧
    (((u.recv now p m).1 = false ∧ (u.recv now p m).2.1.buffer = u.buffer) ∨
      ((u.recv now p m).1 = true ∧ ∃ (i : ℕ) (vc : InputVC), (m.packet p).vcId = i ∧
        u.inputVcs[i]? = some vc ∧ ¬ vc.Full ∧
        (u.recv now p m).2.1.buffer = update u.buffer i (u.buffer i ++ [p]))) := by
  by_cases hr : vcInRange (m.packet p).vcId u.inputVcs.length
  · obtain ⟨-, hi⟩ := vcInRange_toNat hr
    cases hvc : u.inputVcs[(m.packet p).vcId.toNat]? with
    | none =>
      have hrecv : u.recv now p m = (false, { u with stats := (SlavePort.updateStats now p m u.stats).2 },
          (m.setDstCycle p now).setDstCycle p now) := by
        simp [recv, recvReq, SlavePort.updateStats, hr, hvc]
      rw [hrecv]
      exact ⟨by simp, .inl ⟨rfl, rfl⟩⟩
    | some vc =>
      have hbuf := buffer_of_getElem? hvc
      rcases vc.enqueue_cases p with ⟨-, henq⟩ | ⟨hfull, hok, happ⟩
      · have hrecv : u.recv now p m = (false,
            { u with
              stats := (SlavePort.updateStats now p m u.stats).2
              inputVcs := u.inputVcs.set (m.packet p).vcId.toNat vc.countDropped },
            (m.setDstCycle p now).setDstCycle p now) := by
          simp [recv, recvReq, SlavePort.updateStats, hr, hvc, henq]
        rw [hrecv]
        refine ⟨by simp, .inl ⟨rfl, (buffer_set hvc _).trans ?_⟩⟩
        exact (congrArg (update u.buffer _) hbuf.symm).trans (update_eq_self _ _)
      · have hrecv : u.recv now p m = (true,
            { u with
              stats := (SlavePort.updateStats now p m u.stats).2
              inputVcs := u.inputVcs.set (m.packet p).vcId.toNat (vc.enqueue p).2 },
            (m.setDstCycle p now).setDstCycle p now) := by
          have henq : vc.enqueue p = (true, (vc.enqueue p).2) := Prod.ext hok rfl
          rw [recv, recvReq]
          simp only [SlavePort.updateStats, Memory.vcId_setDstCycle, hr, if_true, hvc]
          rw [henq]
        rw [hrecv]
        refine ⟨by simp, .inr ⟨rfl, _, vc, hi.symm, hvc, hfull, (buffer_set hvc _).trans ?_⟩⟩
        rw [hbuf, ← happ]
  · have hrecv : u.recv now p m = (false, { u with stats := (SlavePort.updateStats now p m u.stats).2 },
        m.setDstCycle p now) := by
      simp [recv, recvReq, SlavePort.updateStats, hr]
    rw [hrecv]
    exact ⟨by simp, .inl ⟨rfl, rfl⟩⟩

end UpstreamPort

namespace DownstreamPort

theorem buffer_of_getElem? {d : DownstreamPort} {k : ℕ} {vc : OutputVC}
    (h : d.outputVcs[k]? = some vc) : d.buffer k = vc.buffer := by simp [buffer, h]

theorem buffer_setVc {d : DownstreamPort} {i : ℕ} {vc : OutputVC} (h : d.outputVcs[i]? = some vc)
    (vc' : OutputVC) : (d.setVc i vc').buffer = update d.buffer i vc'.buffer := by
  have hi : i < d.outputVcs.length := (List.getElem?_eq_some_iff.mp h).1
  funext k
  by_cases hk : k = i
  · subst hk
    simp [buffer, setVc, hi]
  · simp [buffer, setVc, hk, List.getElem?_set_ne (Ne.symm hk)]

theorem enqueueOrDrop_cases {d : DownstreamPort} {i : ℕ} {vc : OutputVC}
    (h : d.outputVcs[i]? = some vc) (p : PacketPtr) :
    (d.enqueueOrDrop i vc p).2.outputVcs.length = d.outputVcs.length ∧
    ((vc.Full ∧ d.enqueueOrDrop i vc p = (false, d.setVc i vc.countDropped) ∧
        (d.enqueueOrDrop i vc p).2.buffer = d.buffer) ∨
      (¬ vc.Full ∧ (d.enqueueOrDrop i vc p).1 = true ∧
        (d.enqueueOrDrop i vc p).2.buffer = update d.buffer i (d.buffer i ++ [p]))) := by
  have hbuf := buffer_of_getElem? h
  rcases vc.enqueue_cases p with ⟨hfull, henq⟩ | ⟨hfull, hok, happ⟩
  · have hdrop : d.enqueueOrDrop i vc p = (false, d.setVc i vc.countDropped) := by
      simp [enqueueOrDrop, henq]
    rw [hdrop]
    refine ⟨by simp [setVc], .inl ⟨hfull, rfl, (buffer_setVc h _).trans ?_⟩⟩
    exact (congrArg (update d.buffer i) hbuf.symm).trans (update_eq_self _ _)
  · have henq : d.enqueueOrDrop i vc p = (true, d.setVc i (vc.enqueue p).2) := by
      have henq : vc.enqueue p = (true, (vc.enqueue p).2) := Prod.ext hok rfl
      rw [enqueueOrDrop, henq]
    rw [henq]
    refine ⟨by simp [setVc], .inr ⟨hfull, rfl, (buffer_setVc h _).trans ?_⟩⟩
    rw [hbuf, ← happ]

end DownstreamPort

namespace Link

structure Frame (l l' : Link) : Prop where
  wires : l'.wires = l.wires
  outputs : l'.down.outputVcs.length = l.down.outputVcs.length
  vcId : ∀ x, (l'.mem.packet x).vcId = (l.mem.packet x).vcId

def Wired (l : Link) : Prop := (l.wires .down).sendTarget = none ∨ l.Linked

theorem masterSend_cases (o : Owners) (p : PacketPtr) {l : Link} (hl : l.Wired) :
    Frame l (l.masterSend o p).2 ∧
    (l.masterSend o p).2.down.outputVcs = l.down.outputVcs ∧
    (((l.masterSend o p).1 = false ∧ (l.masterSend o p).2.up.buffer = l.up.buffer) ∨
      ((l.masterSend o p).1 = true ∧ ∃ (i : ℕ) (vc : InputVC), (l.mem.packet p).vcId = i ∧
        l.up.inputVcs[i]? = some vc ∧ ¬ vc.Full ∧
        (l.masterSend o p).2.up.buffer = update l.up.buffer i (l.up.buffer i ++ [p]))) := by
  rcases hl with hnone | hl
  · have hsend : l.masterSend o p = (false, { l with
        down := { l.down with stats := MasterPort.countSent l.mem p l.down.stats } }) := by
      unfold masterSend send
      rw [hnone]
    rw [hsend]
    exact ⟨⟨rfl, rfl, fun _ => rfl⟩, rfl, .inl ⟨rfl, rfl⟩⟩
  have hsend : l.masterSend o p = (l.up.recv o.now p l.mem |>.1,
      { l with
        down := { l.down with stats := MasterPort.countSent l.mem p l.down.stats }
        up := (l.up.recv o.now p l.mem).2.1
        mem := (l.up.recv o.now p l.mem).2.2 }) := by
    unfold masterSend send
    rw [show (l.wires .down).sendTarget = some .up from hl]
    rfl
  obtain ⟨hvc, hcases⟩ := l.up.recv_cases o.now p l.mem
  rw [hsend]
  exact ⟨⟨rfl, rfl, hvc⟩, rfl, hcases⟩

theorem sendReq_of_outOfRange (o : Owners) {p : PacketPtr} {l : Link}
    (hr : ¬ vcInRange (l.mem.packet p).vcId l.down.outputVcs.length) :
    l.sendReq o p = (false, l) := by
  rw [sendReq, if_neg hr]

theorem sendReq_of_queued (o : Owners) {p : PacketPtr} {l : Link} {vc : OutputVC}
    (hr : vcInRange (l.mem.packet p).vcId l.down.outputVcs.length)
    (hvc : l.down.outputVcs[(l.mem.packet p).vcId.toNat]? = some vc) (hne : vc.buffer ≠ []) :
    l.sendReq o p = ((l.down.enqueueOrDrop (l.mem.packet p).vcId.toNat vc p).1,
      { l with down := (l.down.enqueueOrDrop (l.mem.packet p).vcId.toNat vc p).2 }) := by
  rw [sendReq, if_pos hr, hvc]
  exact if_pos hne

theorem sendReq_of_empty (o : Owners) {p : PacketPtr} {l : Link} {vc : OutputVC}
    (hr : vcInRange (l.mem.packet p).vcId l.down.outputVcs.length)
    (hvc : l.down.outputVcs[(l.mem.packet p).vcId.toNat]? = some vc) (hnil : vc.buffer = []) :
    l.sendReq o p = if (l.masterSend o p).1 then (true, (l.masterSend o p).2)
      else (((l.masterSend o p).2.down.enqueueOrDrop (l.mem.packet p).vcId.toNat vc p).1,
        { (l.masterSend o p).2 with down :=
          ((l.masterSend o p).2.down.enqueueOrDrop (l.mem.packet p).vcId.toNat vc p).2 }) := by
  rw [sendReq, if_pos hr, hvc]
  refine (if_neg (not_not.mpr hnil)).trans ?_
  rcases l.masterSend o p with ⟨ok, l'⟩
  cases ok <;> rfl

/-- `sendReq` refuses and changes no buffer, or appends the packet to exactly one of the
two buffers of its VC; the input buffer only when the output buffer is empty. -/
theorem sendReq_cases (o : Owners) (p : PacketPtr) {l : Link} (hl : l.Wired) :
    Frame l (l.sendReq o p).2 ∧
    (((l.sendReq o p).1 = false ∧ (l.sendReq o p).2.down.buffer = l.down.buffer ∧
        (l.sendReq o p).2.up.buffer = l.up.buffer) ∨
      ((l.sendReq o p).1 = true ∧ ∃ i : ℕ, (l.mem.packet p).vcId = i ∧ l.inRange i ∧
        (((l.sendReq o p).2.down.buffer = update l.down.buffer i (l.down.buffer i ++ [p]) ∧
            (l.sendReq o p).2.up.buffer = l.up.buffer) ∨
          (l.down.buffer i = [] ∧ (l.sendReq o p).2.down.buffer = l.down.buffer ∧
            (l.sendReq o p).2.up.buffer = update l.up.buffer i (l.up.buffer i ++ [p]))))) := by
  by_cases hr : vcInRange (l.mem.packet p).vcId l.down.outputVcs.length
  · obtain ⟨hlt, hi⟩ := vcInRange_toNat hr
    have hrange : l.inRange (l.mem.packet p).vcId.toNat := by rwa [inRange, hi]
    obtain ⟨vc, hvc⟩ : ∃ vc, l.down.outputVcs[(l.mem.packet p).vcId.toNat]? = some vc :=
      ⟨_, List.getElem?_eq_getElem hlt⟩
    by_cases hnil : vc.buffer = []
    · obtain ⟨hframe, hvcs, hcases⟩ := masterSend_cases o p hl
      have hdown : (l.masterSend o p).2.down.buffer = l.down.buffer := by
        funext k
        simp [DownstreamPort.buffer, hvcs]
      rw [sendReq_of_empty o hr hvc hnil]
      rcases hcases with ⟨hok, hup⟩ | ⟨hok, i, ivc, hiv, -, -, hup⟩
      · -- the direct send failed: the packet goes to the output VC, or nowhere
        rw [if_neg (Bool.eq_false_iff.mp hok)]
        obtain ⟨hlen, henq⟩ := DownstreamPort.enqueueOrDrop_cases (hvcs ▸ hvc) p
        refine ⟨⟨hframe.wires, hlen.trans hframe.outputs, hframe.vcId⟩, ?_⟩
        rcases henq with ⟨-, hdrop, hsame⟩ | ⟨-, hok, happ⟩
        · exact .inl ⟨by rw [hdrop], hsame.trans hdown, hup⟩
        · exact .inr ⟨hok, _, hi.symm, hrange, .inl ⟨by rw [happ, hdown], hup⟩⟩
      · rw [if_pos hok]
        obtain rfl : (l.mem.packet p).vcId.toNat = i := by omega
        have hempty : l.down.buffer (l.mem.packet p).vcId.toNat = [] :=
          (DownstreamPort.buffer_of_getElem? hvc).trans hnil
        exact ⟨hframe, .inr ⟨rfl, _, hiv, hrange, .inr ⟨hempty, hdown, hup⟩⟩⟩
    · rw [sendReq_of_queued o hr hvc hnil]
      obtain ⟨hlen, hcases⟩ := DownstreamPort.enqueueOrDrop_cases hvc p
      refine ⟨⟨rfl, hlen, fun _ => rfl⟩, ?_⟩
      rcases hcases with ⟨-, hdrop, hsame⟩ | ⟨-, hok, happ⟩
      · exact .inl ⟨by rw [hdrop], hsame, rfl⟩
      · exact .inr ⟨hok, _, hi.symm, hrange, .inl ⟨happ, rfl⟩⟩
  · rw [sendReq_of_outOfRange o hr]
    exact ⟨⟨rfl, rfl, fun _ => rfl⟩, .inl ⟨rfl, rfl, rfl⟩⟩

end Link
end GemSc
