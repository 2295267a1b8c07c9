import GemSc.Link.Delivery

/-! Draining: whether one tick of the sender moves a buffered packet into a peer VC that
has room. -/

namespace GemSc.Link

/-- Between `l` and `l'`, each output VC whose peer VC has room gave it its head, and
where the peer VC is full nothing moved. -/
def Drained (l l' : Link) : Prop :=
  ∀ k vo vi, l.down.outputVcs[k]? = some vo → l.up.inputVcs[k]? = some vi →
    (∀ p rest, vo.buffer = p :: rest → ¬ vi.Full →
      l'.down.buffer k = rest ∧ l'.up.buffer k = vi.buffer ++ [p]) ∧
    (vi.Full → l'.down.buffer k = vo.buffer ∧ l'.up.buffer k = vi.buffer)

theorem rotate_one_eq_self_iff {vc : OutputVC} :
    vc.buffer.rotate 1 = vc.buffer ↔ ∀ p ∈ vc.buffer, ∀ q ∈ vc.buffer, p = q := by
  rw [List.rotate_one_eq_self_iff_eq_replicate]
  constructor
  · rintro ⟨a, ha⟩ p hp q hq
    rw [ha] at hp hq
    exact (List.eq_of_mem_replicate hp).trans (List.eq_of_mem_replicate hq).symm
  · intro h
    cases hbuf : vc.buffer with
    | nil => exact ⟨0, rfl⟩
    | cons b rest =>
      refine ⟨b, List.eq_replicate_iff.mpr ⟨rfl, fun x hx => ?_⟩⟩
      exact h x (hbuf ▸ hx) b (hbuf ▸ List.mem_cons_self ..)

/-- One tick of the sender drains exactly when there is nothing to drain, and leaves the
blocked VCs alone exactly when none of them has two different packets and room. -/
theorem drained_downTick_iff (o : Owners) {l : Link} (hc : l.Coherent) :
    Drained l (l.downTick o) ↔
      ∀ k vo vi, l.down.outputVcs[k]? = some vo → l.up.inputVcs[k]? = some vi →
        (¬ vi.Full → vo.buffer = []) ∧
        (vi.Full → vo.buffer.length < vo.capacity → l.inRange k →
          ∀ p ∈ vo.buffer, ∀ q ∈ vo.buffer, p = q) := by
  have hup : (l.downTick o).up = l.up := (downTick_frame o hc).2.1
  refine forall_congr' fun k => forall₄_congr fun vo vi ho hi => ?_
  have hout : (l.downTick o).down.buffer k = (vo.retry (l.inRange k)).buffer := by
    rw [LinkRun.buffer_downTick o hc, ho]
    rfl
  have hin : (l.downTick o).up.buffer k = vi.buffer := by
    rw [hup, UpstreamPort.buffer_of_getElem? hi]
  rw [hout, hin, OutputVC.buffer_retry]
  constructor
  · rintro ⟨hroom, hblocked⟩
    constructor
    · intro hfull
      cases hbuf : vo.buffer with
      | nil => rfl
      | cons p rest =>
        have := (hroom p rest hbuf hfull).2
        simp at this
    · intro hfull hlt hr
      have := (hblocked hfull).1
      rw [if_pos ⟨hr, hlt⟩] at this
      exact rotate_one_eq_self_iff.mp this
  · rintro ⟨hroom, hblocked⟩
    constructor
    · intro p rest hbuf hfull
      rw [hroom hfull] at hbuf
      cases hbuf
    · intro hfull
      refine ⟨?_, rfl⟩
      split_ifs with hcond
      · exact rotate_one_eq_self_iff.mpr (hblocked hfull hcond.2 hcond.1)
      · rfl

def waitingLink : Link where
  wires := pairedWires
  down := { DownstreamPort.new 0 [4] [] "" with
    outputVcs := [{ id := 0, priority := 0, buffer := [0], capacity := 4 }] }
  up := .new 0 [4] [] ""
  mem := ⟨fun _ => {}, fun _ => ⟨0, 0⟩⟩

theorem waitingLink_coherent : waitingLink.Coherent := by
  constructor
  · intro k p hp
    cases k with
    | zero => rfl
    | succ k => simp [waitingLink, DownstreamPort.buffer] at hp
  · intro k p hp
    cases k <;> simp [waitingLink, UpstreamPort.buffer, UpstreamPort.new] at hp

theorem drained_downTick_iff_demo : ¬ Drained waitingLink (waitingLink.downTick LinkRun.demoOwners) := by
  intro h
  have hcond := (drained_downTick_iff LinkRun.demoOwners waitingLink_coherent).mp h 0 _ _ rfl rfl
  have hroom : ¬ ({ id := 0, priority := 0, capacity := 4 } : InputVC).Full := by
    simp [InputVC.Full]
  exact absurd (hcond.1 hroom) (by decide)

/-- The tick leaves the packet where it is although the receiver has four places. -/
theorem tick_does_not_drain : waitingLink.Linked ∧ waitingLink.Coherent ∧
    (waitingLink.downTick LinkRun.demoOwners).down.buffer 0 = [0] ∧
    ¬ Drained waitingLink (waitingLink.downTick LinkRun.demoOwners) := by
  refine ⟨rfl, waitingLink_coherent, rfl, fun h => ?_⟩
  exact absurd ((h 0 _ _ rfl rfl).1 0 [] rfl (by simp [InputVC.Full])).1 (by decide)

end GemSc.Link
