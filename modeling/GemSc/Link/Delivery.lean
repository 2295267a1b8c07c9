import GemSc.Link.Lanes

/-! Delivery over a link: runs of producer calls and ticks, and when every VC is a FIFO
from the producer to the owner of the receiving port. -/

namespace GemSc
open Function

inductive LinkStep
  | sendReq (o : Owners) (p : PacketPtr)
  | downTick (o : Owners)
  | upTick (o : Owners)

/-- A link with its history: the packets whose `sendReq` returned true and the offers the
receiving owner accepted, both in order. -/
structure LinkRun where
  link : Link
  sent : List PacketPtr
  accepted : List Offer

namespace LinkRun

def step (r : LinkRun) : LinkStep → LinkRun
  | .sendReq o p =>
    { r with
      link := (r.link.sendReq o p).2
      sent := if (r.link.sendReq o p).1 then r.sent ++ [p] else r.sent }
  | .downTick o => { r with link := r.link.downTick o }
  | .upTick o =>
    { r with
      link := (r.link.upTick o).1
      accepted := r.accepted ++ (r.link.upTick o).2.filter (·.accepted) }

def run (l : Link) (steps : List LinkStep) : LinkRun := steps.foldl step ⟨l, [], []⟩

def delivered (r : LinkRun) (k : ℕ) : List PacketPtr :=
  (r.accepted.filter (·.vc = k)).map (·.packet)

def sentOn (r : LinkRun) (k : ℕ) : List PacketPtr :=
  r.sent.filter fun p => (r.link.mem.packet p).vcId = k

/-- Per VC: delivered, then buffered at the receiver, then buffered at the sender, is sent. -/
def Fifo (r : LinkRun) : Prop :=
  ∀ k, r.delivered k ++ r.link.up.buffer k ++ r.link.down.buffer k = r.sentOn k

theorem run_concat (l : Link) (steps : List LinkStep) (a : LinkStep) :
    run l (steps ++ [a]) = (run l steps).step a := by
  simp [run]

structure Shape (r : LinkRun) : Prop where
  linked : r.link.Linked
  coherent : r.link.Coherent
  range : ∀ k, r.link.down.buffer k ≠ [] → r.link.inRange k

theorem buffer_downTick (o : Owners) {l : Link} (hc : l.Coherent) (k : ℕ) :
    (l.downTick o).down.buffer k =
      (l.down.outputVcs[k]?.map fun vc => (vc.retry (l.inRange k)).buffer).getD [] := by
  rw [DownstreamPort.buffer, Link.getElem?_downTick o hc, Option.map_map]
  rfl

theorem buffer_upTick (o : Owners) (l : Link) (k : ℕ) : (l.upTick o).1.up.buffer k =
    match l.up.buffer k with
    | [] => []
    | p :: rest => if o.handleUpstreamRequest k p then rest else p :: rest := by
  have hlane := Lane.inputBuffer_upTick (o.handleUpstreamRequest k) (l.lane k)
  rw [← Link.lane_upTick] at hlane
  exact hlane

theorem filter_offers_upTick (o : Owners) (l : Link) (k : ℕ) :
    ((l.upTick o).2.filter (·.accepted)).filter (·.vc = k) =
      match l.up.buffer k with
      | [] => []
      | p :: _ => if o.handleUpstreamRequest k p then [⟨k, p, true⟩] else [] := by
  rw [List.filter_comm, Link.offers_upTick, Lane.offers_eq, Link.inputBuffer_lane]
  cases l.up.buffer k with
  | nil => rfl
  | cons p rest => by_cases h : o.handleUpstreamRequest k p <;> simp [h]

theorem Shape.step {r : LinkRun} (h : r.Shape) (a : LinkStep) : (r.step a).Shape := by
  cases a with
  | sendReq o p =>
    obtain ⟨hframe, hcases⟩ := Link.sendReq_cases o p (.inr h.linked)
    refine ⟨?_, h.coherent.sendReq o p h.linked, ?_⟩
    · show Link.Linked _
      rw [Link.Linked, LinkRun.step, hframe.wires]
      exact h.linked
    · intro k hne
      have hinRange : (r.link.sendReq o p).2.inRange k = r.link.inRange k := by
        rw [Link.inRange, hframe.outputs, Link.inRange]
      show (r.link.sendReq o p).2.inRange k
      rw [hinRange]
      have hne : (r.link.sendReq o p).2.down.buffer k ≠ [] := hne
      rcases hcases with ⟨-, hdown, -⟩ | ⟨-, i, -, hri, ⟨hdown, -⟩ | ⟨-, hdown, -⟩⟩
      · exact h.range k (hdown ▸ hne)
      · by_cases hk : k = i
        · exact hk ▸ hri
        · rw [hdown, update_of_ne hk] at hne
          exact h.range k hne
      · exact h.range k (hdown ▸ hne)
  | downTick o =>
    obtain ⟨hframe, -, -⟩ := Link.downTick_frame o h.coherent
    refine ⟨?_, h.coherent.downTick o, ?_⟩
    · show Link.Linked _
      rw [Link.Linked, LinkRun.step, hframe.wires]
      exact h.linked
    · intro k hne
      obtain ⟨p, hp⟩ := List.exists_mem_of_ne_nil _ hne
      have hmem : p ∈ r.link.down.buffer k := by
        simp only [LinkRun.step, buffer_downTick o h.coherent] at hp
        rw [DownstreamPort.buffer]
        cases hvc : r.link.down.outputVcs[k]? with
        | none => simp [hvc] at hp
        | some vc =>
          simp only [hvc, Option.map_some, Option.getD_some] at hp ⊢
          exact (vc.mem_buffer_retry _ p).mp hp
      have hinRange : (r.link.downTick o).inRange k = r.link.inRange k := by
        rw [Link.inRange, hframe.outputs, Link.inRange]
      show (r.link.downTick o).inRange k
      rw [hinRange]
      exact h.range k (List.ne_nil_of_mem hmem)
  | upTick o => exact ⟨h.linked, h.coherent.upTick o, h.range⟩

theorem Shape.run {l : Link} (hl : l.Linked)
    (hempty : ∀ k, l.down.buffer k = [] ∧ l.up.buffer k = []) (steps : List LinkStep) :
    (LinkRun.run l steps).Shape := by
  induction steps using List.reverseRecOn with
  | nil =>
    have hdown : ∀ k p, p ∉ l.down.buffer k := fun k p => by simp [hempty k]
    have hup : ∀ k p, p ∉ l.up.buffer k := fun k p => by simp [hempty k]
    exact ⟨hl, ⟨fun k p hp => absurd hp (hdown k p), fun k p hp => absurd hp (hup k p)⟩,
      fun k hne => absurd (hempty k).1 hne⟩
  | append_singleton steps a ih =>
    rw [run_concat]
    exact ih.step a

end LinkRun

/-- A retry moves the head of this VC to its back. -/
def OutputVC.Rotates (vc : OutputVC) : Prop :=
  2 ≤ vc.buffer.length ∧ vc.buffer.length < vc.capacity

theorem OutputVC.buffer_retry_of_not_rotates {vc : OutputVC} (h : ¬ vc.Rotates) (b : Bool) :
    (vc.retry b).buffer = vc.buffer := by
  rw [buffer_retry]
  split_ifs with hc
  · have hlen : vc.buffer.length ≤ 1 := by
      unfold Rotates at h
      omega
    match vc.buffer, hlen with
    | [], _ => rfl
    | [p], _ => exact List.rotate_singleton p 1
  · rfl

namespace LinkRun

theorem fifo_sendReq {r : LinkRun} (h : r.Shape) (hf : r.Fifo) (o : Owners) (p : PacketPtr) :
    (r.step (.sendReq o p)).Fifo := by
  obtain ⟨hframe, hcases⟩ := Link.sendReq_cases o p (.inr h.linked)
  intro k
  have hk := hf k
  have hsent : (r.step (.sendReq o p)).sentOn k =
      r.sentOn k ++ if (r.link.sendReq o p).1 ∧ (r.link.mem.packet p).vcId = k then [p] else [] := by
    simp only [sentOn, LinkRun.step, hframe.vcId]
    by_cases hok : (r.link.sendReq o p).1
    · by_cases hv : (r.link.mem.packet p).vcId = k <;> simp [hok, hv]
    · simp [hok]
  rw [hsent]
  change r.delivered k ++ (r.link.sendReq o p).2.up.buffer k ++
    (r.link.sendReq o p).2.down.buffer k = _
  rcases hcases with ⟨hok, hdown, hup⟩ | ⟨hok, i, hi, -, ⟨hdown, hup⟩ | ⟨hnil, hdown, hup⟩⟩
  · simpa [hdown, hup, hok] using hk
  · by_cases hik : k = i
    · subst hik
      simp [hdown, hup, hok, hi, ← hk]
    · have hne : ¬ (i : ℤ) = k := by omega
      simpa [hdown, hup, hok, hi, hne, hik] using hk
  · by_cases hik : k = i
    · subst hik
      rw [hnil, List.append_nil] at hk
      simp [hdown, hup, hok, hi, hnil, ← hk]
    · have hne : ¬ (i : ℤ) = k := by omega
      simpa [hdown, hup, hok, hi, hne, hik] using hk

theorem fifo_downTick {r : LinkRun} (h : r.Shape) (hf : r.Fifo) (o : Owners)
    (hrot : ∀ vc ∈ r.link.down.outputVcs, ¬ vc.Rotates) : (r.step (.downTick o)).Fifo := by
  obtain ⟨-, hup, hmem⟩ := Link.downTick_frame o h.coherent
  have hdown : (r.link.downTick o).down.buffer = r.link.down.buffer := by
    funext k
    rw [buffer_downTick o h.coherent, DownstreamPort.buffer]
    cases hvc : r.link.down.outputVcs[k]? with
    | none => rfl
    | some vc =>
      simp [OutputVC.buffer_retry_of_not_rotates (hrot vc (List.mem_of_getElem? hvc))]
  intro k
  simpa only [LinkRun.step, delivered, sentOn, hup, hmem, hdown] using hf k

theorem fifo_upTick {r : LinkRun} (hf : r.Fifo) (o : Owners) : (r.step (.upTick o)).Fifo := by
  intro k
  have hk := hf k
  have hdel : (r.step (.upTick o)).delivered k = r.delivered k ++
      (((r.link.upTick o).2.filter (·.accepted)).filter (·.vc = k)).map (·.packet) := by
    simp only [delivered, LinkRun.step, List.filter_append, List.map_append]
  rw [hdel, filter_offers_upTick]
  change _ ++ (r.link.upTick o).1.up.buffer k ++ r.link.down.buffer k = r.sentOn k
  rw [buffer_upTick, ← hk]
  cases hbuf : r.link.up.buffer k with
  | nil => simp
  | cons p rest => by_cases h : o.handleUpstreamRequest k p <;> simp [h]

/-- Every `sendReq` of the run is of a packet that the link has not taken before. -/
def Fresh (l : Link) (steps : List LinkStep) : Prop :=
  ∀ pre o p, pre ++ [.sendReq o p] <+: steps → p ∉ (run l pre).sent

theorem sent_nodup {l : Link} {steps : List LinkStep} (h : Fresh l steps) :
    (run l steps).sent.Nodup := by
  induction steps using List.reverseRecOn with
  | nil => exact List.nodup_nil
  | append_singleton steps a ih =>
    have hprev := ih fun pre o p hp => h pre o p (hp.trans (List.prefix_append _ _))
    rw [run_concat]
    cases a with
    | sendReq o p =>
      have hnew := h steps o p (List.prefix_refl _)
      simp only [LinkRun.step]
      split_ifs
      · exact List.nodup_append.mpr ⟨hprev, List.nodup_singleton p, by
          simpa using fun x hx (he : x = p) => hnew (he ▸ hx)⟩
      · exact hprev
    | downTick o => exact hprev
    | upTick o => exact hprev

/-- On a link with empty buffers, every VC is a FIFO throughout a run exactly when the
run never ticks the sender while one of its VCs holds two packets or more and has room. -/
theorem fifo_iff_no_rotation {l : Link} (hl : l.Linked)
    (hempty : ∀ k, l.down.buffer k = [] ∧ l.up.buffer k = []) {steps : List LinkStep}
    (hfresh : Fresh l steps) :
    (∀ pre, pre <+: steps → (run l pre).Fifo) ↔
      ∀ pre o, pre ++ [.downTick o] <+: steps →
        ∀ vc ∈ (run l pre).link.down.outputVcs, ¬ vc.Rotates := by
  constructor
  · intro hf pre o hpre vc hvc hrot
    have hshape := Shape.run hl hempty pre
    obtain ⟨k, hk⟩ := List.getElem?_of_mem hvc
    have hbuf := DownstreamPort.buffer_of_getElem? hk
    have hbefore := hf pre ((List.prefix_append _ _).trans hpre) k
    have hafter := hf _ hpre k
    rw [run_concat] at hafter
    obtain ⟨-, hup, hmem⟩ := Link.downTick_frame o hshape.coherent
    simp only [LinkRun.step, delivered, sentOn, hup, hmem] at hafter hbefore
    -- both histories are equal, so the buffer equals its own rotation
    have hsame : (((run l pre).link.downTick o).down.buffer k) = vc.buffer := by
      rw [← hbuf]
      exact List.append_cancel_left (hafter.trans hbefore.symm)
    have hlong := hrot.1
    have hne : (run l pre).link.down.buffer k ≠ [] := by
      rw [hbuf]
      exact List.ne_nil_of_length_pos (Nat.zero_lt_of_lt hlong)
    have hrange := hshape.range k hne
    rw [buffer_downTick o hshape.coherent, hk] at hsame
    simp only [Option.map_some, Option.getD_some, OutputVC.buffer_retry, hrange, hrot.2, and_self,
      if_true] at hsame
    have hnodup : vc.buffer.Nodup := by
      have hall : ((run l pre).sentOn k).Nodup :=
        (sent_nodup fun p o q hp => hfresh p o q
          (hp.trans ((List.prefix_append _ _).trans hpre))).filter _
      rw [sentOn, ← hbefore, hbuf] at hall
      exact hall.of_append_right
    rcases hnodup.rotate_eq_self_iff.mp hsame with hmod | hnil
    · rw [Nat.mod_eq_of_lt hlong] at hmod
      omega
    · simp [hnil] at hlong
  · intro hrot pre
    induction pre using List.reverseRecOn with
    | nil =>
      intro _ k
      simp [run, delivered, sentOn, hempty k]
    | append_singleton pre a ih =>
      intro hpre
      have hf := ih ((List.prefix_append _ _).trans hpre)
      have hshape := Shape.run hl hempty pre
      rw [run_concat]
      cases a with
      | sendReq o p => exact fifo_sendReq hshape hf o p
      | downTick o => exact fifo_downTick hshape hf o (hrot pre o hpre)
      | upTick o => exact fifo_upTick hf o

def demoLink : Link where
  wires := Link.pairedWires
  down := .new 0 [3] [] ""
  up := .new 0 [0] [] ""
  mem := ⟨fun _ => {}, fun _ => ⟨0, 0⟩⟩

def demoOwners : Owners := ⟨0, fun _ _ => false, fun _ => false⟩

theorem demoLink_empty (k : ℕ) : demoLink.down.buffer k = [] ∧ demoLink.up.buffer k = [] := by
  cases k <;> exact ⟨rfl, rfl⟩

theorem fifo_iff_no_rotation_demo :
    (run demoLink [.sendReq demoOwners 0, .downTick demoOwners]).Fifo := by
  have hlinked : demoLink.Linked := rfl
  refine (fifo_iff_no_rotation hlinked demoLink_empty ?_).mpr ?_ _ (List.prefix_refl _)
  · rintro pre o p ⟨rest, h⟩
    rcases pre with _ | ⟨a, _ | ⟨b, pre⟩⟩ <;> simp_all [run]
  · rintro pre o ⟨rest, h⟩
    rcases pre with _ | ⟨a, _ | ⟨b, pre⟩⟩
    · simp at h
    · obtain ⟨rfl, -⟩ := by simpa using h
      simp only [OutputVC.Rotates]
      decide
    · simp at h

/-- Two packets wait in one output VC; the tick of the sender puts the first behind the second. -/
theorem retry_reorders : demoLink.Linked ∧
    (run demoLink [.sendReq demoOwners 0, .sendReq demoOwners 1]).link.down.buffer 0 = [0, 1] ∧
    ¬ (run demoLink
      [.sendReq demoOwners 0, .sendReq demoOwners 1, .downTick demoOwners]).Fifo := by
  refine ⟨rfl, rfl, fun h => ?_⟩
  exact absurd (h 0) (by decide)

end LinkRun
end GemSc
