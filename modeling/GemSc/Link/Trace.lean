import GemSc.Link.Delivery

/-! Runs of a link step by step, and what is observed along them. -/

namespace GemSc
open Function

def LinkStep.now : LinkStep → UInt64
  | .sendReq o _ => o.now
  | .downTick o => o.now
  | .upTick o => o.now

namespace Link
variable {l : Link} {β : Type*}

def step (l : Link) : LinkStep → Link
  | .sendReq o p => (l.sendReq o p).2
  | .downTick o => l.downTick o
  | .upTick o => (l.upTick o).1

def exec (l : Link) (steps : List LinkStep) : Link := steps.foldl step l

def collect (observe : Link → LinkStep → List β) : Link → List LinkStep → List β
  | _, [] => []
  | l, a :: as => observe l a ++ collect observe (l.step a) as

theorem exec_cons (l : Link) (a : LinkStep) (as : List LinkStep) :
    l.exec (a :: as) = (l.step a).exec as := rfl

theorem exec_append (l : Link) (as bs : List LinkStep) : l.exec (as ++ bs) = (l.exec as).exec bs :=
  List.foldl_append

theorem collect_append (observe : Link → LinkStep → List β) (l : Link) (as bs : List LinkStep) :
    collect observe l (as ++ bs) = collect observe l as ++ collect observe (l.exec as) bs := by
  induction as generalizing l with
  | nil => rfl
  | cons a as ih => simp only [List.cons_append, collect, ih, exec_cons, List.append_assoc]

theorem exists_of_mem_collect {observe : Link → LinkStep → List β} {x : β} {steps : List LinkStep}
    (hx : x ∈ l.collect observe steps) : ∃ l' a, x ∈ observe l' a := by
  induction steps generalizing l with
  | nil => cases hx
  | cons a steps ih =>
    rcases List.mem_append.mp hx with hhere | hlater
    · exact ⟨l, a, hhere⟩
    · exact ih hlater

theorem link_run (l : Link) (steps : List LinkStep) : (LinkRun.run l steps).link = l.exec steps := by
  induction steps using List.reverseRecOn with
  | nil => rfl
  | append_singleton steps a ih =>
    rw [LinkRun.run_concat, exec_append, ← ih]
    cases a <;> rfl

structure Sound (l : Link) : Prop where
  linked : l.Linked
  coherent : l.Coherent

theorem Sound.of_empty (hl : l.Linked)
    (hempty : ∀ k, l.down.buffer k = [] ∧ l.up.buffer k = []) : l.Sound := by
  refine ⟨hl, ?_, ?_⟩
  · intro k p hp
    rw [(hempty k).1] at hp
    cases hp
  · intro k p hp
    rw [(hempty k).2] at hp
    cases hp

theorem wires_step (h : l.Sound) (a : LinkStep) : (l.step a).wires = l.wires := by
  cases a with
  | sendReq o p => exact (sendReq_cases o p (.inr h.linked)).1.wires
  | downTick o => exact (downTick_frame o h.coherent).1.wires
  | upTick o => rfl

theorem Sound.step (h : l.Sound) (a : LinkStep) : (l.step a).Sound := by
  have hlinked : (l.step a).Linked := by
    rw [Linked, wires_step h]
    exact h.linked
  cases a with
  | sendReq o p => exact ⟨hlinked, h.coherent.sendReq o p h.linked⟩
  | downTick o => exact ⟨hlinked, h.coherent.downTick o⟩
  | upTick o => exact ⟨hlinked, h.coherent.upTick o⟩

theorem Sound.exec (h : l.Sound) (steps : List LinkStep) : (l.exec steps).Sound := by
  induction steps generalizing l with
  | nil => exact h
  | cons a steps ih => exact ih (h.step a)

theorem vcId_step (h : l.Sound) (a : LinkStep) (x : PacketPtr) :
    ((l.step a).mem.packet x).vcId = (l.mem.packet x).vcId := by
  cases a with
  | sendReq o p => exact vcId_sendReq o p h.linked x
  | downTick o =>
    have hmem : (l.downTick o).mem = l.mem := (downTick_frame o h.coherent).2.2
    rw [step, hmem]
  | upTick o => rfl

theorem lane_step (h : l.Sound) (a : LinkStep) (k : ℕ) :
    (l.step a).lane k =
      match a with
      | .sendReq _ p => if (l.mem.packet p).vcId = k then ((l.lane k).sendReq p).2 else l.lane k
      | .downTick _ => (l.lane k).downTick
      | .upTick o => (l.lane k).upTick (o.handleUpstreamRequest k) := by
  cases a with
  | sendReq o p =>
    dsimp only
    split_ifs with hp
    · exact (lane_sendReq_self o h.linked hp).2
    · exact lane_sendReq_other o h.linked hp
  | downTick o => exact lane_downTick o h.coherent k
  | upTick o => exact lane_upTick o l k

end Link
end GemSc
