import GemSc.Link.Trace

/-! Isolation of the VCs: what happens on one VC of a link is a function of the ticks, of
the sends on that VC and of the answers to its packets. -/

namespace GemSc

/-- What a step is to VC `k`: nothing, a send on it, or a tick. -/
inductive LaneStep
  | sendReq (p : PacketPtr)
  | downTick
  | upTick
  deriving DecidableEq

structure LaneTrace where
  lane : Lane
  returned : List Bool
  offered : List (PacketPtr × Bool)

/-- The first answers of `bs`, one after the other. -/
def AnsweredBy (bs : ℕ → Bool) (answers : List Bool) : Prop := ∀ i b, answers[i]? = some b → b = bs i

theorem answeredBy_append {bs : ℕ → Bool} {xs ys : List Bool} :
    AnsweredBy bs (xs ++ ys) ↔ AnsweredBy bs xs ∧ AnsweredBy (fun i => bs (i + xs.length)) ys := by
  constructor
  · intro h
    constructor
    · intro i b hi
      apply h i b
      rw [List.getElem?_append_left (List.getElem?_eq_some_iff.mp hi).1]
      exact hi
    · intro i b hi
      apply h (i + xs.length) b
      rw [List.getElem?_append_right (Nat.le_add_left _ _), Nat.add_sub_cancel]
      exact hi
  · rintro ⟨hxs, hys⟩ i b hi
    rcases Nat.lt_or_ge i xs.length with hlt | hge
    · rw [List.getElem?_append_left hlt] at hi
      exact hxs i b hi
    · rw [List.getElem?_append_right hge] at hi
      have hlater : b = bs (i - xs.length + xs.length) := hys _ b hi
      rw [hlater, Nat.sub_add_cancel hge]

/-- A lane on its own, with an owner that answers the packets of the lane one after the other as
`bs` says. -/
def Lane.exec : List LaneStep → (ℕ → Bool) → Lane → LaneTrace
  | [], _, a => ⟨a, [], []⟩
  | .sendReq p :: steps, bs, a =>
    let r := exec steps bs (a.sendReq p).2
    { r with returned := (a.sendReq p).1 :: r.returned }
  | .downTick :: steps, bs, a => exec steps bs a.downTick
  | .upTick :: steps, bs, a =>
    let answer := fun _ => bs 0
    let r := exec steps (fun i => bs (i + (a.offers answer).length)) (a.upTick answer)
    { r with offered := a.offers answer ++ r.offered }

theorem Lane.upTick_congr {a : Lane} {f g : PacketPtr → Bool}
    (h : (a.offers f).map (·.2) = (a.offers g).map (·.2)) :
    a.offers f = a.offers g ∧ a.upTick f = a.upTick g := by
  unfold offers upTick at *
  cases hvi : a.input with
  | none => exact ⟨rfl, rfl⟩
  | some vi =>
    cases hbuf : vi.buffer with
    | nil => simp [hbuf]
    | cons p rest =>
      have hfg : f p = g p := by simpa [hvi, hbuf] using h
      simp [hbuf, hfg]

theorem Lane.exec_upTick (a : Lane) (f : PacketPtr → Bool) (steps : List LaneStep)
    {bs : ℕ → Bool} (hbs : AnsweredBy bs ((a.offers f).map (·.2))) :
    a.exec (.upTick :: steps) bs =
      let r := (a.upTick f).exec steps fun i => bs (i + (a.offers f).length)
      { r with offered := a.offers f ++ r.offered } := by
  obtain ⟨hoffers, htick⟩ := upTick_congr (a := a) (f := f) (g := fun _ => bs 0) (by
    cases hhead : a.input.bind (·.buffer.head?) with
    | none => simp [offers, hhead]
    | some p =>
      have hanswer : f p = bs 0 := hbs 0 (f p) (by simp [offers, hhead])
      simp [offers, hhead, hanswer])
  rw [exec, ← hoffers, ← htick]

namespace Link

def laneStep (k : ℕ) (m : Memory) : LinkStep → Option LaneStep
  | .sendReq _ p => if (m.packet p).vcId = k then some (.sendReq p) else none
  | .downTick _ => some .downTick
  | .upTick _ => some .upTick

def returned (k : ℕ) (l : Link) : LinkStep → List Bool
  | .sendReq o p => if (l.mem.packet p).vcId = k then [(l.sendReq o p).1] else []
  | .downTick _ => []
  | .upTick _ => []

def offered (k : ℕ) (l : Link) : LinkStep → List Offer
  | .sendReq _ _ => []
  | .downTick _ => []
  | .upTick o => (l.upTick o).2.filter (·.vc = k)

def answers (k : ℕ) (l : Link) (steps : List LinkStep) : List Bool :=
  (l.collect (offered k) steps).map (·.accepted)

variable {k : ℕ} {l l' : Link}

theorem laneStep_eq_none_iff {m : Memory} {a : LinkStep} :
    laneStep k m a = none ↔ ∃ o p, a = .sendReq o p ∧ (m.packet p).vcId ≠ k := by
  cases a with
  | sendReq o p => simp [laneStep]
  | downTick o => simp [laneStep]
  | upTick o => simp [laneStep]

theorem laneStep_step (h : l.Sound) (a : LinkStep) :
    laneStep k (l.step a).mem = laneStep k l.mem := by
  funext b
  cases b with
  | sendReq o p => rw [laneStep, laneStep, vcId_step h]
  | downTick o => rfl
  | upTick o => rfl

theorem silent_step (h : l.Sound) {a : LinkStep} (hnone : laneStep k l.mem a = none) :
    (l.step a).lane k = l.lane k ∧ returned k l a = [] ∧ offered k l a = [] := by
  obtain ⟨o, p, rfl, hp⟩ := laneStep_eq_none_iff.mp hnone
  exact ⟨(lane_step h (.sendReq o p) k).trans (if_neg hp), if_neg hp, rfl⟩

theorem offered_upTick (l : Link) (o : Owners) : offered k l (.upTick o) =
    ((l.lane k).offers (o.handleUpstreamRequest k)).map fun f => ⟨k, f.1, f.2⟩ :=
  offers_upTick o l k

theorem answers_upTick (l : Link) (o : Owners) (steps : List LinkStep) :
    answers k l (.upTick o :: steps) =
      ((l.lane k).offers (o.handleUpstreamRequest k)).map (·.2) ++
        answers k (l.step (.upTick o)) steps := by
  simp [answers, collect, offered_upTick]

/-- The lane of VC `k` in a run is the lane on its own, run on what the link is asked to do
on that VC and on what the owner answers to its packets. -/
theorem exec_lane (h : l.Sound) {steps : List LinkStep} {bs : ℕ → Bool}
    (hanswers : AnsweredBy bs (answers k l steps)) :
    (l.lane k).exec (steps.filterMap (laneStep k l.mem)) bs =
      ⟨(l.exec steps).lane k, l.collect (returned k) steps,
        (l.collect (offered k) steps).map fun f => (f.packet, f.accepted)⟩ := by
  induction steps generalizing l bs with
  | nil => rfl
  | cons a steps ih =>
    have hrest := @ih _ (h.step a)
    simp only [laneStep_step h] at hrest
    cases hview : laneStep k l.mem a with
    | none =>
      obtain ⟨hlane, hreturned, hoffered⟩ := silent_step h hview
      rw [hlane] at hrest
      simp only [answers, collect, hoffered, List.nil_append] at hanswers
      simp only [List.filterMap_cons_none hview, collect, hreturned, hoffered, List.nil_append,
        exec_cons]
      exact hrest hanswers
    | some b =>
      rw [List.filterMap_cons_some hview]
      have hlane := lane_step h a k
      cases a with
      | sendReq o p =>
        by_cases hp : (l.mem.packet p).vcId = k
        · obtain rfl : LaneStep.sendReq p = b := by simpa [laneStep, hp] using hview
          have hok := (lane_sendReq_self o h.linked hp).1
          simp only [if_pos hp] at hlane
          rw [hlane] at hrest
          rw [Lane.exec, hrest hanswers, ← hok]
          simp [collect, returned, offered, hp, exec_cons]
        · simp [laneStep, hp] at hview
      | downTick o =>
        obtain rfl : LaneStep.downTick = b := by simpa [laneStep] using hview
        rw [hlane] at hrest
        exact hrest hanswers
      | upTick o =>
        obtain rfl : LaneStep.upTick = b := by simpa [laneStep] using hview
        rw [hlane] at hrest
        rw [answers_upTick, answeredBy_append, List.length_map] at hanswers
        rw [Lane.exec_upTick _ _ _ hanswers.1, hrest hanswers.2]
        simp [collect, returned, offered_upTick, exec_cons, Function.comp_def]

theorem vc_of_mem_offered {a : LinkStep} {f : Offer} (hf : f ∈ offered k l a) : f.vc = k := by
  cases a with
  | sendReq o p => cases hf
  | downTick o => cases hf
  | upTick o => simpa using (List.mem_filter.mp hf).2

theorem collect_offered (l : Link) (steps : List LinkStep) :
    l.collect (offered k) steps =
      ((l.collect (offered k) steps).map fun f => (f.packet, f.accepted)).map fun f => ⟨k, f.1, f.2⟩ := by
  rw [List.map_map]
  refine ((List.map_congr_left fun f hf => ?_).trans (List.map_id _)).symm
  obtain ⟨l', a, hmem⟩ := exists_of_mem_collect hf
  rw [← vc_of_mem_offered hmem]
  rfl

/-- Two runs that do the same on VC `k` of a link, with owners that give the same first, second
and further answer to the packets offered from it, agree on all of VC `k`: whatever happens on the
other VCs, as many packets are offered from VC `k`, and the same ones. -/
theorem vcs_isolated {steps steps' : List LinkStep} {bs : ℕ → Bool} (h : l.Sound) (h' : l'.Sound)
    (hstart : l.lane k = l'.lane k)
    (hsteps : steps.filterMap (laneStep k l.mem) = steps'.filterMap (laneStep k l'.mem))
    (hanswers : AnsweredBy bs (answers k l steps)) (hanswers' : AnsweredBy bs (answers k l' steps')) :
    (l.exec steps).down.outputVcs[k]? = (l'.exec steps').down.outputVcs[k]? ∧
      (l.exec steps).up.inputVcs[k]? = (l'.exec steps').up.inputVcs[k]? ∧
      l.collect (returned k) steps = l'.collect (returned k) steps' ∧
      l.collect (offered k) steps = l'.collect (offered k) steps' := by
  have hlane := exec_lane h hanswers
  rw [hstart, hsteps, exec_lane h' hanswers'] at hlane
  obtain ⟨hend, hreturned, hoffered⟩ := LaneTrace.mk.inj hlane
  refine ⟨(congrArg Lane.output hend).symm, (congrArg Lane.input hend).symm, hreturned.symm, ?_⟩
  rw [collect_offered l, collect_offered l', hoffered]

def twoVcLink : Link where
  wires := pairedWires
  down := .new 0 [2, 2] [] ""
  up := .new 0 [2, 1] [] ""
  mem := ⟨fun p => { vcId := p % 2 }, fun _ => ⟨0, 0⟩⟩

theorem twoVcLink_sound : twoVcLink.Sound :=
  Sound.of_empty rfl fun k => by
    rcases k with _ | _ | k <;> exact ⟨rfl, rfl⟩

def ownersOf (taken : Bool) : Owners := ⟨0, fun vc _ => vc == 0 || taken, fun _ => true⟩

/-- VC 1 is blocked in the first run only. Three packets are sent and two offered on VC 0. -/
theorem vcs_isolated_demo :
    let blocked : List LinkStep := [.sendReq (ownersOf false) 1, .sendReq (ownersOf false) 3,
      .sendReq (ownersOf false) 0, .sendReq (ownersOf false) 2, .upTick (ownersOf false),
      .sendReq (ownersOf false) 5, .downTick (ownersOf false), .sendReq (ownersOf false) 4,
      .upTick (ownersOf false)]
    let free : List LinkStep := [.sendReq (ownersOf true) 0, .sendReq (ownersOf true) 2,
      .upTick (ownersOf true), .downTick (ownersOf true), .sendReq (ownersOf true) 4,
      .sendReq (ownersOf true) 1, .upTick (ownersOf true)]
    twoVcLink.collect (offered 0) blocked = twoVcLink.collect (offered 0) free ∧
      twoVcLink.collect (offered 0) free = [⟨0, 0, true⟩, ⟨0, 2, true⟩] := by
  intro blocked free
  have hanswered : ∀ answers : List Bool, answers = [true, true] → AnsweredBy (fun _ => true) answers := by
    rintro answers rfl i b hi
    have hmem := List.mem_of_getElem? hi
    simpa using hmem
  exact ⟨(vcs_isolated twoVcLink_sound twoVcLink_sound rfl rfl (hanswered _ rfl) (hanswered _ rfl)).2.2.2,
    rfl⟩

end Link
end GemSc
