import GemSc.Link.Handshake

/-! Head-of-line blocking of a VC. `DownstreamPort::sendReq` hands a packet to the peer only
while nothing waits, and `tick` never does: what waits in an output VC waits for good. -/

namespace GemSc

namespace Lane
variable {a : Lane} {p : PacketPtr}

theorem sendReq_of_waiting {vo : OutputVC} (hr : a.outputInRange = true) (hvo : a.output = some vo)
    (hne : vo.buffer ≠ []) :
    a.sendReq p = ((vo.offer p).1, { a with output := some (vo.offer p).2 }) := by
  simp only [sendReq, hr, hvo]
  rw [if_pos hne]

theorem sendReq_of_nil {vo : OutputVC} (hr : a.outputInRange = true) (hvo : a.output = some vo)
    (hnil : vo.buffer = []) :
    a.sendReq p = if (a.recv p).1 then (true, (a.recv p).2)
      else ((vo.offer p).1, { (a.recv p).2 with output := some (vo.offer p).2 }) := by
  simp only [sendReq, hr, hvo]
  rw [if_neg (not_not.mpr hnil)]

theorem sendReq_or_refuses (a : Lane) (p : PacketPtr) :
    (a.outputInRange = true ∧ ∃ vo, a.output = some vo) ∨ a.sendReq p = (false, a) := by
  cases hr : a.outputInRange with
  | false => exact .inr (by simp [sendReq, hr])
  | true =>
    cases hvo : a.output with
    | none => exact .inr (by simp [sendReq, hr, hvo])
    | some vo => exact .inl ⟨rfl, vo, rfl⟩

theorem sendReq_blocked (h : a.outputBuffer ≠ []) :
    (a.sendReq p).2.outputBuffer = a.outputBuffer ++ (if (a.sendReq p).1 then [p] else []) ∧
      (a.sendReq p).2.inputBuffer = a.inputBuffer := by
  rcases a.sendReq_or_refuses p with ⟨hr, vo, hvo⟩ | hrefuses
  · have hout : a.outputBuffer = vo.buffer := by simp [outputBuffer, hvo]
    rw [sendReq_of_waiting hr hvo (hout ▸ h), hout]
    refine ⟨?_, rfl⟩
    show (vo.offer p).2.buffer = vo.buffer ++ if (vo.offer p).1 then [p] else []
    rw [vo.buffer_offer]
    cases (vo.offer p).1 <;> simp
  · rw [hrefuses]
    exact ⟨(List.append_nil _).symm, rfl⟩

theorem sendReq_open (h : a.outputBuffer = []) :
    ((a.sendReq p).2.outputBuffer = [] ∧
      (a.sendReq p).2.inputBuffer = a.inputBuffer ++ (if (a.sendReq p).1 then [p] else [])) ∨
    ((a.sendReq p).2.outputBuffer = [p] ∧ (a.sendReq p).1 ∧
      (a.sendReq p).2.inputBuffer = a.inputBuffer) := by
  rcases a.sendReq_or_refuses p with ⟨hr, vo, hvo⟩ | hrefuses
  · have hnil : vo.buffer = [] := by simpa [outputBuffer, hvo] using h
    have hin := inputBuffer_recv (a := a) (p := p)
    rw [sendReq_of_nil hr hvo hnil]
    cases hrecv : (a.recv p).1 with
    | true =>
      rw [hrecv, if_pos rfl] at hin
      refine .inl ⟨?_, by simpa using hin⟩
      rw [if_pos rfl, outputBuffer, output_recv]
      exact h
    | false =>
      rw [hrecv, if_neg Bool.false_ne_true] at hin
      have hout := vo.buffer_offer p
      rw [hnil] at hout
      rw [if_neg Bool.false_ne_true]
      -- the peer refused: the packet is the first to wait, or the VC holds nothing at all
      cases hok : (vo.offer p).1 with
      | true =>
        rw [hok, if_pos rfl] at hout
        exact .inr ⟨hout, rfl, hin⟩
      | false =>
        rw [hok, if_neg Bool.false_ne_true] at hout
        exact .inl ⟨hout, hin.trans (List.append_nil _).symm⟩
  · rw [hrefuses]
    exact .inl ⟨h, (List.append_nil _).symm⟩

theorem outputBuffer_downTick (a : Lane) :
    a.downTick.outputBuffer.Perm a.outputBuffer := by
  unfold downTick outputBuffer
  cases a.output with
  | none => exact .refl _
  | some vo =>
    show (vo.retry a.outputInRange).buffer.Perm vo.buffer
    rw [vo.buffer_retry]
    split_ifs
    · exact List.rotate_perm ..
    · exact .refl _

theorem offers_append_upTick (answer : PacketPtr → Bool) (a : Lane) :
    ((a.offers answer).filter (·.2)).map (·.1) ++ (a.upTick answer).inputBuffer = a.inputBuffer := by
  rw [offers_eq, inputBuffer_upTick]
  cases a.inputBuffer with
  | nil => rfl
  | cons p rest => cases hans : answer p <;> simp [hans]

end Lane

namespace Link

def taken (k : ℕ) (l : Link) : LinkStep → List PacketPtr
  | .sendReq o p => if (l.mem.packet p).vcId = k ∧ (l.sendReq o p).1 then [p] else []
  | .downTick _ => []
  | .upTick _ => []

def accepted (k : ℕ) (l : Link) (a : LinkStep) : List PacketPtr :=
  ((offered k l a).filter (·.accepted)).map (·.packet)

variable {k : ℕ} {l : Link}

theorem buffers_tick (h : l.Sound) {a : LinkStep} (htick : ∀ o p, a ≠ .sendReq o p) :
    ((l.step a).down.buffer k).Perm (l.down.buffer k) ∧ taken k l a = [] ∧
      accepted k l a ++ (l.step a).up.buffer k = l.up.buffer k := by
  have hlane := lane_step h a k
  rw [← outputBuffer_lane, ← inputBuffer_lane, hlane, ← outputBuffer_lane, ← inputBuffer_lane]
  cases a with
  | sendReq o p => exact absurd rfl (htick o p)
  | downTick o => exact ⟨Lane.outputBuffer_downTick _, rfl, rfl⟩
  | upTick o =>
    refine ⟨.refl _, rfl, ?_⟩
    rw [accepted, offered_upTick, List.filter_map, List.map_map]
    exact Lane.offers_append_upTick _ _

theorem taken_sendReq (h : l.Sound) (o : Owners) {p : PacketPtr} (hp : (l.mem.packet p).vcId = k) :
    taken k l (.sendReq o p) = if ((l.lane k).sendReq p).1 then [p] else [] := by
  rw [taken, (lane_sendReq_self o h.linked hp).1]
  simp only [hp, true_and]

theorem step_blocked (h : l.Sound) (hwait : l.down.buffer k ≠ []) (a : LinkStep) :
    ((l.step a).down.buffer k).Perm (l.down.buffer k ++ taken k l a) ∧
      accepted k l a ++ (l.step a).up.buffer k = l.up.buffer k := by
  have hticks : (∀ o p, a ≠ .sendReq o p) →
      ((l.step a).down.buffer k).Perm (l.down.buffer k ++ taken k l a) ∧
        accepted k l a ++ (l.step a).up.buffer k = l.up.buffer k := by
    intro htick
    obtain ⟨hdown, htaken, hup⟩ := buffers_tick (k := k) h htick
    rw [htaken, List.append_nil]
    exact ⟨hdown, hup⟩
  cases a with
  | sendReq o p =>
    rw [← outputBuffer_lane, ← inputBuffer_lane, lane_step h (.sendReq o p) k]
    by_cases hp : (l.mem.packet p).vcId = k
    · obtain ⟨hout, hin⟩ := Lane.sendReq_blocked (a := l.lane k) (p := p) hwait
      rw [taken_sendReq h o hp]
      simp only [if_pos hp]
      exact ⟨.of_eq hout, hin⟩
    · simp only [taken, hp, false_and, if_false, List.append_nil]
      exact ⟨.refl _, rfl⟩
  | downTick o => exact hticks nofun
  | upTick o => exact hticks nofun

theorem step_open (h : l.Sound) (hnil : l.down.buffer k = []) (a : LinkStep) :
    ((l.step a).down.buffer k = [] ∧
      accepted k l a ++ (l.step a).up.buffer k = l.up.buffer k ++ taken k l a) ∨
    (l.step a).down.buffer k ≠ [] ∧ (l.step a).down.buffer k = taken k l a ∧
      accepted k l a ++ (l.step a).up.buffer k = l.up.buffer k := by
  have hticks : (∀ o p, a ≠ .sendReq o p) → (l.step a).down.buffer k = [] ∧
      accepted k l a ++ (l.step a).up.buffer k = l.up.buffer k ++ taken k l a := by
    intro htick
    obtain ⟨hdown, htaken, hup⟩ := buffers_tick (k := k) h htick
    rw [hnil, List.perm_nil] at hdown
    rw [htaken, List.append_nil]
    exact ⟨hdown, hup⟩
  cases a with
  | sendReq o p =>
    rw [← outputBuffer_lane, ← inputBuffer_lane, lane_step h (.sendReq o p) k]
    by_cases hp : (l.mem.packet p).vcId = k
    · rw [taken_sendReq h o hp]
      simp only [if_pos hp]
      rcases Lane.sendReq_open (a := l.lane k) (p := p) hnil with hcross | ⟨hout, hok, hin⟩
      · exact .inl hcross
      · rw [hout, if_pos hok]
        exact .inr ⟨List.cons_ne_nil _ _, rfl, hin⟩
    · simp only [taken, hp, false_and, if_false, List.append_nil]
      exact .inl ⟨hnil, rfl⟩
  | downTick o => exact .inl (hticks nofun)
  | upTick o => exact .inl (hticks nofun)

theorem exec_blocked (h : l.Sound) (hwait : l.down.buffer k ≠ []) (steps : List LinkStep) :
    ((l.exec steps).down.buffer k).Perm (l.down.buffer k ++ l.collect (taken k) steps) ∧
      l.collect (accepted k) steps ++ (l.exec steps).up.buffer k = l.up.buffer k := by
  induction steps generalizing l with
  | nil => exact ⟨.of_eq (List.append_nil _).symm, rfl⟩
  | cons a steps ih =>
    obtain ⟨hdown, hup⟩ := step_blocked h hwait a
    have hwait' : (l.step a).down.buffer k ≠ [] := by
      intro hnil
      rw [hnil, List.nil_perm] at hdown
      exact hwait (List.append_eq_nil_iff.mp hdown).1
    obtain ⟨hdowns, hups⟩ := ih (h.step a) hwait'
    simp only [exec_cons, collect, List.append_assoc]
    rw [hups, ← List.append_assoc]
    exact ⟨hdowns.trans (hdown.append_right _), hup⟩

theorem exec_open (h : l.Sound) (hnil : l.down.buffer k = []) (steps : List LinkStep) :
    ∃ crossed, l.collect (accepted k) steps ++ (l.exec steps).up.buffer k = l.up.buffer k ++ crossed ∧
      ∃ waiting, l.collect (taken k) steps = crossed ++ waiting ∧
        ((l.exec steps).down.buffer k).Perm waiting := by
  induction steps generalizing l with
  | nil => exact ⟨[], (List.append_nil _).symm, [], rfl, .of_eq hnil⟩
  | cons a steps ih =>
    simp only [exec_cons, collect, List.append_assoc]
    rcases step_open h hnil a with ⟨hnil', hup⟩ | ⟨hwait, hdown, hup⟩
    · obtain ⟨crossed, hcrossed, waiting, htaken, hwaiting⟩ := ih (h.step a) hnil'
      refine ⟨taken k l a ++ crossed, ?_, waiting, ?_, hwaiting⟩
      · rw [hcrossed, ← List.append_assoc, hup, List.append_assoc]
      · rw [htaken, List.append_assoc]
    · -- from here on the VC is blocked
      obtain ⟨hdowns, hups⟩ := exec_blocked (h.step a) hwait steps
      refine ⟨[], ?_, _, rfl, hdown ▸ hdowns⟩
      rw [hups, hup, List.append_nil]

/-- The packets that ever cross VC `k` are the first ones that its sender took, in order. As
soon as one waits, it and all later ones stay with the sender, whatever follows. -/
theorem run_crosses_prefix (h : l.Sound) (hnil : l.down.buffer k = []) (steps : List LinkStep) :
    ∃ crossed waiting, l.collect (taken k) steps = crossed ++ waiting ∧
      l.collect (accepted k) steps ++ (l.exec steps).up.buffer k = l.up.buffer k ++ crossed ∧
      ((l.exec steps).down.buffer k).Perm waiting ∧
      (waiting ≠ [] → ∀ more,
        l.collect (accepted k) (steps ++ more) ++ (l.exec (steps ++ more)).up.buffer k =
          l.up.buffer k ++ crossed) := by
  obtain ⟨crossed, hcrossed, waiting, htaken, hwaiting⟩ := exec_open h hnil steps
  refine ⟨crossed, waiting, htaken, hcrossed, hwaiting, fun hne more => ?_⟩
  have hwait : (l.exec steps).down.buffer k ≠ [] := by
    intro hempty
    rw [hempty, List.nil_perm] at hwaiting
    exact hne hwaiting
  rw [collect_append, exec_append, List.append_assoc, (exec_blocked (h.exec steps) hwait more).2]
  exact hcrossed

def onePlace : Link where
  wires := pairedWires
  down := .new 0 [2] [] ""
  up := .new 0 [1] [] ""
  mem := ⟨fun _ => {}, fun _ => ⟨0, 0⟩⟩

theorem onePlace_sound : onePlace.Sound :=
  Sound.of_empty rfl fun k => by cases k <;> exact ⟨rfl, rfl⟩

/-- The second packet has to wait. Then the owner takes the first, and the third packet waits
although its place is free. -/
def overtaxed : List LinkStep :=
  [.sendReq readyOwners 0, .sendReq readyOwners 1, .upTick readyOwners, .sendReq readyOwners 2]

theorem run_crosses_prefix_onePlace :
    (onePlace.exec overtaxed).up.buffer 0 = [] ∧
      onePlace.collect (accepted 0) (overtaxed ++ [.downTick readyOwners, .upTick readyOwners]) ++
        (onePlace.exec (overtaxed ++ [.downTick readyOwners, .upTick readyOwners])).up.buffer 0 =
          [0] := by
  obtain ⟨crossed, waiting, -, hcrossed, hwaiting, hmore⟩ :=
    run_crosses_prefix (k := 0) onePlace_sound rfl overtaxed
  have hone : [0] = crossed := hcrossed
  have hne : waiting ≠ [] := by
    rintro rfl
    exact absurd hwaiting.length_eq (by decide)
  refine ⟨rfl, (hmore hne _).trans ?_⟩
  rw [← hone]
  rfl

end Link
end GemSc
