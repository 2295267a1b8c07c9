import GemSc.Core.EventRun

/-! A run that is cut in two. The loop does not read the current cycle before an event has set
it, so what follows does not see the jump to the end of the first part. -/

namespace GemSc

variable {ε σ : Type*} {process : Process ε σ}

namespace Sim

def setCycle (c : UInt64) (s : Sim ε σ) : Sim ε σ := ⟨⟨s.queue.eventQueue, c⟩, s.state⟩

@[simp] theorem setCycle_curCycle (c : UInt64) (s : Sim ε σ) :
    (s.setCycle c).queue.curCycle = c := rfl

@[simp] theorem setCycle_setCycle (c d : UInt64) (s : Sim ε σ) :
    (s.setCycle c).setCycle d = s.setCycle d := rfl

variable (process) in
def loopTo (endCycle : UInt64) (fuel : ℕ) (s : Sim ε σ) :
    Option (Sim ε σ × List (Processed ε)) :=
  (loop process endCycle fuel s).map fun r => (r.1.setCycle endCycle, r.2)

theorem run_eq_loopTo (n : UInt64) (fuel : ℕ) (s : Sim ε σ) :
    run process n fuel s = loopTo process (s.queue.curCycle + n) fuel s := rfl

section
variable {e e' : UInt64} {fuel : ℕ} {s t : Sim ε σ} {ev : Event ε}
variable {trace : List (Processed ε)} {r : Sim ε σ × List (Processed ε)}

theorem loop_fire (htop : s.queue.eventQueue.top? = some ev) (hlt : ev.fireTime < e) :
    loop process e (fuel + 1) s = (loop process e fuel (fire process s ev).1).map
      fun r => (r.1, (fire process s ev).2 :: r.2) := by
  rw [loop, htop]
  exact if_pos hlt

theorem loopTo_fire (htop : s.queue.eventQueue.top? = some ev) (hlt : ev.fireTime < e) :
    loopTo process e (fuel + 1) s = (loopTo process e fuel (fire process s ev).1).map
      fun r => (r.1, (fire process s ev).2 :: r.2) := by
  rw [loopTo, loop_fire htop hlt, loopTo, Option.map_map, Option.map_map]
  rfl

theorem loopTo_setCycle (c : UInt64) :
    loopTo process e fuel (s.setCycle c) = loopTo process e fuel s := by
  cases fuel with
  | zero => rfl
  | succ fuel =>
    have htop : (s.setCycle c).queue.eventQueue.top? = s.queue.eventQueue.top? := rfl
    cases h : s.queue.eventQueue.top? with
    | none => simp [loopTo, loop, htop, h]
    | some ev =>
      by_cases hlt : ev.fireTime < e
      · rw [loopTo_fire (htop.trans h) hlt, loopTo_fire h hlt]
        rfl
      · simp [loopTo, loop, htop, h, hlt]

theorem loop_succ (h : loop process e fuel s = some r) : loop process e (fuel + 1) s = some r := by
  induction fuel generalizing s r with
  | zero => simp [loop] at h
  | succ fuel ih =>
    cases htop : s.queue.eventQueue.top? with
    | none =>
      rw [loop, htop] at h ⊢
      exact h
    | some ev =>
      by_cases hlt : ev.fireTime < e
      · rw [loop_fire htop hlt] at h ⊢
        obtain ⟨q, hq, rfl⟩ := Option.map_eq_some_iff.mp h
        rw [ih hq]
        rfl
      · rw [loop, htop] at h ⊢
        simpa only [if_neg hlt] using h

theorem loopTo_le {k : ℕ} (hle : fuel ≤ k) (h : loopTo process e fuel s = some r) :
    loopTo process e k s = some r := by
  obtain ⟨q, hq, rfl⟩ := Option.map_eq_some_iff.mp h
  have hk : loop process e k s = some q := by
    induction k, hle using Nat.le_induction with
    | base => exact hq
    | succ k _ ih => exact loop_succ ih
  rw [loopTo, hk]
  rfl

theorem loopTo_unique {k : ℕ} {r' : Sim ε σ × List (Processed ε)}
    (h : loopTo process e fuel s = some r) (h' : loopTo process e k s = some r') : r = r' := by
  have hr := loopTo_le (Nat.le_max_left fuel k) h
  have hr' := loopTo_le (Nat.le_max_right fuel k) h'
  exact Option.some.inj (hr.symm.trans hr')

theorem loopTo_append {k : ℕ} {v : Sim ε σ} {rest : List (Processed ε)} (hle : e ≤ e')
    (h : loopTo process e fuel s = some (t, trace))
    (hrest : loopTo process e' k t = some (v, rest)) :
    ∃ k', loopTo process e' k' s = some (v, trace ++ rest) := by
  obtain ⟨⟨u, tr⟩, hloop, heq⟩ := Option.map_eq_some_iff.mp h
  obtain ⟨rfl, rfl⟩ := Prod.mk.inj heq
  rw [loopTo_setCycle] at hrest
  revert hrest
  apply loop_induction (motive := fun s u trace => loopTo process e' k u = some (v, rest) →
    ∃ k', loopTo process e' k' s = some (v, trace ++ rest)) ?stop ?fired hloop
  case stop =>
    intro s _ hrest
    exact ⟨k, hrest⟩
  case fired =>
    intro s ev u trace htop hlt ih hrest
    obtain ⟨k', hk⟩ := ih hrest
    have hlt' : ev.fireTime < e' := UInt64.lt_of_lt_of_le hlt hle
    refine ⟨k' + 1, ?_⟩
    rw [loopTo_fire htop hlt', hk]
    rfl

end
end Sim

/-- `run(a)` and then `run(b)` processes what `run(a + b)` processes, in the same order and at
the same cycles, and leaves the same queue, cycle and state. -/
theorem run_composes {a b : UInt64} {f g k : ℕ} {s t u v : Sim ε σ}
    {first second whole : List (Processed ε)}
    (hw : s.queue.curCycle.toNat + a.toNat + b.toNat < 2 ^ 64)
    (ha : Sim.run process a f s = some (t, first)) (hb : Sim.run process b g t = some (u, second))
    (hab : Sim.run process (a + b) k s = some (v, whole)) :
    whole = first ++ second ∧ v = u := by
  rw [Sim.run_eq_loopTo] at ha hb hab
  have hcycle : t.queue.curCycle = s.queue.curCycle + a := by
    obtain ⟨r, -, heq⟩ := Option.map_eq_some_iff.mp ha
    rw [← (Prod.mk.inj heq).1, Sim.setCycle_curCycle]
  have hle : s.queue.curCycle + a ≤ s.queue.curCycle + (a + b) := by
    have hend : (s.queue.curCycle + a).toNat = s.queue.curCycle.toNat + a.toNat := by
      rw [UInt64.toNat_add]
      exact Nat.mod_eq_of_lt (by omega)
    rw [← UInt64.add_assoc]
    apply EventQueue.le_add_of_noWrap
    rwa [hend]
  rw [hcycle, UInt64.add_assoc] at hb
  obtain ⟨k', hboth⟩ := Sim.loopTo_append hle ha hb
  obtain ⟨hv, hwhole⟩ := Prod.mk.inj (Sim.loopTo_unique hab hboth)
  exact ⟨hwhole, hv⟩

def demoSeam : Sim ℕ ℕ := ((Sim.run demoProcess 4 9 demoSim).map (·.1)).getD demoSim

theorem run_composes_demo : ∃ first second whole u v,
    Sim.run demoProcess 4 9 demoSim = some (demoSeam, first) ∧
    Sim.run demoProcess 3 9 demoSeam = some (u, second) ∧
    Sim.run demoProcess 7 9 demoSim = some (v, whole) ∧
    second.map (·.event.body) = [2] ∧ whole = first ++ second ∧ v = u := by
  have ha : Sim.run demoProcess 4 9 demoSim = some (demoSeam, _) := rfl
  have hb : Sim.run demoProcess 3 9 demoSeam = some _ := rfl
  have hab : Sim.run demoProcess (4 + 3) 9 demoSim = some _ := rfl
  exact ⟨_, _, _, _, _, ha, hb, hab, rfl, run_composes (by decide) ha hb hab⟩

end GemSc
