import GemSc.Core.EventRun

/-! The loop of `run` comes to its end when every event schedules only into the future. The
number of pending events may grow, but the remaining times of those that lie before the end
get smaller as a multiset: the front is replaced by finitely many that are closer to the end. -/

namespace GemSc
open scoped List
open Relation

variable {ε σ : Type*} (process : Process ε σ)

namespace Sim

def Pass (endCycle : UInt64) (s t : Sim ε σ) : Prop :=
  ∃ ev, s.queue.eventQueue.top? = some ev ∧ ev.fireTime < endCycle ∧ t = (fire process s ev).1

/-- In each pass that the loop makes, the body schedules with delays of at least one, and no
sum of a cycle and a delay wraps around. -/
def Forward (endCycle : UInt64) (s : Sim ε σ) : Prop :=
  ∀ t ev, ReflTransGen (Pass process endCycle) s t → t.queue.eventQueue.top? = some ev →
    ev.fireTime < endCycle → (fire process t ev).2.NoWrap ∧
      ∀ r ∈ (fire process t ev).2.requests, 0 < r.2

variable {process} {e : UInt64} {s t : Sim ε σ} {ev : Event ε}

theorem Forward.pass (h : Forward process e s) (hst : Pass process e s t) :
    Forward process e t :=
  fun u ev hu => h u ev (.head hst hu)

theorem Forward.of_bodies
    (h : ∀ body cycle state, cycle < e → ∀ r ∈ (process body cycle state).2,
      0 < r.2 ∧ cycle.toNat + r.2.toNat < 2 ^ 64) : Forward process e s := by
  intro t ev _ _ hlt
  have hbody := h ev.body ev.fireTime t.state hlt
  exact ⟨fun r hr => (hbody r hr).2, fun r hr => (hbody r hr).1⟩

end Sim

def remaining (e : UInt64) (evs : List (Event ε)) : Multiset ℕ :=
  (evs.filter fun ev => ev.fireTime < e).map fun ev => e.toNat - ev.key

theorem remaining_append (e : UInt64) (l l' : List (Event ε)) :
    remaining e (l ++ l') = remaining e l + remaining e l' := by
  simp [remaining]

theorem remaining_perm {e : UInt64} {l l' : List (Event ε)} (h : l ~ l') :
    remaining e l = remaining e l' := Multiset.coe_eq_coe.mpr ((h.filter _).map _)

theorem remaining_cons {e : UInt64} {ev : Event ε} (hlt : ev.fireTime < e) (l : List (Event ε)) :
    remaining e (ev :: l) = (e.toNat - ev.key) ::ₘ remaining e l := by
  simp [remaining, hlt]

namespace Sim
variable {process : Process ε σ} {e : UInt64} {s t : Sim ε σ} {ev : Event ε}

theorem remaining_scheduled_lt (hlt : ev.fireTime < e)
    (hw : (fire process s ev).2.NoWrap) (hfut : ∀ r ∈ (fire process s ev).2.requests, 0 < r.2) :
    ∀ d ∈ remaining e (fire process s ev).2.scheduled, d < e.toNat - ev.key := by
  intro d hd
  obtain ⟨x, hx, rfl⟩ := List.mem_map.mp (Multiset.mem_coe.mp hd)
  obtain ⟨hsched, -⟩ := List.mem_filter.mp hx
  obtain ⟨r, hr, rfl⟩ := List.mem_map.mp hsched
  have hend : ev.key < e.toNat := UInt64.lt_iff_toNat_lt.mp hlt
  have hdelay : 0 < r.2.toNat := UInt64.lt_iff_toNat_lt.mp (hfut r hr)
  have hsum : (ev.fireTime + r.2).toNat = ev.fireTime.toNat + r.2.toNat := by
    rw [UInt64.toNat_add]
    exact Nat.mod_eq_of_lt (hw r hr)
  show e.toNat - (ev.fireTime + r.2).toNat < e.toNat - ev.key
  rw [hsum]
  exact Nat.sub_lt_sub_left hend (Nat.lt_add_of_pos_right hdelay)

theorem remaining_fire_lt (htop : s.queue.eventQueue.top? = some ev) (hlt : ev.fireTime < e)
    (hw : (fire process s ev).2.NoWrap) (hfut : ∀ r ∈ (fire process s ev).2.requests, 0 < r.2) :
    (remaining e (fire process s ev).1.queue.events).IsDershowitzMannaLT
      (remaining e s.queue.events) := by
  have hafter : (fire process s ev).1.queue.events ~
      (fire process s ev).2.scheduled ++ s.queue.eventQueue.pop.toList :=
    EventQueue.events_scheduleAll ⟨s.queue.eventQueue.pop, ev.fireTime⟩ _
  have hbefore : s.queue.events ~ ev :: s.queue.eventQueue.pop.toList :=
    (KeyedHeap.PriorityQueue.toList_pop htop).symm
  refine ⟨remaining e s.queue.eventQueue.pop.toList, remaining e (fire process s ev).2.scheduled,
    {e.toNat - ev.key}, Multiset.singleton_ne_zero _, ?_, ?_, ?_⟩
  · rw [remaining_perm hafter, remaining_append, add_comm]
  · rw [remaining_perm hbefore, remaining_cons hlt, ← Multiset.singleton_add, add_comm]
  · intro d hd
    exact ⟨_, Multiset.mem_singleton_self _, remaining_scheduled_lt hlt hw hfut d hd⟩

theorem Forward.loop_returns (h : Forward process e s) :
    ∃ fuel r, loop process e fuel s = some r := by
  have hwf := InvImage.wf (fun s : Sim ε σ => remaining e s.queue.events)
    (Multiset.wellFounded_isDershowitzMannaLT (α := ℕ))
  induction s using hwf.induction with
  | h s ih =>
    cases htop : s.queue.eventQueue.top? with
    | none => exact ⟨1, (s, []), by rw [loop, htop]⟩
    | some ev =>
      by_cases hlt : ev.fireTime < e
      · obtain ⟨hw, hfut⟩ := h s ev .refl htop hlt
        have hnext : Forward process e (fire process s ev).1 := h.pass ⟨ev, htop, hlt, rfl⟩
        obtain ⟨fuel, r, hr⟩ := ih _ (remaining_fire_lt htop hlt hw hfut) hnext
        refine ⟨fuel + 1, (r.1, (fire process s ev).2 :: r.2), ?_⟩
        rw [loop, htop]
        simp only [if_pos hlt, hr, Option.map_some]
      · refine ⟨1, (s, []), ?_⟩
        rw [loop, htop]
        exact if_neg hlt

end Sim

/-- `run(n)` returns on every queue, if its events schedule with delays of at least one. -/
theorem run_terminates {n : UInt64} {s : Sim ε σ} {process : Process ε σ}
    (h : s.Forward process (s.queue.curCycle + n)) :
    ∃ fuel r, Sim.run process n fuel s = some r := by
  obtain ⟨fuel, r, hr⟩ := h.loop_returns
  exact ⟨fuel, _, by rw [Sim.run, hr, Option.map_some]⟩

/-- Every event schedules two more, so the queue only grows. -/
def breedingProcess : Process ℕ ℕ := fun b _ n => (n + 1, [(b, 1), (b + 1, 2)])

theorem run_terminates_breeding :
    ∃ fuel r, Sim.run breedingProcess 1000 fuel ⟨EventQueue.new.schedule 0 0, 0⟩ = some r := by
  apply run_terminates
  apply Sim.Forward.of_bodies
  intro body cycle state hlt r hr
  have hcycle : cycle.toNat < 1000 := UInt64.lt_iff_toNat_lt.mp hlt
  have hdelay : r.2 = 1 ∨ r.2 = 2 := by
    rcases List.mem_cons.mp hr with rfl | hr
    · exact .inl rfl
    · exact .inr (congrArg Prod.snd (List.mem_singleton.mp hr))
  rcases hdelay with hd | hd <;> rw [hd]
  · exact ⟨by decide, show cycle.toNat + 1 < 2 ^ 64 by omega⟩
  · exact ⟨by decide, show cycle.toNat + 2 < 2 ^ 64 by omega⟩

end GemSc
