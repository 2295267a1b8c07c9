import Mathlib

/-! A ledger of requests. Each is known by its number and by the way it came in, and is to be
answered once, by the same way. -/

structure Ledger (π : Type*) where
  entries : List π
  scheduled : List (ℕ × π)
  sent : List (ℕ × π)

namespace Ledger
variable {π : Type*} {l l' : Ledger π} {open' closed : List ℕ} {way : π} {id k : ℕ}

def empty : Ledger π := ⟨[], [], []⟩

def enter (way : π) (l : Ledger π) : Ledger π := { l with entries := l.entries ++ [way] }

def schedule (id : ℕ) (way : π) (l : Ledger π) : Ledger π :=
  { l with scheduled := l.scheduled ++ [(id, way)] }

def deliver (id : ℕ) (way : π) (l : Ledger π) : Ledger π := { l with sent := l.sent ++ [(id, way)] }

def send (k : ℕ) (l : Ledger π) : Ledger π :=
  { l with scheduled := l.scheduled.eraseIdx k, sent := l.sent ++ (l.scheduled[k]?).toList }

def answers (l : Ledger π) : List (ℕ × π) := l.scheduled ++ l.sent

/-- Every answer goes by the way that its request came. -/
def Returned (l : Ledger π) : Prop := ∀ r ∈ l.answers, l.entries[r.1]? = some r.2

/-- Every request is either among the open ones or has exactly one answer. -/
def Balanced (l : Ledger π) (unanswered : List ℕ) : Prop :=
  (unanswered ++ l.answers.map Prod.fst).Perm (List.range l.entries.length)

theorem returned_empty : (empty : Ledger π).Returned := by
  intro r hr
  cases hr

theorem balanced_empty : (empty : Ledger π).Balanced [] := List.Perm.refl []

theorem perm_pick {β : Type*} {rs : List (ℕ × β)} {r : ℕ × β} (h : rs[k]? = some r) :
    (rs.map Prod.fst).Perm (r.1 :: (rs.eraseIdx k).map Prod.fst) := by
  obtain ⟨hk, rfl⟩ := List.getElem?_eq_some_iff.mp h
  exact (List.getElem_cons_eraseIdx_perm hk).symm.map Prod.fst

theorem answers_send (l : Ledger π) (k : ℕ) : (l.send k).answers.Perm l.answers := by
  cases hk : l.scheduled[k]? with
  | none =>
    have hlen := List.getElem?_eq_none_iff.mp hk
    simp [send, answers, hk, List.eraseIdx_of_length_le hlen]
  | some r =>
    obtain ⟨hlt, rfl⟩ := List.getElem?_eq_some_iff.mp hk
    have hperm := List.getElem_cons_eraseIdx_perm hlt
    have hmove : (l.send k).answers = l.scheduled.eraseIdx k ++ (l.sent ++ [l.scheduled[k]]) := by
      simp [send, answers, hk]
    rw [hmove, ← List.append_assoc]
    exact List.perm_append_singleton _ _ |>.trans (hperm.append_right l.sent)

theorem Returned.enter (h : l.Returned) (way : π) : (l.enter way).Returned := by
  intro r hr
  have hold := h r hr
  exact (List.getElem?_append_left (List.getElem?_eq_some_iff.mp hold).1).trans hold

structure Adds (l : Ledger π) (id : ℕ) (way : π) (l' : Ledger π) : Prop where
  entries : l'.entries = l.entries
  answers : l'.answers.Perm ((id, way) :: l.answers)

theorem adds_schedule (l : Ledger π) (id : ℕ) (way : π) : l.Adds id way (l.schedule id way) := by
  refine ⟨rfl, ?_⟩
  simp only [answers, schedule, List.append_assoc]
  exact List.perm_middle

theorem adds_deliver (l : Ledger π) (id : ℕ) (way : π) : l.Adds id way (l.deliver id way) := by
  refine ⟨rfl, ?_⟩
  simp only [answers, deliver, ← List.append_assoc]
  exact List.perm_append_singleton _ _

theorem Adds.returned_iff (h : l.Adds id way l') :
    l'.Returned ↔ l.Returned ∧ l.entries[id]? = some way := by
  have hmem : ∀ r, r ∈ l'.answers ↔ r = (id, way) ∨ r ∈ l.answers := by
    intro r
    rw [h.answers.mem_iff, List.mem_cons]
  simp only [Returned, hmem, h.entries]
  constructor
  · intro hall
    exact ⟨fun r hr => hall r (.inr hr), hall (id, way) (.inl rfl)⟩
  · rintro ⟨hall, hid⟩ r (rfl | hr)
    · exact hid
    · exact hall r hr

theorem Returned.send (h : l.Returned) (k : ℕ) : (l.send k).Returned :=
  fun r hr => h r ((l.answers_send k).subset hr)

theorem Balanced.enter (h : l.Balanced open') (way : π) :
    (l.enter way).Balanced (open' ++ [l.entries.length]) := by
  have hlast : (open' ++ [l.entries.length] ++ l.answers.map Prod.fst).Perm
      (open' ++ l.answers.map Prod.fst ++ [l.entries.length]) := by
    rw [List.append_assoc, List.append_assoc]
    exact List.perm_append_comm.append_left open'
  rw [Balanced, Ledger.enter, List.length_append, List.length_singleton, List.range_succ]
  exact hlast.trans (List.Perm.append_right _ h)

theorem Balanced.adds (h : l.Balanced open') (hadds : l.Adds id way l')
    (hid : open'.Perm (id :: closed)) : l'.Balanced closed := by
  have hids : (closed ++ l'.answers.map Prod.fst).Perm (id :: closed ++ l.answers.map Prod.fst) := by
    refine ((hadds.answers.map Prod.fst).append_left closed).trans ?_
    exact List.perm_middle
  rw [Balanced, hadds.entries]
  exact hids.trans ((hid.symm.append_right _).trans h)

theorem Balanced.send (h : l.Balanced open') (k : ℕ) : (l.send k).Balanced open' :=
  (((l.answers_send k).map _).append_left _).trans h

theorem Balanced.perm (h : l.Balanced open') (hperm : closed.Perm open') : l.Balanced closed :=
  (hperm.append_right _).trans h

end Ledger
