import GemSc.Link.SendReq

/-! The answer of `sendReq` against what became of the packet. -/

namespace GemSc.Link
open Function

/-- `p` went to the tail of one of the two buffers of its VC, and no other buffer changed. -/
def Appended (p : PacketPtr) (l l' : Link) : Prop :=
  ∃ k : ℕ, (l.mem.packet p).vcId = k ∧
    ((l'.down.buffer = update l.down.buffer k (l.down.buffer k ++ [p]) ∧
        l'.up.buffer = l.up.buffer) ∨
      (l'.down.buffer = l.down.buffer ∧
        l'.up.buffer = update l.up.buffer k (l.up.buffer k ++ [p])))

def Unchanged (l l' : Link) : Prop := l'.down.buffer = l.down.buffer ∧ l'.up.buffer = l.up.buffer

def Holds (l : Link) (p : PacketPtr) : Prop := ∃ k, p ∈ l.down.buffer k ∨ p ∈ l.up.buffer k

variable {l l' : Link} {p : PacketPtr}

theorem update_concat_ne (buffers : ℕ → List PacketPtr) (k : ℕ) (p : PacketPtr) :
    update buffers k (buffers k ++ [p]) ≠ buffers := by
  intro heq
  have hk : buffers k ++ [p] = buffers k := by
    rw [← update_self k (buffers k ++ [p]) buffers, heq]
  have hlen := congrArg List.length hk
  rw [List.length_append, List.length_singleton] at hlen
  exact Nat.succ_ne_self _ hlen

theorem Appended.not_unchanged (h : Appended p l l') : ¬ Unchanged l l' := by
  obtain ⟨k, -, ⟨hdown, -⟩ | ⟨-, hup⟩⟩ := h
  · intro hsame
    exact update_concat_ne _ k p (hdown.symm.trans hsame.1)
  · intro hsame
    exact update_concat_ne _ k p (hup.symm.trans hsame.2)

theorem Appended.holds (h : Appended p l l') : l'.Holds p := by
  obtain ⟨k, -, ⟨hdown, -⟩ | ⟨-, hup⟩⟩ := h
  · refine ⟨k, .inl ?_⟩
    rw [hdown, update_self]
    exact List.mem_concat_self
  · refine ⟨k, .inr ?_⟩
    rw [hup, update_self]
    exact List.mem_concat_self

theorem Unchanged.holds_iff (h : Unchanged l l') : l'.Holds p ↔ l.Holds p := by
  rw [Holds, h.1, h.2, Holds]

theorem sendReq_outcome (o : Owners) (p : PacketPtr) (hl : l.Wired) :
    ((l.sendReq o p).1 = false ∧ Unchanged l (l.sendReq o p).2) ∨
      ((l.sendReq o p).1 = true ∧ Appended p l (l.sendReq o p).2) := by
  obtain ⟨-, ⟨hok, hdown, hup⟩ | ⟨hok, k, hk, -, hcases⟩⟩ := sendReq_cases o p hl
  · exact .inl ⟨hok, hdown, hup⟩
  · refine .inr ⟨hok, k, hk, ?_⟩
    rcases hcases with ⟨hdown, hup⟩ | ⟨-, hdown, hup⟩
    · exact .inl ⟨hdown, hup⟩
    · exact .inr ⟨hdown, hup⟩

/-- `sendReq` answers true exactly when it appended the packet to one buffer, and false exactly
when it changed no buffer. So a packet that the caller had to itself is in no port after false,
when he releases it, and in one after true, when he forgets it. -/
theorem sendReq_all_or_nothing (o : Owners) (p : PacketPtr) (hl : l.Wired) :
    ((l.sendReq o p).1 = true ↔ Appended p l (l.sendReq o p).2) ∧
      ((l.sendReq o p).1 = false ↔ Unchanged l (l.sendReq o p).2) ∧
      (¬ l.Holds p → ((l.sendReq o p).1 = false ↔ ¬ (l.sendReq o p).2.Holds p)) := by
  -- the two outcomes exclude each other, since an append changes a buffer
  rcases sendReq_outcome o p hl with ⟨hok, hsame⟩ | ⟨hok, happ⟩
  · have hnot : ¬ Appended p l (l.sendReq o p).2 := fun happ => happ.not_unchanged hsame
    simp only [hok, hnot, hsame, Bool.false_eq_true, true_and]
    exact fun hfree => ⟨fun _ => hsame.holds_iff.not.mpr hfree, fun _ => trivial⟩
  · have hholds := happ.holds
    simp only [hok, happ, happ.not_unchanged, hholds, Bool.true_eq_false, not_true_eq_false,
      iff_self, implies_true, and_self]

def singleVc : Link where
  wires := pairedWires
  down := .new 0 [1] [] ""
  up := .new 0 [1] [] ""
  mem := ⟨fun _ => {}, fun _ => ⟨0, 0⟩⟩

theorem sendReq_all_or_nothing_singleVc :
    Appended 0 singleVc (singleVc.sendReq ⟨0, fun _ _ => true, fun _ => true⟩ 0).2 :=
  (sendReq_all_or_nothing (l := singleVc) _ 0 (.inr rfl)).1.mp rfl

end GemSc.Link
