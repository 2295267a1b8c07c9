import Mathlib

/-! A bounded FIFO queue that counts what enters, what leaves and what it turns away, against
the history of its uses. The counters are 64 bits wide. -/

structure CountedQueue (α : Type*) where
  buffer : List α := []
  capacity : ℕ
  enqueued : UInt64 := 0
  dequeued : UInt64 := 0
  dropped : UInt64 := 0

namespace CountedQueue
variable {α : Type*} {q : CountedQueue α} {entered left : List α} {refused : ℕ} {a : α}

def offer (q : CountedQueue α) (a : α) : Bool × CountedQueue α :=
  if q.capacity ≤ q.buffer.length then (false, { q with dropped := q.dropped + 1 })
  else (true, { q with buffer := q.buffer ++ [a], enqueued := q.enqueued + 1 })

def pop (q : CountedQueue α) : CountedQueue α :=
  match q.buffer with
  | [] => q
  | _ :: rest => { q with buffer := rest, dequeued := q.dequeued + 1 }

/-- The queue is what its history makes it: the elements that entered and the ones that left, in
order, and how many were turned away. -/
structure Agrees (q : CountedQueue α) (entered left : List α) (refused : ℕ) : Prop where
  size : q.buffer.length ≤ q.capacity
  order : entered = left ++ q.buffer
  enqueued : q.enqueued = UInt64.ofNat entered.length
  dequeued : q.dequeued = UInt64.ofNat left.length
  dropped : q.dropped = UInt64.ofNat refused

theorem agrees_new (capacity : ℕ) : Agrees ({ capacity := capacity } : CountedQueue α) [] [] 0 :=
  ⟨Nat.zero_le _, rfl, rfl, rfl, rfl⟩

theorem ofNat_length_concat (l : List α) (a : α) :
    UInt64.ofNat (l ++ [a]).length = UInt64.ofNat l.length + 1 := by
  rw [List.length_append, List.length_singleton, UInt64.ofNat_add]
  rfl

theorem Agrees.offered (h : q.Agrees entered left refused) (a : α) :
    ((q.offer a).1 = true ∧ (q.offer a).2.Agrees (entered ++ [a]) left refused) ∨
      ((q.offer a).1 = false ∧ (q.offer a).2.Agrees entered left (refused + 1)) := by
  unfold offer
  split_ifs with hfull
  · refine .inr ⟨rfl, h.size, h.order, h.enqueued, h.dequeued, ?_⟩
    show q.dropped + 1 = UInt64.ofNat (refused + 1)
    rw [h.dropped, UInt64.ofNat_add]
    rfl
  · refine .inl ⟨rfl, ?_, ?_, ?_, h.dequeued, h.dropped⟩
    · rw [List.length_append, List.length_singleton]
      exact Nat.lt_of_not_le hfull
    · rw [h.order, List.append_assoc]
    · rw [ofNat_length_concat, ← h.enqueued]

theorem Agrees.popped (h : q.Agrees entered left refused) {rest : List α}
    (hbuf : q.buffer = a :: rest) : q.pop.Agrees entered (left ++ [a]) refused := by
  have hpop : q.pop = { q with buffer := rest, dequeued := q.dequeued + 1 } := by
    rw [pop, hbuf]
  have hsize := h.size
  rw [hbuf, List.length_cons] at hsize
  rw [hpop]
  refine ⟨Nat.le_of_succ_le hsize, ?_, h.enqueued, ?_, h.dropped⟩
  · rw [h.order, hbuf, List.append_assoc]
    rfl
  · rw [ofNat_length_concat, ← h.dequeued]

theorem Agrees.enqueued_toNat (h : q.Agrees entered left refused)
    (hfits : entered.length < 2 ^ 64) :
    q.enqueued.toNat = q.dequeued.toNat + q.buffer.length := by
  have hlen : entered.length = left.length + q.buffer.length := by
    rw [h.order, List.length_append]
  rw [h.enqueued, h.dequeued, UInt64.toNat_ofNat_of_lt' hfits,
    UInt64.toNat_ofNat_of_lt' (show left.length < 2 ^ 64 by omega), hlen]

theorem Agrees.enqueued_sub (h : q.Agrees entered left refused) :
    q.enqueued - q.dequeued = UInt64.ofNat q.buffer.length := by
  rw [h.enqueued, h.dequeued, h.order, List.length_append, Nat.add_comm, UInt64.ofNat_add]
  exact UInt64.add_sub_cancel ..

theorem Agrees.dequeued_toNat (h : q.Agrees entered left refused)
    (hfits : left.length < 2 ^ 64) : q.dequeued.toNat = left.length := by
  rw [h.dequeued, UInt64.toNat_ofNat_of_lt' hfits]

theorem Agrees.dropped_toNat (h : q.Agrees entered left refused) (hfits : refused < 2 ^ 64) :
    q.dropped.toNat = refused := by
  rw [h.dropped, UInt64.toNat_ofNat_of_lt' hfits]

end CountedQueue
