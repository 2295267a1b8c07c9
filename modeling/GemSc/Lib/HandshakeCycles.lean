import GemSc.Lib.Handshake

/-! Runs of a handshake. In a cycle both sides have one turn, in any order with what is put into the
queue, and what waits crosses within three cycles for each element. -/

namespace Handshake
variable {α : Type*}

inductive Turn (α : Type*)
  | push (as : List α)
  | offer
  | receive

namespace Turn

def isOffer : Turn α → Bool
  | push _ => false
  | offer => true
  | receive => false

def isReceive : Turn α → Bool
  | push _ => false
  | offer => false
  | receive => true

end Turn

def turn (h : Handshake α) : Turn α → Handshake α
  | .push as => h.push as
  | .offer => h.offer
  | .receive => h.receive

structure Cycle (α : Type*) where
  turns : List (Turn α)
  offers : turns.countP Turn.isOffer = 1
  receives : turns.countP Turn.isReceive = 1

def cycle (h : Handshake α) (c : Cycle α) : Handshake α := (c.turns.foldl turn h).update

/-- What the turns have done since the cycle began with `h`. -/
structure Since (h h' : Handshake α) (offered received : Bool) : Prop where
  req : h'.req.value = h.req.value
  data : h'.data.value = h.data.value
  ack : h'.ack.value = h.ack.value
  pushed : h.pushed <+: h'.pushed
  buffer : offered = false → h.buffer <+: h'.buffer
  requested : offered = true → h.buffer ≠ [] → h'.req.next = (!h.req.value && !h.ack.value)
  acknowledged : received = true → h'.ack.next = (h.req.value && !h.ack.value)
  accepted : h'.accepted =
    h.accepted ++ if received && (h.req.value && !h.ack.value) then [h.data.value] else []
  popped : h.buffer ≠ [] → h'.popped =
    h.popped ++ if offered && (!h.req.value && h.ack.value) then h.buffer.head?.toList else []

variable {h h' : Handshake α} {offered received : Bool}

theorem since_start (h : Handshake α) : Since h h false false where
  req := rfl
  data := rfl
  ack := rfl
  pushed := List.prefix_rfl
  buffer := fun _ => List.prefix_rfl
  requested := fun heq => absurd heq Bool.false_ne_true
  acknowledged := fun heq => absurd heq Bool.false_ne_true
  accepted := (List.append_nil _).symm
  popped := fun _ => (List.append_nil _).symm

theorem Since.push (hs : Since h h' offered received) (as : List α) :
    Since h (h'.push as) offered received :=
  { hs with
    pushed := hs.pushed.trans (List.prefix_append _ _)
    buffer := fun ho => (hs.buffer ho).trans (List.prefix_append _ _) }

theorem offer_frame (h : Handshake α) : h.offer.req.value = h.req.value ∧
    h.offer.data.value = h.data.value ∧ h.offer.ack = h.ack ∧ h.offer.pushed = h.pushed ∧
    h.offer.accepted = h.accepted ∧ (h.buffer ≠ [] →
      h.offer.req.next = (!h.req.value && !h.ack.value) ∧
      h.offer.popped = h.popped ++ if !h.req.value && h.ack.value then h.buffer.head?.toList else []) := by
  unfold Handshake.offer
  cases hbuffer : h.buffer with
  | nil => exact ⟨rfl, rfl, rfl, rfl, rfl, fun hne => absurd rfl hne⟩
  | cons a rest =>
    cases hreq : h.req.value <;> cases hack : h.ack.value <;>
      exact ⟨hreq, rfl, rfl, rfl, rfl, fun _ => ⟨rfl, by simp⟩⟩

theorem head?_of_prefix {l l' : List α} (hinitial : l <+: l') (hne : l ≠ []) :
    l' ≠ [] ∧ l'.head? = l.head? := by
  obtain ⟨rest, rfl⟩ := hinitial
  exact ⟨List.append_ne_nil_of_left_ne_nil hne rest, List.head?_append_of_ne_nil l hne⟩

theorem Since.offer (hs : Since h h' false received) : Since h h'.offer true received := by
  obtain ⟨hreq, hdata, hack, hpushed, haccepted, hfront⟩ := offer_frame h'
  refine ⟨hreq.trans hs.req, hdata.trans hs.data, (congrArg Signal.value hack).trans hs.ack, ?_,
    fun ho => absurd ho.symm Bool.false_ne_true, fun _ hne => ?_, fun hr => ?_, ?_, fun hne => ?_⟩
  · rw [hpushed]
    exact hs.pushed
  · obtain ⟨hfull, -⟩ := head?_of_prefix (hs.buffer rfl) hne
    rw [(hfront hfull).1, hs.req, hs.ack]
  · rw [hack]
    exact hs.acknowledged hr
  · rw [haccepted]
    exact hs.accepted
  · obtain ⟨hfull, hhead⟩ := head?_of_prefix (hs.buffer rfl) hne
    have hpopped : h'.popped = h.popped := (hs.popped hne).trans (List.append_nil _)
    rw [(hfront hfull).2, hpopped, hhead, hs.req, hs.ack, Bool.true_and]

theorem receive_eq (h : Handshake α) : h.receive = { h with
    accepted := h.accepted ++ if h.req.value && !h.ack.value then [h.data.value] else []
    ack := h.ack.write (h.req.value && !h.ack.value) } := by
  unfold Handshake.receive
  cases h.req.value && !h.ack.value with
  | false => simp only [Bool.false_eq_true, if_false, List.append_nil]
  | true => rfl

theorem Since.receive (hs : Since h h' offered false) : Since h h'.receive offered true := by
  rw [receive_eq]
  refine ⟨hs.req, hs.data, hs.ack, hs.pushed, hs.buffer, hs.requested, fun _ => ?_, ?_,
    hs.popped⟩
  · change (h'.req.value && !h'.ack.value) = _
    rw [hs.req, hs.ack]
  · have heq : h'.accepted = h.accepted := hs.accepted.trans (List.append_nil _)
    change h'.accepted ++ (if h'.req.value && !h'.ack.value then [h'.data.value] else []) = _
    rw [heq, hs.req, hs.ack, hs.data, Bool.true_and]

theorem Sound.turn (hs : h.Sound offered received) (t : Turn α)
    (hoffered : t.isOffer → offered = false) (hreceived : t.isReceive → received = false) :
    (h.turn t).Sound (offered || t.isOffer) (received || t.isReceive) := by
  cases t with
  | push as =>
    simp only [Turn.isOffer, Turn.isReceive, Bool.or_false]
    exact hs.push as
  | offer =>
    obtain rfl := hoffered rfl
    simp only [Turn.isOffer, Turn.isReceive, Bool.or_false, Bool.or_true]
    exact hs.offer
  | receive =>
    obtain rfl := hreceived rfl
    simp only [Turn.isOffer, Turn.isReceive, Bool.or_false, Bool.or_true]
    exact hs.receive

theorem Since.turn (hs : Since h h' offered received) (t : Turn α)
    (hoffered : t.isOffer → offered = false) (hreceived : t.isReceive → received = false) :
    Since h (h'.turn t) (offered || t.isOffer) (received || t.isReceive) := by
  cases t with
  | push as =>
    simp only [Turn.isOffer, Turn.isReceive, Bool.or_false]
    exact hs.push as
  | offer =>
    obtain rfl := hoffered rfl
    simp only [Turn.isOffer, Turn.isReceive, Bool.or_false, Bool.or_true]
    exact hs.offer
  | receive =>
    obtain rfl := hreceived rfl
    simp only [Turn.isOffer, Turn.isReceive, Bool.or_false, Bool.or_true]
    exact hs.receive

theorem turn_once {taken b last : Bool} {n : ℕ}
    (hcount : taken.toNat + (n + if b then 1 else 0) = last.toNat) :
    (b → taken = false) ∧ (taken || b).toNat + n = last.toNat := by
  cases taken <;> cases b <;> cases last <;> simp_all

section
variable {offered' received' : Bool}

theorem eq_of_toNat_eq {a b : Bool} (heq : a.toNat = b.toNat) : a = b := by
  cases a <;> cases b <;> first | rfl | cases heq

theorem Sound.turns (ts : List (Turn α)) (hs : h.Sound offered received)
    (hoffers : offered.toNat + ts.countP Turn.isOffer = offered'.toNat)
    (hreceives : received.toNat + ts.countP Turn.isReceive = received'.toNat) :
    (ts.foldl Handshake.turn h).Sound offered' received' := by
  induction ts generalizing h offered received with
  | nil =>
    obtain rfl := eq_of_toNat_eq hoffers
    obtain rfl := eq_of_toNat_eq hreceives
    exact hs
  | cons t ts ih =>
    rw [List.countP_cons] at hoffers hreceives
    obtain ⟨hoffered, hoffers'⟩ := turn_once hoffers
    obtain ⟨hreceived, hreceives'⟩ := turn_once hreceives
    exact ih (hs.turn t hoffered hreceived) hoffers' hreceives'

theorem Since.turns (ts : List (Turn α)) (hs : Since h h' offered received)
    (hoffers : offered.toNat + ts.countP Turn.isOffer = offered'.toNat)
    (hreceives : received.toNat + ts.countP Turn.isReceive = received'.toNat) :
    Since h (ts.foldl Handshake.turn h') offered' received' := by
  induction ts generalizing h' offered received with
  | nil =>
    obtain rfl := eq_of_toNat_eq hoffers
    obtain rfl := eq_of_toNat_eq hreceives
    exact hs
  | cons t ts ih =>
    rw [List.countP_cons] at hoffers hreceives
    obtain ⟨hoffered, hoffers'⟩ := turn_once hoffers
    obtain ⟨hreceived, hreceives'⟩ := turn_once hreceives
    exact ih (hs.turn t hoffered hreceived) hoffers' hreceives'

end

theorem since_cycle (h : Handshake α) (c : Cycle α) :
    Since h (c.turns.foldl Handshake.turn h) true true :=
  Since.turns c.turns (since_start h) ((Nat.zero_add _).trans c.offers)
    ((Nat.zero_add _).trans c.receives)

theorem pushed_cycle (h : Handshake α) (c : Cycle α) : h.pushed <+: (h.cycle c).pushed :=
  (since_cycle h c).pushed

theorem accepted_cycle (h : Handshake α) (c : Cycle α) : (h.cycle c).accepted =
    h.accepted ++ if h.req.value && !h.ack.value then [h.data.value] else [] :=
  (since_cycle h c).accepted

theorem ack_cycle (h : Handshake α) (c : Cycle α) :
    (h.cycle c).ack.value = (h.req.value && !h.ack.value) := (since_cycle h c).acknowledged rfl

theorem req_cycle (h : Handshake α) (c : Cycle α) (hbuffer : h.buffer ≠ []) :
    (h.cycle c).req.value = (!h.req.value && !h.ack.value) :=
  (since_cycle h c).requested rfl hbuffer

theorem Sound.cycle (hs : h.Sound false false) (c : Cycle α) : (h.cycle c).Sound false false := by
  have hturns : (c.turns.foldl Handshake.turn h).Sound true true :=
    hs.turns c.turns ((Nat.zero_add _).trans c.offers) ((Nat.zero_add _).trans c.receives)
  exact hturns.update

theorem caught_up {lo hi : ℕ → ℕ} (hlo : Monotone lo) (hhi : Monotone hi)
    (hgain : ∀ t, lo t < hi t → lo t < lo (t + 3)) (t n : ℕ) :
    min (hi t) (lo t + n) ≤ lo (t + 3 * n) := by
  induction n with
  | zero => exact min_le_right _ _
  | succ n ih =>
    have hmono := hhi (Nat.le_add_right t (3 * n))
    have hgrown := hlo (by omega : t + 3 * n ≤ t + 3 * (n + 1))
    rcases lt_or_ge (lo (t + 3 * n)) (hi (t + 3 * n)) with hlt | hge
    · have hstep := hgain _ hlt
      have heq : t + 3 * n + 3 = t + 3 * (n + 1) := by ring
      rw [heq] at hstep
      omega
    · omega

structure Run (h : ℕ → Handshake α) : Prop where
  sound : (h 0).Sound false false
  cycles : ∀ t, ∃ c, h (t + 1) = (h t).cycle c

namespace Run
variable {h : ℕ → Handshake α} (hrun : Run h)
include hrun

theorem sound_at (t : ℕ) : (h t).Sound false false := by
  induction t with
  | zero => exact hrun.sound
  | succ t ih =>
    obtain ⟨c, hc⟩ := hrun.cycles t
    rw [hc]
    exact ih.cycle c

theorem pushed_succ (t : ℕ) : (h t).pushed <+: (h (t + 1)).pushed := by
  obtain ⟨c, hc⟩ := hrun.cycles t
  rw [hc]
  exact pushed_cycle _ c

theorem accepted_succ (t : ℕ) : (h (t + 1)).accepted = (h t).accepted ++
    if (h t).req.value && !(h t).ack.value then [(h t).data.value] else [] := by
  obtain ⟨c, hc⟩ := hrun.cycles t
  rw [hc]
  exact accepted_cycle _ c

theorem ack_succ (t : ℕ) : (h (t + 1)).ack.value = ((h t).req.value && !(h t).ack.value) := by
  obtain ⟨c, hc⟩ := hrun.cycles t
  rw [hc]
  exact ack_cycle _ c

theorem req_succ (t : ℕ) (hbuffer : (h t).buffer ≠ []) :
    (h (t + 1)).req.value = (!(h t).req.value && !(h t).ack.value) := by
  obtain ⟨c, hc⟩ := hrun.cycles t
  rw [hc]
  exact req_cycle _ c hbuffer

theorem pushed_mono {t t' : ℕ} (ht : t ≤ t') : (h t).pushed <+: (h t').pushed := by
  induction t', ht using Nat.le_induction with
  | base => exact List.prefix_rfl
  | succ t' _ ih => exact ih.trans (hrun.pushed_succ t')

theorem accepted_mono {t t' : ℕ} (ht : t ≤ t') : (h t).accepted <+: (h t').accepted := by
  induction t', ht using Nat.le_induction with
  | base => exact List.prefix_rfl
  | succ t' _ ih =>
    rw [hrun.accepted_succ]
    exact ih.trans (List.prefix_append _ _)

theorem length_accepted_of_requested {t : ℕ} (hreq : (h t).req.value = true)
    (hack : (h t).ack.value = false) :
    (h (t + 1)).accepted.length = (h t).accepted.length + 1 := by
  rw [hrun.accepted_succ, hreq, hack]
  exact List.length_append

theorem length_accepted_of_idle {t : ℕ} (hreq : (h t).req.value = false)
    (hack : (h t).ack.value = false) (hbuffer : (h t).buffer ≠ []) :
    (h (t + 2)).accepted.length = (h t).accepted.length + 1 := by
  have hreq' : (h (t + 1)).req.value = true := by rw [hrun.req_succ t hbuffer, hreq, hack]; rfl
  have hack' : (h (t + 1)).ack.value = false := by rw [hrun.ack_succ, hreq]; rfl
  have hkept : (h (t + 1)).accepted = (h t).accepted := by
    rw [hrun.accepted_succ, hreq]
    exact List.append_nil _
  rw [hrun.length_accepted_of_requested hreq' hack', hkept]

theorem buffer_ne_nil {t : ℕ} (hlt : (h t).accepted.length < (h t).pushed.length) :
    (h t).buffer ≠ [] := by
  intro hnil
  have horder := (hrun.sound_at t).order
  rw [hnil, List.append_nil] at horder
  rcases (hrun.sound_at t).accepted_eq with heq | ⟨a, hfront, heq⟩
  · rw [heq, horder] at hlt
    exact lt_irrefl _ hlt
  · rw [hnil] at hfront
    cases hfront

theorem length_accepted_lt {t : ℕ} (hlt : (h t).accepted.length < (h t).pushed.length) :
    (h t).accepted.length < (h (t + 3)).accepted.length := by
  have hbuffer := hrun.buffer_ne_nil hlt
  cases (hrun.sound_at t).stage with
  | idle req ack accepted front answer =>
    have hgrown := hrun.length_accepted_of_idle req ack hbuffer
    have hmono := (hrun.accepted_mono (by omega : t + 2 ≤ t + 3)).length_le
    omega
  | sent req ack front accepted withdrawn answer =>
    have hgrown := hrun.length_accepted_of_requested req ack
    have hmono := (hrun.accepted_mono (by omega : t + 1 ≤ t + 3)).length_le
    omega
  | taken req ack accepted withdrawn answer =>
    have hreq' : (h (t + 1)).req.value = false := by
      rw [hrun.req_succ t hbuffer, ack, Bool.not_true, Bool.and_false]
    have hack' : (h (t + 1)).ack.value = false := by rw [hrun.ack_succ, req]; rfl
    have hkept : (h (t + 1)).accepted = (h t).accepted := by
      rw [hrun.accepted_succ, req]
      exact List.append_nil _
    have hmono := (hrun.pushed_succ t).length_le
    have hlt' : (h (t + 1)).accepted.length < (h (t + 1)).pushed.length := by
      rw [hkept]
      omega
    have hgrown := hrun.length_accepted_of_idle hreq' hack' (hrun.buffer_ne_nil hlt')
    rw [hkept, Nat.add_assoc] at hgrown
    exact hgrown ▸ Nat.lt_succ_self _

theorem accepted_all (t : ℕ) :
    (h t).pushed <+: (h (t + 3 * ((h t).pushed.length - (h t).accepted.length))).accepted := by
  set t' := t + 3 * ((h t).pushed.length - (h t).accepted.length) with ht'
  have hbound := caught_up (fun _ _ ht => (hrun.accepted_mono ht).length_le)
    (fun _ _ ht => (hrun.pushed_mono ht).length_le) (fun _ => hrun.length_accepted_lt) t
    ((h t).pushed.length - (h t).accepted.length)
  rw [← ht'] at hbound
  have hlength : (h t).pushed.length ≤ (h t').accepted.length := by omega
  have hpushed := hrun.pushed_mono (Nat.le_add_right t _ : t ≤ t')
  exact List.prefix_of_prefix_length_le hpushed (hrun.sound_at t').accepted_isPrefix hlength

theorem exists_accepted (t : ℕ) : ∃ t' ≥ t, (h t).pushed <+: (h t').accepted :=
  ⟨_, Nat.le_add_right t _, hrun.accepted_all t⟩

end Run

/-- A sender before each of its turns, to which each request is acknowledged in the next cycle. -/
structure Served (h : ℕ → Handshake α) : Prop where
  order : ∀ t, (h t).pushed = (h t).popped ++ (h t).buffer
  pushed_succ : ∀ t, (h t).pushed <+: (h (t + 1)).pushed
  popped_succ : ∀ t, (h t).popped <+: (h (t + 1)).popped
  front : ∀ t, (h t).buffer ≠ [] →
    (h (t + 1)).req.value = (!(h t).req.value && !(h t).ack.value) ∧
      (h (t + 1)).popped =
        (h t).popped ++ if !(h t).req.value && (h t).ack.value then (h t).buffer.head?.toList else []
  answered : ∀ t, (h t).req.value = true → (h (t + 1)).ack.value = true

namespace Served
variable {h : ℕ → Handshake α} (hserved : Served h)
include hserved

theorem pushed_mono {t t' : ℕ} (ht : t ≤ t') : (h t).pushed <+: (h t').pushed := by
  induction t', ht using Nat.le_induction with
  | base => exact List.prefix_rfl
  | succ t' _ ih => exact ih.trans (hserved.pushed_succ t')

theorem popped_mono {t t' : ℕ} (ht : t ≤ t') : (h t).popped <+: (h t').popped := by
  induction t', ht using Nat.le_induction with
  | base => exact List.prefix_rfl
  | succ t' _ ih => exact ih.trans (hserved.popped_succ t')

theorem popped_isPrefix (t : ℕ) : (h t).popped <+: (h t).pushed := by
  rw [hserved.order]
  exact List.prefix_append _ _

theorem buffer_ne_nil {t : ℕ} (hlt : (h t).popped.length < (h t).pushed.length) :
    (h t).buffer ≠ [] := by
  intro hnil
  rw [hserved.order, hnil, List.append_nil] at hlt
  exact lt_irrefl _ hlt

theorem length_popped_of_acknowledged {t : ℕ} (hlt : (h t).popped.length < (h t).pushed.length)
    (hreq : (h t).req.value = false) (hack : (h t).ack.value = true) :
    (h (t + 1)).popped.length = (h t).popped.length + 1 := by
  have hbuffer := hserved.buffer_ne_nil hlt
  rw [(hserved.front t hbuffer).2, hreq, hack, List.length_append]
  obtain ⟨a, rest, hcons⟩ := List.exists_cons_of_ne_nil hbuffer
  rw [hcons]
  rfl

/-- A request is withdrawn in the cycle in which it is seen, and the front is taken off in the next
one. -/
theorem length_popped_of_requested {t : ℕ} (hlt : (h t).popped.length < (h t).pushed.length)
    (hreq : (h t).req.value = true) : (h t).popped.length < (h (t + 2)).popped.length := by
  obtain ⟨hreq', hpopped⟩ := hserved.front t (hserved.buffer_ne_nil hlt)
  rw [hreq] at hreq' hpopped
  have hkept : (h (t + 1)).popped = (h t).popped := hpopped.trans (List.append_nil _)
  have hmono := (hserved.pushed_succ t).length_le
  have hlt' : (h (t + 1)).popped.length < (h (t + 1)).pushed.length := by
    rw [hkept]
    omega
  rw [hserved.length_popped_of_acknowledged hlt' hreq' (hserved.answered t hreq), hkept]
  exact Nat.lt_succ_self _

theorem length_popped_lt {t : ℕ} (hlt : (h t).popped.length < (h t).pushed.length) :
    (h t).popped.length < (h (t + 3)).popped.length := by
  cases hreq : (h t).req.value with
  | true =>
    have hmono := (hserved.popped_mono (by omega : t + 2 ≤ t + 3)).length_le
    exact (hserved.length_popped_of_requested hlt hreq).trans_le hmono
  | false =>
    cases hack : (h t).ack.value with
    | true =>
      have hmono := (hserved.popped_mono (by omega : t + 1 ≤ t + 3)).length_le
      rw [hserved.length_popped_of_acknowledged hlt hreq hack] at hmono
      exact hmono
    | false =>
      obtain ⟨hreq', hpopped⟩ := hserved.front t (hserved.buffer_ne_nil hlt)
      rw [hreq, hack] at hreq' hpopped
      have hkept : (h (t + 1)).popped = (h t).popped := hpopped.trans (List.append_nil _)
      have hmono := (hserved.pushed_succ t).length_le
      have hlt' : (h (t + 1)).popped.length < (h (t + 1)).pushed.length := by
        rw [hkept]
        omega
      rw [← hkept]
      exact hserved.length_popped_of_requested hlt' hreq'

theorem popped_all (t : ℕ) : (h t).pushed <+: (h (t + 3 * (h t).buffer.length)).popped := by
  set t' := t + 3 * (h t).buffer.length with ht'
  have hbound := caught_up (fun _ _ ht => (hserved.popped_mono ht).length_le)
    (fun _ _ ht => (hserved.pushed_mono ht).length_le) (fun _ => hserved.length_popped_lt) t
    (h t).buffer.length
  have horder := congrArg List.length (hserved.order t)
  rw [List.length_append] at horder
  rw [← ht'] at hbound
  have hlength : (h t).pushed.length ≤ (h t').popped.length := by omega
  have hpushed := hserved.pushed_mono (Nat.le_add_right t _ : t ≤ t')
  exact List.prefix_of_prefix_length_le hpushed (hserved.popped_isPrefix t') hlength

theorem exists_popped (t : ℕ) : ∃ t' ≥ t, (h t).pushed <+: (h t').popped :=
  ⟨_, Nat.le_add_right t _, hserved.popped_all t⟩

end Served
end Handshake
