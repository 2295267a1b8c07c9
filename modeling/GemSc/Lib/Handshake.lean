import Mathlib

/-! Signals whose writes take effect at the end of a cycle, and a request/acknowledge handshake
over three of them. The sender offers the front of its queue for one cycle, and takes it off when
it sees the acknowledge. -/

structure Signal (α : Type*) where
  value : α
  next : α

namespace Signal
variable {α : Type*}

def init (a : α) : Signal α := ⟨a, a⟩

/-- The last write of a cycle counts. -/
def write (s : Signal α) (a : α) : Signal α := { s with next := a }

def update (s : Signal α) : Signal α := ⟨s.next, s.next⟩

end Signal

structure Handshake (α : Type*) where
  buffer : List α
  req : Signal Bool
  data : Signal α
  ack : Signal Bool
  pushed : List α
  popped : List α
  accepted : List α

namespace Handshake
variable {α : Type*}

def push (as : List α) (h : Handshake α) : Handshake α :=
  { h with buffer := h.buffer ++ as, pushed := h.pushed ++ as }

def offer (h : Handshake α) : Handshake α :=
  match h.buffer with
  | [] => { h with req := h.req.write false }
  | a :: rest =>
    if h.req.value then { h with req := h.req.write false }
    else if h.ack.value then
      { h with
        buffer := rest
        popped := h.popped ++ [a]
        data := h.data.write a
        req := h.req.write false }
    else { h with data := h.data.write a, req := h.req.write true }

def receive (h : Handshake α) : Handshake α :=
  if h.req.value && !h.ack.value then
    { h with accepted := h.accepted ++ [h.data.value], ack := h.ack.write true }
  else { h with ack := h.ack.write false }

def update (h : Handshake α) : Handshake α :=
  { h with req := h.req.update, data := h.data.update, ack := h.ack.update }

/-- Where the transfer of the front stands in a cycle in which the two sides have had their turn
or not: it is not offered yet, it is offered, or it was accepted. -/
inductive Stage (h : Handshake α) (offered received : Bool) : Prop
  | idle (req : h.req.value = false) (ack : h.ack.value = false)
      (accepted : h.accepted = h.popped)
      (front : offered = true → h.req.next = true → h.buffer.head? = some h.data.next)
      (answer : received = true → h.ack.next = false)
  | sent (req : h.req.value = true) (ack : h.ack.value = false)
      (front : h.buffer.head? = some h.data.value)
      (accepted : h.accepted = h.popped ++ if received then [h.data.value] else [])
      (withdrawn : offered = true → h.req.next = false)
      (answer : received = true → h.ack.next = true)
  | taken (req : h.req.value = false) (ack : h.ack.value = true)
      (accepted : if offered then h.accepted = h.popped
        else ∃ a, h.buffer.head? = some a ∧ h.accepted = h.popped ++ [a])
      (withdrawn : offered = true → h.req.next = false)
      (answer : received = true → h.ack.next = false)

structure Sound (h : Handshake α) (offered received : Bool) : Prop where
  order : h.pushed = h.popped ++ h.buffer
  stage : h.Stage offered received

variable {h : Handshake α} {offered received : Bool}

theorem sound_start (data : Signal α) :
    Sound ⟨[], .init false, data, .init false, [], [], []⟩ false false where
  order := rfl
  stage := .idle rfl rfl rfl (fun h _ => absurd h Bool.false_ne_true)
    fun h => absurd h Bool.false_ne_true

theorem head?_push (as : List α) {b : α} (hb : h.buffer.head? = some b) :
    (h.push as).buffer.head? = some b := by
  unfold push
  rw [List.head?_append, hb]
  rfl

theorem Sound.push (hs : h.Sound offered received) (as : List α) :
    (h.push as).Sound offered received := by
  refine ⟨?_, ?_⟩
  · change h.pushed ++ as = h.popped ++ (h.buffer ++ as)
    rw [hs.order, List.append_assoc]
  · cases hs.stage with
    | idle req ack accepted front answer =>
      exact .idle req ack accepted (fun ho hr => head?_push as (front ho hr)) answer
    | sent req ack front accepted withdrawn answer =>
      exact .sent req ack (head?_push as front) accepted withdrawn answer
    | taken req ack accepted withdrawn answer =>
      refine .taken req ack ?_ withdrawn answer
      cases offered with
      | true => exact accepted
      | false =>
        obtain ⟨a, ha, haccepted⟩ := accepted
        exact ⟨a, head?_push as ha, haccepted⟩

theorem offer_of_nil (hbuffer : h.buffer = []) : h.offer = { h with req := h.req.write false } := by
  rw [offer, hbuffer]

theorem offer_of_requested (hreq : h.req.value = true) :
    h.offer = { h with req := h.req.write false } := by
  rw [offer, hreq]
  split <;> rfl

theorem offer_of_acknowledged {a : α} {rest : List α} (hbuffer : h.buffer = a :: rest)
    (hreq : h.req.value = false) (hack : h.ack.value = true) : h.offer = { h with
      buffer := rest
      popped := h.popped ++ [a]
      data := h.data.write a
      req := h.req.write false } := by
  rw [offer, hbuffer, hreq, hack]
  rfl

theorem offer_of_waiting {a : α} {rest : List α} (hbuffer : h.buffer = a :: rest)
    (hreq : h.req.value = false) (hack : h.ack.value = false) :
    h.offer = { h with data := h.data.write a, req := h.req.write true } := by
  rw [offer, hbuffer, hreq, hack]
  simp only [Bool.false_eq_true, if_false]

theorem Sound.offer (hs : h.Sound false received) : h.offer.Sound true received := by
  cases hs.stage with
  | idle req ack accepted front answer =>
    cases hbuffer : h.buffer with
    | nil =>
      rw [offer_of_nil hbuffer]
      exact ⟨hs.order, .idle req ack accepted (fun _ hr => absurd hr Bool.false_ne_true) answer⟩
    | cons a rest =>
      rw [offer_of_waiting hbuffer req ack]
      refine ⟨hs.order, .idle req ack accepted (fun _ _ => ?_) answer⟩
      change h.buffer.head? = some a
      rw [hbuffer]
      rfl
  | sent req ack front accepted withdrawn answer =>
    rw [offer_of_requested req]
    exact ⟨hs.order, .sent req ack front accepted (fun _ => rfl) answer⟩
  | taken req ack accepted withdrawn answer =>
    obtain ⟨a, hfront, haccepted⟩ := accepted
    obtain ⟨rest, hbuffer⟩ := List.head?_eq_some_iff.mp hfront
    rw [offer_of_acknowledged hbuffer req ack]
    refine ⟨?_, .taken req ack haccepted (fun _ => rfl) answer⟩
    change h.pushed = h.popped ++ [a] ++ rest
    rw [hs.order, hbuffer, List.append_assoc, List.singleton_append]

theorem receive_of_requested (hreq : h.req.value = true) (hack : h.ack.value = false) :
    h.receive = { h with
      accepted := h.accepted ++ [h.data.value]
      ack := h.ack.write true } := by
  rw [receive, hreq, hack]
  rfl

theorem receive_of_not_requested (hreq : h.req.value = false) :
    h.receive = { h with ack := h.ack.write false } := by
  rw [receive, hreq]
  rfl

theorem Sound.receive (hs : h.Sound offered false) : h.receive.Sound offered true := by
  cases hs.stage with
  | idle req ack accepted front answer =>
    rw [receive_of_not_requested req]
    exact ⟨hs.order, .idle req ack accepted front fun _ => rfl⟩
  | sent req ack front accepted withdrawn answer =>
    have heq : h.accepted = h.popped := accepted.trans (List.append_nil _)
    rw [receive_of_requested req ack]
    exact ⟨hs.order, .sent req ack front (congrArg (· ++ _) heq) withdrawn fun _ => rfl⟩
  | taken req ack accepted withdrawn answer =>
    rw [receive_of_not_requested req]
    exact ⟨hs.order, .taken req ack accepted withdrawn fun _ => rfl⟩

theorem Sound.update (hs : h.Sound true true) : h.update.Sound false false := by
  have hnot {p : Prop} : false = true → p := fun heq => absurd heq Bool.false_ne_true
  refine ⟨hs.order, ?_⟩
  cases hs.stage with
  | idle req ack accepted front answer =>
    cases hreq : h.req.next with
    | false => exact .idle hreq (answer rfl) accepted hnot hnot
    | true =>
      refine .sent hreq (answer rfl) (front rfl hreq) ?_ hnot hnot
      exact accepted.trans (List.append_nil _).symm
  | sent req ack front accepted withdrawn answer =>
    exact .taken (withdrawn rfl) (answer rfl) ⟨_, front, accepted⟩ hnot hnot
  | taken req ack accepted withdrawn answer =>
    exact .idle (withdrawn rfl) (answer rfl) accepted hnot hnot

theorem Sound.accepted_eq (hs : h.Sound offered received) : h.accepted = h.popped ∨
    ∃ a, h.buffer.head? = some a ∧ h.accepted = h.popped ++ [a] := by
  cases hs.stage with
  | idle req ack accepted front answer => exact .inl accepted
  | sent req ack front accepted withdrawn answer =>
    cases received with
    | false => exact .inl (accepted.trans (List.append_nil _))
    | true => exact .inr ⟨_, front, accepted⟩
  | taken req ack accepted withdrawn answer =>
    cases offered with
    | true => exact .inl accepted
    | false => exact .inr accepted

theorem Sound.accepted_isPrefix (hs : h.Sound offered received) : h.accepted <+: h.pushed := by
  rw [hs.order]
  rcases hs.accepted_eq with heq | ⟨a, hfront, heq⟩
  · rw [heq]
    exact List.prefix_append _ _
  · rw [heq]
    obtain ⟨rest, hbuffer⟩ := List.head?_eq_some_iff.mp hfront
    rw [hbuffer]
    exact ⟨rest, (List.append_cons ..).symm⟩

end Handshake
