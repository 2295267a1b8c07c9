import GemSc.Ext.PayloadToPacket
import GemSc.Lib.PendingTable

/-! Runs of the response adapter: each response answers a request that is pending, and no request
is answered twice. -/

namespace GemSc
open Function PendingTable

inductive AdapterStep (ν δ : Type*)
  | cacheRequest (req : Option PacketPtr)
  | clearRequest (sid sqn : UInt64)
  | encapsulate (inputs : PayloadInputs δ)
  | outside (memory : ExtMemory ν δ)

namespace PayloadToPacket
variable {ν δ : Type*}

def start (memory : ExtMemory ν δ) : PayloadToPacket ν δ := ⟨memory, fun _ => none, false, none⟩

/-- A cached request is in use, and while it is pending other code leaves it alone. -/
def Allows (a : PayloadToPacket ν δ) : AdapterStep ν δ → Prop
  | .cacheRequest req => ∀ p, req = some p → a.memory.InUse p
  | .clearRequest _ _ => True
  | .encapsulate _ => True
  | .outside memory => ∀ k p, a.pendingReqs k = some p →
      memory.packet p = a.memory.packet p ∧ memory.InUse p

variable [Zero ν]

def step (a : PayloadToPacket ν δ) : AdapterStep ν δ → PayloadToPacket ν δ
  | .cacheRequest req => a.cacheRequest req
  | .clearRequest sid sqn => a.clearRequest sid sqn
  | .encapsulate inputs => a.encapsulate inputs
  | .outside memory => { a with memory }

def event (a : PayloadToPacket ν δ) : AdapterStep ν δ → TableEvent RequestKey PacketPtr
  | .cacheRequest none => .other
  | .cacheRequest (some p) => .put (a.memory.packet p).key p
  | .clearRequest sid sqn => .remove (sid, sqn)
  | .encapsulate inputs => if (a.encapsulate inputs).validOut then .remove inputs.key else .other
  | .outside _ => .other

def after (memory : ExtMemory ν δ) (steps : List (AdapterStep ν δ)) (n : ℕ) :
    PayloadToPacket ν δ :=
  (steps.take n).foldl step (start memory)

def history (memory : ExtMemory ν δ) (steps : List (AdapterStep ν δ)) (n : ℕ) :
    TableEvent RequestKey PacketPtr :=
  match steps[n]? with
  | none => .other
  | some s => (after memory steps n).event s

structure RespondsTo (req : ExtPacket ν δ) (payload : δ) (resp : ExtPacket ν δ) : Prop where
  key : resp.key = req.key
  addr : resp.addr = req.addr
  size : resp.size = req.size
  srcId : resp.srcId = req.destId
  destId : resp.destId = req.srcId
  cmd : resp.cmd = .invalid
  type : resp.type = .resp
  extension : resp.extension = some payload

/-- The packet put out by step `n` is the response to the request cached by step `i`, which was
neither answered, cleared nor replaced in between. -/
structure Answers (memory : ExtMemory ν δ) (steps : List (AdapterStep ν δ)) (i n : ℕ)
    (req resp : PacketPtr) (inputs : PayloadInputs δ) : Prop where
  call : steps[i]? = some (.cacheRequest (some req))
  edge : steps[n]? = some (.encapsulate inputs)
  emitted : (after memory steps (n + 1)).validOut = true
  output : (after memory steps (n + 1)).pktOut = some resp
  pending : Since (history memory steps) inputs.key req i n
  fields : RespondsTo ((after memory steps i).memory.packet req) inputs.payload
    ((after memory steps (n + 1)).memory.packet resp)

structure Matched (memory : ExtMemory ν δ) (steps : List (AdapterStep ν δ)) : Prop where
  answers : ∀ n inputs, steps[n]? = some (.encapsulate inputs) →
    (after memory steps (n + 1)).validOut = true →
      ∃ i req resp, Answers memory steps i n req resp inputs
  once : ∀ i n m req req' resp resp' inputs inputs', Answers memory steps i n req resp inputs →
    Answers memory steps i m req' resp' inputs' → n = m
  silent : ∀ n inputs, steps[n]? = some (.encapsulate inputs) → inputs.valid = true →
    (after memory steps n).pendingReqs inputs.key = none →
      (after memory steps (n + 1)).validOut = false ∧ (after memory steps (n + 1)).pktOut = none ∧
        (after memory steps (n + 1)).pendingReqs = (after memory steps n).pendingReqs

variable {memory m : ExtMemory ν δ} {steps : List (AdapterStep ν δ)} {a : PayloadToPacket ν δ}
  {s : AdapterStep ν δ} {inputs : PayloadInputs δ} {p req resp : PacketPtr} {k : RequestKey} {i n : ℕ}

theorem acquire_inUse (h : m.InUse p) :
    m.acquire.1 ≠ p ∧ m.acquire.2.packet p = m.packet p ∧ m.acquire.2.InUse p := by
  obtain ⟨hnext, hfree⟩ := h
  unfold ExtMemory.InUse
  rw [ExtMemory.acquire.eq_def]
  cases hlist : m.free with
  | nil =>
    have hne : p ≠ m.next := hnext.ne
    exact ⟨hne.symm, update_of_ne hne _ _, hnext.trans (Nat.lt_succ_self _), List.not_mem_nil⟩
  | cons q rest =>
    rw [hlist, List.mem_cons, not_or] at hfree
    exact ⟨Ne.symm hfree.1, update_of_ne hfree.1 _ _, hnext, hfree.2⟩

omit [Zero ν] in
theorem assign_inUse {f : ExtPacket ν δ → ExtPacket ν δ → ExtPacket ν δ} (hne : resp ≠ p)
    (h : m.packet p = memory.packet p ∧ m.InUse p) :
    (m.assign resp req f).packet p = memory.packet p ∧ (m.assign resp req f).InUse p :=
  ⟨(update_of_ne hne.symm _ _).trans h.1, h.2⟩

omit [Zero ν] in
theorem fillResponse_inUse (hne : resp ≠ p) (h : m.packet p = memory.packet p ∧ m.InUse p) :
    (fillResponse inputs resp req m).packet p = memory.packet p ∧
      (fillResponse inputs resp req m).InUse p := by
  unfold fillResponse
  iterate 5 apply assign_inUse hne
  exact h

theorem respond_inUse (h : m.InUse p) : (respond inputs req m).2.packet p = m.packet p ∧
    (respond inputs req m).2.InUse p := by
  obtain ⟨hne, hacquired⟩ := acquire_inUse h
  exact fillResponse_inUse hne hacquired

theorem respond_fields (h : m.InUse req) (hkey : (m.packet req).key = inputs.key) :
    RespondsTo (m.packet req) inputs.payload
      ((respond inputs req m).2.packet (respond inputs req m).1) := by
  obtain ⟨hne, hpacket, -⟩ := acquire_inUse h
  refine ⟨hkey.symm ▸ ?_, ?_, ?_, ?_, ?_, ?_, ?_, ?_⟩ <;>
    simp [respond, fillResponse, ExtMemory.assign, update_of_ne hne.symm, hpacket, ExtPacket.key,
      PayloadInputs.key]

variable (inputs a) in
/-- What a clock edge does: nothing is put out, or a pending request is answered and taken off. -/
theorem encapsulate_cases :
    ((a.encapsulate inputs).validOut = false ∧ (a.encapsulate inputs).pktOut = none ∧
        (a.encapsulate inputs).memory = a.memory ∧
        (a.encapsulate inputs).pendingReqs = a.pendingReqs) ∨
      ∃ req, inputs.valid = true ∧ a.pendingReqs inputs.key = some req ∧
        a.encapsulate inputs = ⟨(respond inputs req a.memory).2,
          update a.pendingReqs inputs.key none, true, some (respond inputs req a.memory).1⟩ := by
  unfold encapsulate
  cases hvalid : inputs.valid with
  | false => exact .inl ⟨rfl, rfl, rfl, rfl⟩
  | true =>
    cases hreq : a.pendingReqs inputs.key with
    | none => exact .inl ⟨rfl, rfl, rfl, rfl⟩
    | some req => exact .inr ⟨req, rfl, rfl, rfl⟩

theorem pendingReqs_step (a : PayloadToPacket ν δ) (s : AdapterStep ν δ) :
    (a.step s).pendingReqs = apply a.pendingReqs (a.event s) := by
  cases s with
  | cacheRequest req =>
    cases req with
    | none => rfl
    | some p => rfl
  | clearRequest sid sqn => rfl
  | outside memory => rfl
  | encapsulate inputs =>
    change (a.encapsulate inputs).pendingReqs = apply a.pendingReqs
      (if (a.encapsulate inputs).validOut then .remove inputs.key else .other)
    rcases a.encapsulate_cases inputs with ⟨hvalid, -, -, hpending⟩ | ⟨req, -, -, heq⟩
    · rw [hpending, if_neg (Bool.eq_false_iff.mp hvalid)]
      rfl
    · rw [heq, if_pos rfl]
      rfl

theorem step_inUse (hallow : a.Allows s) (hpending : a.pendingReqs k = some p)
    (huse : a.memory.InUse p) :
    (a.step s).memory.packet p = a.memory.packet p ∧ (a.step s).memory.InUse p := by
  cases s with
  | cacheRequest req =>
    cases req with
    | none => exact ⟨rfl, huse⟩
    | some q => exact ⟨rfl, huse⟩
  | clearRequest sid sqn => exact ⟨rfl, huse⟩
  | outside memory => exact hallow k p hpending
  | encapsulate inputs =>
    change (a.encapsulate inputs).memory.packet p = _ ∧ (a.encapsulate inputs).memory.InUse p
    rcases a.encapsulate_cases inputs with ⟨-, -, hmemory, -⟩ | ⟨req, -, -, heq⟩
    · rw [hmemory]
      exact ⟨rfl, huse⟩
    · rw [heq]
      exact respond_inUse huse

theorem after_succ (hs : steps[n]? = some s) :
    after memory steps (n + 1) = (after memory steps n).step s := by
  obtain ⟨hn, rfl⟩ := List.getElem?_eq_some_iff.mp hs
  unfold after
  rw [List.take_succ_eq_append_getElem hn, List.foldl_append]
  rfl

theorem history_eq (hs : steps[n]? = some s) :
    history memory steps n = (after memory steps n).event s := by
  rw [history, hs]

theorem after_of_length_le (hn : steps.length ≤ n) :
    after memory steps (n + 1) = after memory steps n := by
  unfold after
  rw [List.take_of_length_le hn, List.take_of_length_le (hn.trans (Nat.le_succ n))]

theorem pendingReqs_after (memory : ExtMemory ν δ) (steps : List (AdapterStep ν δ)) (n : ℕ) :
    (after memory steps (n + 1)).pendingReqs =
      apply (after memory steps n).pendingReqs (history memory steps n) := by
  cases hs : steps[n]? with
  | none =>
    rw [after_of_length_le (List.getElem?_eq_none_iff.mp hs), history, hs]
    rfl
  | some s => rw [after_succ hs, history_eq hs, pendingReqs_step]

theorem call_of_put (h : history memory steps i = .put k p) :
    steps[i]? = some (.cacheRequest (some p)) ∧
      ((after memory steps i).memory.packet p).key = k := by
  cases hs : steps[i]? with
  | none =>
    rw [history, hs] at h
    cases h
  | some s =>
    rw [history_eq hs] at h
    cases s with
    | cacheRequest req =>
      cases req with
      | none => cases h
      | some q =>
        obtain ⟨rfl, rfl⟩ := TableEvent.put.inj h
        exact ⟨rfl, rfl⟩
    | clearRequest sid sqn => cases h
    | outside memory => cases h
    | encapsulate inputs =>
      change (if (_ : PayloadToPacket ν δ).validOut then TableEvent.remove _ else .other) = _ at h
      split_ifs at h

theorem pending_kept (hallow : ∀ n s, steps[n]? = some s → (after memory steps n).Allows s)
    (hsince : Since (history memory steps) k p i n) :
    (after memory steps n).memory.packet p = (after memory steps i).memory.packet p ∧
      (after memory steps n).memory.InUse p := by
  obtain ⟨hcall, -⟩ := call_of_put hsince.put
  refine hsince.induction (motive := fun n =>
    (after memory steps n).memory.packet p = (after memory steps i).memory.packet p ∧
      (after memory steps n).memory.InUse p) ?_ fun m hm hkept => ?_
  · rw [after_succ hcall]
    exact ⟨rfl, hallow i _ hcall p rfl⟩
  · cases hs : steps[m]? with
    | none => rwa [after_of_length_le (List.getElem?_eq_none_iff.mp hs)]
    | some s =>
      have htable : (after memory steps m).pendingReqs k = some p :=
        hm.table_eq (fun n => (after memory steps n).pendingReqs) (pendingReqs_after memory steps)
      obtain ⟨hsame, huse⟩ := step_inUse (hallow m s hs) htable hkept.2
      rw [after_succ hs]
      exact ⟨hsame.trans hkept.1, huse⟩

theorem exists_answers (hallow : ∀ n s, steps[n]? = some s → (after memory steps n).Allows s)
    (hs : steps[n]? = some (.encapsulate inputs))
    (hvalid : (after memory steps (n + 1)).validOut = true) :
    ∃ i req resp, Answers memory steps i n req resp inputs := by
  have hafter : after memory steps (n + 1) = (after memory steps n).encapsulate inputs :=
    after_succ hs
  rw [hafter] at hvalid
  rcases (after memory steps n).encapsulate_cases inputs with ⟨hno, -⟩ | ⟨req, -, hpending, heq⟩
  · exact absurd (hno.symm.trans hvalid) Bool.false_ne_true
  · obtain ⟨i, hsince⟩ := exists_since (fun n => (after memory steps n).pendingReqs) rfl
      (pendingReqs_after memory steps) hpending
    obtain ⟨hcall, hkey⟩ := call_of_put hsince.put
    obtain ⟨hsame, huse⟩ := pending_kept hallow hsince
    refine ⟨i, req, (respond inputs req (after memory steps n).memory).1, hcall, hs, ?_, ?_, hsince, ?_⟩
    · rw [hafter, heq]
    · rw [hafter, heq]
    · rw [hafter, heq, ← hsame]
      exact respond_fields huse (by rw [hsame, hkey])

theorem Answers.touches {req : PacketPtr} (h : Answers memory steps i n req resp inputs) :
    (history memory steps n).Touches inputs.key := by
  have hvalid := h.emitted
  rw [after_succ h.edge] at hvalid
  have hevent : history memory steps n = .remove inputs.key :=
    (history_eq h.edge).trans (if_pos hvalid)
  rw [hevent]
  rfl

theorem Answers.le {req req' resp' : PacketPtr} {inputs' : PayloadInputs δ} {m : ℕ}
    (h : Answers memory steps i n req resp inputs)
    (h' : Answers memory steps i m req' resp' inputs') : m ≤ n := by
  obtain ⟨hkey, -⟩ := TableEvent.put.inj (h.pending.put.symm.trans h'.pending.put)
  have hsince := h'.pending
  rw [← hkey] at hsince
  exact hsince.le_of_touches h.pending.lt h.touches

/-- In every run in which cached requests are in use while they are pending, the responses and the
requests match. -/
theorem responses_matched (memory : ExtMemory ν δ) (steps : List (AdapterStep ν δ))
    (hallow : ∀ n s, steps[n]? = some s → (after memory steps n).Allows s) :
    Matched memory steps where
  answers := fun n inputs hs hvalid => exists_answers hallow hs hvalid
  once := fun i n m req req' resp resp' inputs inputs' h h' => le_antisymm (h'.le h) (h.le h')
  silent := by
    intro n inputs hs _ hnone
    have hafter : after memory steps (n + 1) = (after memory steps n).encapsulate inputs :=
      after_succ hs
    rw [hafter]
    rcases (after memory steps n).encapsulate_cases inputs with
      ⟨hvalid, hpkt, -, hpending⟩ | ⟨req, -, hsome, -⟩
    · exact ⟨hvalid, hpkt, hpending⟩
    · rw [hnone] at hsome
      cases hsome

def demoMemory : ExtMemory ℤ ℕ where
  packet := fun _ => ⟨5, 1, 0x1000, 64, 2, 3, .read, .req, none⟩
  free := []
  next := 1

def demoSteps : List (AdapterStep ℤ ℕ) :=
  [.cacheRequest (some 0), .encapsulate ⟨true, 7, 5, 1⟩, .encapsulate ⟨true, 7, 5, 1⟩]

theorem responses_matched_demo :
    (∃ i req resp, Answers demoMemory demoSteps i 1 req resp ⟨true, 7, 5, 1⟩) ∧
      (after demoMemory demoSteps 3).pktOut = none := by
  have hmatched : Matched demoMemory demoSteps := by
    refine responses_matched demoMemory demoSteps fun n s hs => ?_
    match n, hs with
    | 0, hs =>
      obtain rfl := Option.some.inj hs
      intro p hp
      obtain rfl := Option.some.inj hp
      exact ⟨Nat.zero_lt_one, List.not_mem_nil⟩
    | 1, hs =>
      obtain rfl := Option.some.inj hs
      trivial
    | 2, hs =>
      obtain rfl := Option.some.inj hs
      trivial
  exact ⟨hmatched.answers 1 _ rfl rfl, (hmatched.silent 2 _ rfl rfl rfl).2.1⟩

end PayloadToPacket
end GemSc
