import GemSc.Ext.ResponseMatching

/-! The adapter that takes packets apart, behind the one that makes them of responses. Whatever is
put in and answered comes out again a clock edge later. -/

namespace GemSc
open PayloadToPacket

structure PacketToPayload (δ : Type*) where
  payloadOut : δ
  streamIdOut : UInt64
  seqNumOut : UInt64
  validOut : Bool

abbrev Beat (δ : Type*) := δ × RequestKey

def ExtMemory.beat {ν δ : Type*} (m : ExtMemory ν δ) (pkt : PacketPtr) : Option (Beat δ) :=
  (m.packet pkt).extension.map (·, (m.packet pkt).key)

namespace PacketToPayload
variable {ν δ : Type*}

/-- A clock edge with `pktIn` and `validIn` as the values of the input ports. -/
def extract (memory : ExtMemory ν δ) (pktIn : Option PacketPtr) (validIn : Bool)
    (x : PacketToPayload δ) : PacketToPayload δ :=
  if !validIn then { x with validOut := false }
  else
    match pktIn with
    | none => { x with validOut := false }
    | some pkt =>
      -- a packet without a payload has no extension either
      match (memory.packet pkt).extension with
      | none => { x with validOut := false }
      | some data => ⟨data, (memory.packet pkt).streamId, (memory.packet pkt).seqNum, true⟩

def output (x : PacketToPayload δ) : Option (Beat δ) :=
  if x.validOut then some (x.payloadOut, (x.streamIdOut, x.seqNumOut)) else none

theorem output_extract_of_not_valid (memory : ExtMemory ν δ) (pktIn : Option PacketPtr)
    (x : PacketToPayload δ) : (x.extract memory pktIn false).output = none := rfl

theorem output_extract (memory : ExtMemory ν δ) (pkt : PacketPtr) (x : PacketToPayload δ) :
    (x.extract memory (some pkt) true).output = memory.beat pkt := by
  unfold extract ExtMemory.beat
  cases hext : (memory.packet pkt).extension with
  | none =>
    simp only [hext]
    rfl
  | some data =>
    simp only [hext]
    rfl

end PacketToPayload

/-- The two adapters with a signal from one to the other. `answered` are the responses that the first
one took in, and `extracted` those that the second one put out. -/
structure ResponsePath (ν δ : Type*) where
  adapter : PayloadToPacket ν δ
  extractor : PacketToPayload δ
  answered : List (Beat δ)
  extracted : List (Beat δ)

namespace ResponsePath
variable {ν δ : Type*}

def start (memory : ExtMemory ν δ) (data : δ) : ResponsePath ν δ :=
  ⟨.start memory, ⟨data, 0, 0, false⟩, [], []⟩

def inFlight (c : ResponsePath ν δ) : Option (Beat δ) :=
  if c.adapter.validOut then c.adapter.pktOut.bind c.adapter.memory.beat else none

structure PoolIntact (m : ExtMemory ν δ) : Prop where
  nodup : m.free.Nodup
  allocated : ∀ pkt ∈ m.free, pkt < m.next

/-- Other code releases no packet twice, and leaves the packet on the signal alone. -/
def Leaves (c : ResponsePath ν δ) : AdapterStep ν δ → Prop
  | .outside memory => PoolIntact memory ∧ ∀ pkt, c.adapter.pktOut = some pkt →
      memory.packet pkt = c.adapter.memory.packet pkt ∧ memory.InUse pkt
  | _ => True

variable [Zero ν]

/-- At a clock edge the process of the second adapter runs first or last. Both read the signals as
they were before. -/
def step (extractFirst : Bool) (c : ResponsePath ν δ) : AdapterStep ν δ → ResponsePath ν δ
  | .encapsulate inputs =>
    let adapter := c.adapter.encapsulate inputs
    let memory := if extractFirst then c.adapter.memory else adapter.memory
    let extractor := c.extractor.extract memory c.adapter.pktOut c.adapter.validOut
    { adapter
      extractor
      answered := c.answered ++ if adapter.validOut then [(inputs.payload, inputs.key)] else []
      extracted := c.extracted ++ extractor.output.toList }
  | s => { c with adapter := c.adapter.step s }

inductive Reached : ResponsePath ν δ → Prop
  | start (memory : ExtMemory ν δ) (data : δ) (h : PoolIntact memory) : Reached (start memory data)
  | step (extractFirst : Bool) {c : ResponsePath ν δ} {s : AdapterStep ν δ} (h : Reached c)
      (hleaves : c.Leaves s) : Reached (c.step extractFirst s)

variable {c : ResponsePath ν δ} {m : ExtMemory ν δ} {inputs : PayloadInputs δ} {s : AdapterStep ν δ}
  {pkt : PacketPtr}

theorem acquire_intact (h : PoolIntact m) :
    PoolIntact m.acquire.2 ∧ m.acquire.2.InUse m.acquire.1 := by
  unfold ExtMemory.InUse
  rw [ExtMemory.acquire.eq_def]
  cases hfree : m.free with
  | nil =>
    exact ⟨⟨List.nodup_nil, fun _ hpkt => absurd hpkt List.not_mem_nil⟩, Nat.lt_succ_self _,
      List.not_mem_nil⟩
  | cons p rest =>
    obtain ⟨hnodup, hallocated⟩ := h
    rw [hfree] at hnodup hallocated
    obtain ⟨hp, hrest⟩ := List.nodup_cons.mp hnodup
    exact ⟨⟨hrest, fun pkt hpkt => hallocated pkt (List.mem_cons_of_mem _ hpkt)⟩,
      hallocated p (List.mem_cons_self ..), hp⟩

variable (inputs) in
theorem respond_intact (h : PoolIntact m) (req : PacketPtr) :
    PoolIntact (respond inputs req m).2 ∧ (respond inputs req m).2.InUse (respond inputs req m).1 ∧
      (respond inputs req m).2.beat (respond inputs req m).1 =
        some (inputs.payload, inputs.key) := by
  obtain ⟨hintact, huse⟩ := acquire_intact h
  refine ⟨⟨hintact.nodup, hintact.allocated⟩, huse, ?_⟩
  simp [ExtMemory.beat, respond, fillResponse, ExtMemory.assign, ExtPacket.key, PayloadInputs.key]

/-- What the first adapter puts out is in use and holds a response. What was answered came out, or is
on the signal. -/
structure Held (c : ResponsePath ν δ) : Prop where
  intact : PoolIntact c.adapter.memory
  output : c.adapter.validOut = true → ∃ pkt, c.adapter.pktOut = some pkt ∧
    c.adapter.memory.InUse pkt ∧ (c.adapter.memory.beat pkt).isSome
  kept : c.answered = c.extracted ++ c.inFlight.toList

omit [Zero ν] in
theorem inFlight_of_valid (hvalid : c.adapter.validOut = true)
    (hpkt : c.adapter.pktOut = some pkt) : c.inFlight = c.adapter.memory.beat pkt := by
  unfold inFlight
  rw [if_pos hvalid, hpkt]
  rfl

omit [Zero ν] in
theorem inFlight_of_not_valid (hvalid : c.adapter.validOut = false) : c.inFlight = none := by
  unfold inFlight
  rw [if_neg (Bool.eq_false_iff.mp hvalid)]

omit [Zero ν] in
theorem beat_congr {m' : ExtMemory ν δ} (h : m'.packet pkt = m.packet pkt) :
    m'.beat pkt = m.beat pkt := by
  unfold ExtMemory.beat
  rw [h]

theorem Held.encapsulate_beat (h : Held c) (inputs : PayloadInputs δ)
    (hvalid : c.adapter.validOut = true) (hpkt : c.adapter.pktOut = some pkt) :
    (c.adapter.encapsulate inputs).memory.beat pkt = c.adapter.memory.beat pkt := by
  obtain ⟨pkt', hpkt', huse, -⟩ := h.output hvalid
  rw [hpkt] at hpkt'
  cases hpkt'
  rcases c.adapter.encapsulate_cases inputs with ⟨-, -, hmemory, -⟩ | ⟨req, -, -, heq⟩
  · rw [hmemory]
  · rw [heq]
    exact beat_congr (respond_inUse huse).1

theorem Held.output_extract (h : Held c) (extractFirst : Bool) (inputs : PayloadInputs δ) :
    (c.extractor.extract
        (if extractFirst then c.adapter.memory else (c.adapter.encapsulate inputs).memory)
        c.adapter.pktOut c.adapter.validOut).output = c.inFlight := by
  cases hvalid : c.adapter.validOut with
  | false =>
    rw [inFlight_of_not_valid hvalid]
    exact PacketToPayload.output_extract_of_not_valid ..
  | true =>
    obtain ⟨pkt, hpkt, -, -⟩ := h.output hvalid
    rw [inFlight_of_valid hvalid hpkt, hpkt, PacketToPayload.output_extract]
    cases extractFirst with
    | false => exact h.encapsulate_beat inputs hvalid hpkt
    | true => rfl

theorem Held.edge (h : Held c) (extractFirst : Bool) (inputs : PayloadInputs δ) :
    Held (c.step extractFirst (.encapsulate inputs)) := by
  have hextracted : (c.step extractFirst (.encapsulate inputs)).extracted = c.answered := by
    rw [h.kept, ← h.output_extract extractFirst inputs]
    rfl
  have hadapter : (c.step extractFirst (.encapsulate inputs)).adapter =
      c.adapter.encapsulate inputs := rfl
  have hanswered : (c.step extractFirst (.encapsulate inputs)).answered = c.answered ++
      if (c.adapter.encapsulate inputs).validOut then [(inputs.payload, inputs.key)] else [] := rfl
  rcases c.adapter.encapsulate_cases inputs with ⟨hvalid, -, hmemory, -⟩ | ⟨req, -, -, heq⟩
  · refine ⟨?_, fun hnow => ?_, ?_⟩
    · rw [hadapter, hmemory]
      exact h.intact
    · rw [hadapter, hvalid] at hnow
      exact absurd hnow Bool.false_ne_true
    · rw [hanswered, hextracted, inFlight_of_not_valid (hadapter ▸ hvalid), hvalid,
        if_neg Bool.false_ne_true]
      rfl
  · obtain ⟨hintact, huse, hbeat⟩ := respond_intact inputs h.intact req
    rw [heq] at hadapter hanswered
    refine ⟨?_, fun _ => ?_, ?_⟩
    · rw [hadapter]
      exact hintact
    · rw [hadapter]
      exact ⟨_, rfl, huse, Option.isSome_of_mem hbeat⟩
    · rw [hanswered, hextracted, inFlight_of_valid (by rw [hadapter]) (by rw [hadapter]), hadapter,
        hbeat, if_pos rfl]
      rfl

theorem Held.step (h : Held c) (extractFirst : Bool) (hleaves : c.Leaves s) :
    Held (c.step extractFirst s) := by
  cases s with
  | cacheRequest req =>
    cases req with
    | none => exact ⟨h.intact, h.output, h.kept⟩
    | some pkt => exact ⟨h.intact, h.output, h.kept⟩
  | clearRequest sid sqn => exact ⟨h.intact, h.output, h.kept⟩
  | encapsulate inputs => exact h.edge extractFirst inputs
  | outside memory =>
    obtain ⟨hintact, hsignal⟩ := hleaves
    have hinFlight : (c.step extractFirst (.outside memory)).inFlight = c.inFlight := by
      cases hvalid : c.adapter.validOut with
      | false =>
        have hnow : (c.step extractFirst (.outside memory)).adapter.validOut = false := hvalid
        rw [inFlight_of_not_valid hvalid, inFlight_of_not_valid hnow]
      | true =>
        obtain ⟨pkt, hpkt, -, -⟩ := h.output hvalid
        have hnow : (c.step extractFirst (.outside memory)).adapter.validOut = true := hvalid
        have hpktNow : (c.step extractFirst (.outside memory)).adapter.pktOut = some pkt := hpkt
        rw [inFlight_of_valid hvalid hpkt, inFlight_of_valid hnow hpktNow]
        exact beat_congr (hsignal pkt hpkt).1
    refine ⟨hintact, fun hvalid => ?_, ?_⟩
    · obtain ⟨pkt, hpkt, -, hbeat⟩ := h.output hvalid
      obtain ⟨hsame, huse⟩ := hsignal pkt hpkt
      refine ⟨pkt, hpkt, huse, ?_⟩
      rw [← beat_congr hsame] at hbeat
      exact hbeat
    · rw [hinFlight]
      exact h.kept

theorem Reached.held (h : Reached c) : Held c := by
  induction h with
  | start memory data h =>
    exact ⟨h, fun hvalid => absurd hvalid Bool.false_ne_true, rfl⟩
  | step extractFirst _ hleaves ih => exact ih.step extractFirst hleaves

def threeRequests : ExtMemory ℤ ℕ where
  packet := fun pkt => ⟨5, .ofNat pkt, 0x1000, 64, 2, 3, .read, .req, none⟩
  free := []
  next := 3

def firstAnswered : ResponsePath ℤ ℕ :=
  ((((start threeRequests 0).step true (.cacheRequest (some 0))).step true
    (.cacheRequest (some 1))).step true (.cacheRequest (some 2))).step true
      (.encapsulate ⟨true, 20, 5, 1⟩)

end ResponsePath
end GemSc
