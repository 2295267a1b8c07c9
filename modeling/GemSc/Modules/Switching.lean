import GemSc.Lib.ExceptFold
import GemSc.Modules.Inversion
import GemSc.Pool.Usable

/-! Runs of a `Crossbar` or an `Arbiter`: what becomes of each accepted request, and the order
in which requests from one source to one output are forwarded. -/

namespace GemSc
open ExceptFold

inductive Switch
  | crossbar (x : Crossbar)
  | arbiter (x : Arbiter)

namespace Switch

def queue : Switch → List (PacketPtr × ℕ)
  | .crossbar x => x.reqQueue
  | .arbiter x => x.reqQueue

def withQueue (q : List (PacketPtr × ℕ)) : Switch → Switch
  | .crossbar _ => .crossbar ⟨q⟩
  | .arbiter _ => .arbiter ⟨q⟩

def handleUpstreamRequest (pkt : PacketPtr) (srcId : ℕ) (m : Switch) (a : Arena) :
    Except MemoryFault (Bool × Effect Switch) :=
  match m with
  | .crossbar x => do
    let r ← x.handleUpstreamRequest pkt srcId a
    return (r.1, r.2.map .crossbar)
  | .arbiter x => do
    let r ← x.handleUpstreamRequest pkt srcId a
    return (r.1, r.2.map .arbiter)

def tick (host : Host) (m : Switch) (a : Arena) : Except MemoryFault (Effect Switch) :=
  match m with
  | .crossbar x => do
    let e ← x.tick host a
    return e.map .crossbar
  | .arbiter x => do
    let e ← x.tick host a
    return e.map .arbiter

def output (ports : ℕ) (a : Arena) (pkt : PacketPtr) : Switch → Except MemoryFault ℕ
  | .crossbar _ => if ports = 0 then .ok 0 else do
    let addr ← a.heap.address pkt
    return Crossbar.route addr ports
  | .arbiter _ => .ok 0

/-- Without a downstream port a `Crossbar` frees the request and an `Arbiter` forgets it. -/
def Drops (pkt : PacketPtr) (a a' : Arena) : Switch → Prop
  | .crossbar _ => a.release pkt = .ok a'
  | .arbiter _ => a' = a

variable {host : Host} {m : Switch} {a : Arena} {e : Effect Switch} {p : PacketPtr} {srcId : ℕ}
  {q : List (PacketPtr × ℕ)}

theorem output_zero : m.output 0 a p = .ok 0 := by
  cases m <;> rfl

theorem output_congr {b : Arena} (n : ℕ) (h : b.heap.address p = a.heap.address p) :
    m.output n b p = m.output n a p := by
  cases m with
  | crossbar x => rw [output, output, h]
  | arbiter x => rfl

theorem not_drops_self (h : m.Drops p a a) : ∃ x, m = .arbiter x := by
  cases m with
  | crossbar x =>
    have hgone : a.Gone p a := Arena.release_eq_ok h
    rcases hgone.packets with ⟨hfree, -⟩ | ⟨-, hdel⟩
    · simpa using congrArg List.length hfree
    · exact absurd (hdel ▸ Finset.mem_insert_self _ _) hgone.alive
  | arbiter x => exact ⟨x, rfl⟩

@[simp] theorem queue_withQueue (q : List (PacketPtr × ℕ)) (m : Switch) : (m.withQueue q).queue = q := by
  cases m <;> rfl

@[simp] theorem output_withQueue (n : ℕ) : (m.withQueue q).output n a p = m.output n a p := by
  cases m <;> rfl

theorem handleUpstreamRequest_eq :
    m.handleUpstreamRequest p srcId a = .ok (true, ⟨m.withQueue (m.queue ++ [(p, srcId)]), a, [], []⟩) := by
  cases m <;> rfl

theorem tick_eq_ok (h : m.tick host a = .ok e) :
    (m.queue = [] ∧ e.state = m ∧ e.arena = a ∧ e.calls = []) ∨
      ∃ pkt src rest, m.queue = (pkt, src) :: rest ∧
        ((host.downstreamPorts = [] ∧ m.Drops pkt a e.arena ∧ e.calls = [] ∧
            e.state = m.withQueue rest) ∨
          (host.downstreamPorts ≠ [] ∧ e.arena = a ∧
            ∃ dst, m.output host.downstreamPorts.length a pkt = .ok dst ∧
              e.calls = [.sendReq dst pkt] ∧
              e.state = m.withQueue (if host.sendReq dst pkt then rest else rest ++ [(pkt, src)]))) := by
  cases m with
  | crossbar x =>
    obtain ⟨e', he, rfl⟩ := bind_pure_eq_ok.mp h
    rcases Crossbar.tick_eq_ok he with
      ⟨hnil, rfl⟩ | ⟨pkt, src, rest, hcons, ⟨hports, hrel, heq⟩ | ⟨hports, addr, dst, haddr, rfl, rfl⟩⟩
    · exact .inl ⟨hnil, rfl, rfl, rfl⟩
    · refine .inr ⟨pkt, src, rest, hcons, .inl ⟨hports, hrel, congrArg Effect.calls heq, ?_⟩⟩
      exact congrArg (fun e : Effect Crossbar => Switch.crossbar e.state) heq
    · have hout : (Switch.crossbar x).output host.downstreamPorts.length a pkt =
          .ok (Crossbar.route addr host.downstreamPorts.length) := by
        have hlen : host.downstreamPorts.length ≠ 0 := fun hz => hports (List.length_eq_zero_iff.mp hz)
        rw [output, if_neg hlen, haddr]
        rfl
      exact .inr ⟨pkt, src, rest, hcons, .inr ⟨hports, rfl, _, hout, rfl, rfl⟩⟩
  | arbiter x =>
    obtain ⟨e', he, rfl⟩ := bind_pure_eq_ok.mp h
    -- an arbiter without ports takes the request out and leaves its packet as it is
    rcases Arbiter.tick_eq_ok he with
      ⟨hnil, rfl⟩ | ⟨pkt, src, rest, hcons, ⟨hports, rfl⟩ | ⟨hports, rfl⟩⟩
    · exact .inl ⟨hnil, rfl, rfl, rfl⟩
    · exact .inr ⟨pkt, src, rest, hcons, .inl ⟨hports, rfl, rfl, rfl⟩⟩
    · exact .inr ⟨pkt, src, rest, hcons, .inr ⟨hports, rfl, 0, rfl, rfl, rfl⟩⟩

end Switch

structure Dropped where
  id : ℕ
  before : Arena
  after : Arena

/-- A switch with the requests that it accepted, each with its source. They are known by their
numbers: `queued` are those of the queue, and `forwarded` come with their output ports. -/
structure Passage where
  module : Switch
  arena : Arena
  accepted : List (PacketPtr × ℕ)
  queued : List ℕ
  forwarded : List (ℕ × ℕ)
  dropped : List Dropped

inductive PassageStep
  | request (p : PacketPtr) (srcId : ℕ)
  | tick (now : UInt64) (sendReq : ℕ → PacketPtr → Bool)
  | outside (a : Arena)

namespace Passage
variable (h : Host)

def start (m : Switch) (a : Arena) : Passage := ⟨m, a, [], [], [], []⟩

def absorb (sendReq : ℕ → PacketPtr → Bool) (e : Effect Switch) (s : Passage) : Passage :=
  let left := decide (e.state.queue.length < s.module.queue.length)
  let ports := (e.calls.filterMap (·.taken sendReq)).map Prod.fst
  { s with
    module := e.state
    arena := e.arena
    queued := if left then s.queued.drop 1 else s.queued.drop 1 ++ s.queued.take 1
    forwarded := s.forwarded ++ (s.queued.take 1).flatMap fun id => ports.map fun j => (id, j)
    dropped := if left ∧ ports = [] then
      s.dropped ++ (s.queued.take 1).map fun id => ⟨id, s.arena, e.arena⟩ else s.dropped }

def step (s : Passage) : PassageStep → Except MemoryFault Passage
  | .request p srcId => do
    let r ← s.module.handleUpstreamRequest p srcId s.arena
    return if r.1 then
      { s with
        module := r.2.state
        arena := r.2.arena
        accepted := s.accepted ++ [(p, srcId)]
        queued := s.queued ++ [s.accepted.length] }
    else { s with module := r.2.state, arena := r.2.arena }
  | .tick now sendReq => do
    let e ← s.module.tick { h with now := now, sendReq := sendReq } s.arena
    return s.absorb sendReq e
  | .outside a => .ok { s with arena := a }

def run (s : Passage) (steps : List PassageStep) : Except MemoryFault Passage :=
  steps.foldlM (step h) s

/-- Other code leaves the addresses of the queued requests as they are. -/
def Allows (s : Passage) : PassageStep → Prop
  | .outside a => ∀ r ∈ s.module.queue, a.heap.address r.1 = s.arena.heap.address r.1
  | .request _ _ => True
  | .tick _ _ => True

def source (s : Passage) (id : ℕ) : Option ℕ := s.accepted[id]?.map (·.2)

def outputOf (s : Passage) (id : ℕ) : Option (Except MemoryFault ℕ) :=
  s.accepted[id]?.map fun r => s.module.output h.downstreamPorts.length s.arena r.1

def line (s : Passage) : List (ℕ × Option (Except MemoryFault ℕ)) :=
  (s.forwarded.map fun f => (f.1, some (.ok f.2))) ++ s.queued.map fun id => (id, s.outputOf h id)

def Precedes (s : Passage) (f g : ℕ × Option (Except MemoryFault ℕ)) : Prop :=
  s.source f.1 = s.source g.1 → f.2 = g.2 → f.1 < g.1

structure Accounted (s : Passage) : Prop where
  queue : s.queued.map (s.accepted[·]?) = s.module.queue.map some
  once : (s.queued ++ s.forwarded.map Prod.fst ++ s.dropped.map (·.id)).Perm
    (List.range s.accepted.length)

/-- Every accepted request is accounted for, only those without a port to go to were dropped,
and then into the pool, and from one source to one output none overtakes another. -/
structure Kept (s : Passage) : Prop extends s.Accounted where
  released : ∀ d ∈ s.dropped, h.downstreamPorts = [] ∧
    ∃ r, s.accepted[d.id]? = some r ∧ d.before.release r.1 = .ok d.after
  inLine : (s.line h).Pairwise s.Precedes

/-- An arbiter takes a request for which there is no port; or the port refuses a request while
a later one from the same source waits for it. -/
def Misplaces (s : Passage) : PassageStep → Prop
  | .tick _ sendReq => ∃ pkt src rest, s.module.queue = (pkt, src) :: rest ∧
      ((h.downstreamPorts = [] ∧ ∃ x, s.module = .arbiter x) ∨
        (h.downstreamPorts ≠ [] ∧
          ∃ dst, s.module.output h.downstreamPorts.length s.arena pkt = .ok dst ∧
            sendReq dst pkt = false ∧ ∃ r ∈ rest, r.2 = src ∧
              s.module.output h.downstreamPorts.length s.arena r.1 = .ok dst))
  | .request _ _ => False
  | .outside _ => False

variable {h} {s s' : Passage} {p : PacketPtr} {srcId : ℕ} {now : UInt64}
  {sendReq : ℕ → PacketPtr → Bool} {a : Arena} {m : Switch}

theorem accounted_start (hm : m.queue = []) (a : Arena) : (start m a).Accounted :=
  ⟨by rw [start, hm]; rfl, List.Perm.refl []⟩

theorem kept_start (hm : m.queue = []) (a : Arena) : (start m a).Kept h :=
  ⟨accounted_start hm a, fun _ hd => absurd hd List.not_mem_nil, List.Pairwise.nil⟩

theorem Accounted.queued_lt (hs : s.Accounted) {id : ℕ} (hid : id ∈ s.queued) :
    id < s.accepted.length := by
  have hmem : id ∈ s.queued ++ s.forwarded.map Prod.fst ++ s.dropped.map (·.id) :=
    List.mem_append_left _ (List.mem_append_left _ hid)
  exact List.mem_range.mp (hs.once.mem_iff.mp hmem)

theorem Accounted.line_lt (hs : s.Accounted) {f : ℕ × Option (Except MemoryFault ℕ)}
    (hf : f ∈ s.line h) : f.1 < s.accepted.length := by
  rcases List.mem_append.mp hf with hfwd | hq
  · obtain ⟨g, hg, rfl⟩ := List.mem_map.mp hfwd
    have hmem : g.1 ∈ s.queued ++ s.forwarded.map Prod.fst ++ s.dropped.map (·.id) :=
      List.mem_append_left _ (List.mem_append_right _ (List.mem_map_of_mem hg))
    exact List.mem_range.mp (hs.once.mem_iff.mp hmem)
  · obtain ⟨id, hid, rfl⟩ := List.mem_map.mp hq
    exact hs.queued_lt hid

theorem step_request : s.step h (.request p srcId) = .ok
    { s with
      module := s.module.withQueue (s.module.queue ++ [(p, srcId)])
      accepted := s.accepted ++ [(p, srcId)]
      queued := s.queued ++ [s.accepted.length] } := by
  rw [step, Switch.handleUpstreamRequest_eq]
  rfl

theorem tick_eq_ok (hs : s.Accounted) (hstep : s.step h (.tick now sendReq) = .ok s') :
    (s.module.queue = [] ∧ s' = s) ∨
      ∃ pkt src rest id ids, s.module.queue = (pkt, src) :: rest ∧ s.queued = id :: ids ∧
        s.accepted[id]? = some (pkt, src) ∧ ids.map (s.accepted[·]?) = rest.map some ∧
        ((h.downstreamPorts = [] ∧ ∃ a, s.module.Drops pkt s.arena a ∧
            s' = { s with
              module := s.module.withQueue rest
              arena := a
              queued := ids
              dropped := s.dropped ++ [⟨id, s.arena, a⟩] }) ∨
          (h.downstreamPorts ≠ [] ∧
            ∃ dst, s.module.output h.downstreamPorts.length s.arena pkt = .ok dst ∧
              ((sendReq dst pkt = true ∧ s' = { s with
                  module := s.module.withQueue rest
                  queued := ids
                  forwarded := s.forwarded ++ [(id, dst)] }) ∨
                (sendReq dst pkt = false ∧ s' = { s with
                  module := s.module.withQueue (rest ++ [(pkt, src)])
                  queued := ids ++ [id] })))) := by
  obtain ⟨e, he, rfl⟩ := bind_pure_eq_ok.mp hstep
  have hqueue := hs.queue
  rcases Switch.tick_eq_ok he with ⟨hnil, hstate, harena, hcalls⟩ | ⟨pkt, src, rest, hcons, hcases⟩
  · rw [hnil, List.map_nil, List.map_eq_nil_iff] at hqueue
    refine .inl ⟨hnil, ?_⟩
    simp only [absorb, hstate, harena, hcalls, hqueue, lt_irrefl, decide_false, List.take_nil,
      List.drop_nil, List.flatMap_nil, List.append_nil, Bool.false_eq_true, false_and, if_false]
    rw [← hqueue]
  · rw [hcons, List.map_cons, List.map_eq_cons_iff] at hqueue
    obtain ⟨id, ids, hqueued, hid, hids⟩ := hqueue
    refine .inr ⟨pkt, src, rest, id, ids, hcons, hqueued, hid, hids, ?_⟩
    rcases hcases with ⟨hports, hdrop, hcalls, hstate⟩ | ⟨hports, harena, dst, hout, hcalls, hstate⟩
    · refine .inl ⟨hports, e.arena, hdrop, ?_⟩
      simp [absorb, hstate, hcalls, hqueued, hcons]
    · refine .inr ⟨hports, dst, hout, ?_⟩
      dsimp only at hstate
      cases hok : sendReq dst pkt with
      | true =>
        rw [if_pos hok] at hstate
        refine .inl ⟨rfl, ?_⟩
        simp [absorb, hstate, harena, hcalls, hqueued, hcons, PortCall.taken, hok]
      | false =>
        rw [if_neg (Bool.eq_false_iff.mp hok)] at hstate
        refine .inr ⟨rfl, ?_⟩
        simp [absorb, hstate, harena, hcalls, hqueued, hcons, PortCall.taken, hok]

theorem Accounted.once_of_moved {id : ℕ} {ids parts : List ℕ} (hs : s.Accounted)
    (hqueued : s.queued = id :: ids)
    (hparts : parts.Perm (ids ++ (s.forwarded.map Prod.fst ++ s.dropped.map (·.id)) ++ [id])) :
    parts.Perm (List.range s.accepted.length) := by
  have honce := hs.once
  rw [hqueued, List.append_assoc] at honce
  exact hparts.trans ((List.perm_append_singleton id _).trans honce)

theorem Accounted.step {b : PassageStep} (hs : s.Accounted) (hstep : s.step h b = .ok s') :
    s'.Accounted := by
  cases b with
  | request p srcId =>
    obtain rfl := Except.ok.inj (step_request.symm.trans hstep)
    constructor
    -- the numbers in the queue are below the new one
    · have hold : s.queued.map ((s.accepted ++ [(p, srcId)])[·]?) = s.queued.map (s.accepted[·]?) :=
        List.map_congr_left fun id hid => List.getElem?_append_left (hs.queued_lt hid)
      simp [hold, hs.queue]
    · rw [List.length_append, List.length_singleton, List.range_succ]
      refine List.Perm.trans ?_ (hs.once.append_right _)
      simp only [List.append_assoc]
      refine List.Perm.append_left s.queued ?_
      rw [← List.append_assoc, ← List.append_assoc]
      exact (List.perm_append_singleton _ _).symm
  | outside a =>
    obtain rfl := Except.ok.inj hstep
    exact ⟨hs.queue, hs.once⟩
  | tick now sendReq =>
    rcases tick_eq_ok hs hstep with
      ⟨-, rfl⟩ | ⟨pkt, src, rest, id, ids, hcons, hqueued, hid, hids, ⟨-, a, -, rfl⟩ |
        ⟨-, dst, -, ⟨-, rfl⟩ | ⟨-, rfl⟩⟩⟩
    · exact hs
    · refine ⟨by simpa using hids, hs.once_of_moved hqueued ?_⟩
      simp
    · refine ⟨by simpa using hids, hs.once_of_moved hqueued ?_⟩
      simp only [List.map_append, List.append_assoc]
      exact ((List.perm_append_comm).append_left _).append_left _
    · refine ⟨by simpa [hid] using hids, hs.once_of_moved hqueued ?_⟩
      have hlast : (id :: (s.forwarded.map Prod.fst ++ s.dropped.map (·.id))).Perm
          (s.forwarded.map Prod.fst ++ s.dropped.map (·.id) ++ [id]) :=
        (List.perm_append_singleton _ _).symm
      simpa using hlast.append_left ids

theorem line_of_queued {id : ℕ} {ids : List ℕ} (hqueued : s.queued = id :: ids) :
    s.line h = (s.forwarded.map fun f => (f.1, some (.ok f.2))) ++
      (id, s.outputOf h id) :: ids.map fun id => (id, s.outputOf h id) := by
  rw [line, hqueued]
  rfl

/-- A refused request goes behind the others, which keeps them in line exactly when none of them
has its source and its output. -/
theorem inLine_refused_iff {id : ℕ} {ids : List ℕ} {q : List (PacketPtr × ℕ)}
    (hline : (s.line h).Pairwise s.Precedes) (hqueued : s.queued = id :: ids)
    (hs' : s' = { s with module := s.module.withQueue q, queued := ids ++ [id] }) :
    (s'.line h).Pairwise s'.Precedes ↔
      ∀ g ∈ ids, ¬ (s.source id = s.source g ∧ s.outputOf h id = s.outputOf h g) := by
  have hline' : s'.line h = (s.forwarded.map fun f => (f.1, some (.ok f.2))) ++
      (ids.map (fun id => (id, s.outputOf h id)) ++ [(id, s.outputOf h id)]) := by
    simp [hs', line, outputOf]
  have hprecedes : s'.Precedes = s.Precedes := by
    rw [hs']
    rfl
  rw [line_of_queued hqueued, List.pairwise_append, List.pairwise_cons] at hline
  obtain ⟨hforwarded, ⟨hfront, hids⟩, hacross⟩ := hline
  rw [hline', hprecedes, List.pairwise_append, List.pairwise_append]
  constructor
  -- behind `g` and still with a smaller number than `g`
  · rintro ⟨-, ⟨-, -, hlast⟩, -⟩ g hg ⟨hsource, hout⟩
    have hmem : (g, s.outputOf h g) ∈ ids.map fun id => (id, s.outputOf h id) :=
      List.mem_map_of_mem (f := fun id => (id, s.outputOf h id)) hg
    have hbefore : id < g := hfront _ hmem hsource hout
    have hafter : g < id := hlast _ hmem _ (List.mem_singleton_self _) hsource.symm hout.symm
    exact absurd hafter hbefore.asymm
  · intro hnone
    refine ⟨hforwarded, ⟨hids, List.pairwise_singleton .., ?_⟩, ?_⟩
    · intro x hx y hy hsource hout
      obtain ⟨g, hg, rfl⟩ := List.mem_map.mp hx
      obtain rfl := List.mem_singleton.mp hy
      exact absurd ⟨hsource.symm, hout.symm⟩ (hnone g hg)
    · intro x hx y hy
      refine hacross x hx y ?_
      rcases List.mem_append.mp hy with hy | hy
      · exact List.mem_cons_of_mem _ hy
      · rw [List.mem_singleton.mp hy]
        exact List.mem_cons_self ..

theorem mem_rest_iff {id dst src : ℕ} {pkt : PacketPtr} {ids : List ℕ} {rest : List (PacketPtr × ℕ)}
    (hid : s.accepted[id]? = some (pkt, src)) (hids : ids.map (s.accepted[·]?) = rest.map some)
    (hout : s.module.output h.downstreamPorts.length s.arena pkt = .ok dst) :
    (∀ g ∈ ids, ¬ (s.source id = s.source g ∧ s.outputOf h id = s.outputOf h g)) ↔
      ¬ ∃ r ∈ rest, r.2 = src ∧ s.module.output h.downstreamPorts.length s.arena r.1 = .ok dst := by
  have hfront : s.source id = some src ∧ s.outputOf h id = some (.ok dst) := by
    simp [source, outputOf, hid, hout]
  have hsame : ∀ g r, s.accepted[g]? = some r →
      ((s.source id = s.source g ∧ s.outputOf h id = s.outputOf h g) ↔
        r.2 = src ∧ s.module.output h.downstreamPorts.length s.arena r.1 = .ok dst) := by
    intro g r hg
    rw [hfront.1, hfront.2, source, outputOf, hg]
    simp [eq_comm]
  constructor
  · rintro hnone ⟨r, hr, hflow⟩
    have hmem : some r ∈ ids.map (s.accepted[·]?) := hids ▸ List.mem_map_of_mem hr
    obtain ⟨g, hg, hgr⟩ := List.mem_map.mp hmem
    exact hnone g hg ((hsame g r hgr).mpr hflow)
  · intro hnone g hg hflow
    have hmem : s.accepted[g]? ∈ rest.map some := hids ▸ List.mem_map_of_mem (f := (s.accepted[·]?)) hg
    obtain ⟨r, hr, hgr⟩ := List.mem_map.mp hmem
    exact hnone ⟨r, hr, (hsame g r hgr.symm).mp hflow⟩

theorem inLine_request (hs : s.Kept h) (hs' : s' = { s with
      module := s.module.withQueue (s.module.queue ++ [(p, srcId)])
      accepted := s.accepted ++ [(p, srcId)]
      queued := s.queued ++ [s.accepted.length] }) : (s'.line h).Pairwise s'.Precedes := by
  have hold : ∀ id, id < s.accepted.length → s'.accepted[id]? = s.accepted[id]? := by
    intro id hid
    rw [hs']
    exact List.getElem?_append_left hid
  have hqueued : s.queued.map (fun id => (id, s'.outputOf h id)) =
      s.queued.map fun id => (id, s.outputOf h id) := by
    refine List.map_congr_left fun id hid => ?_
    rw [outputOf, hold id (hs.queued_lt hid), hs', outputOf]
    simp
  have hline : s'.line h = s.line h ++ [(s.accepted.length, s'.outputOf h s.accepted.length)] := by
    rw [line, line, ← hqueued, hs']
    simp
  rw [hline]
  refine List.pairwise_append.mpr ⟨?_, List.pairwise_singleton .., ?_⟩
  · refine List.Pairwise.imp_of_mem (fun {f g} hf hg hfg => ?_) hs.inLine
    rw [Precedes, source, source, hold _ (hs.line_lt hf), hold _ (hs.line_lt hg)]
    exact hfg
  · intro f hf g hg _ _
    rw [List.mem_singleton.mp hg]
    exact hs.line_lt hf

theorem line_outside (hs : s.Accounted) (hallow : s.Allows (.outside a)) :
    line h { s with arena := a } = s.line h := by
  have hqueued : s.queued.map (fun id => (id, outputOf h { s with arena := a } id)) =
      s.queued.map fun id => (id, s.outputOf h id) := by
    refine List.map_congr_left fun id hid => ?_
    have hmem : s.accepted[id]? ∈ s.module.queue.map some :=
      hs.queue ▸ List.mem_map_of_mem (f := (s.accepted[·]?)) hid
    obtain ⟨r, hr, hget⟩ := List.mem_map.mp hmem
    simp only [outputOf, ← hget, Option.map_some]
    rw [Switch.output_congr _ (hallow r hr)]
  rw [line, hqueued]
  rfl

theorem line_dropped {id : ℕ} {ids : List ℕ} {q : List (PacketPtr × ℕ)} {ds : List Dropped}
    (hports : h.downstreamPorts = []) (hqueued : s.queued = id :: ids)
    (hs' : s' = { s with module := s.module.withQueue q, arena := a, queued := ids, dropped := ds }) :
    (s'.line h).Sublist (s.line h) := by
  have hzero : ∀ (x : Arena) (m : Switch) (y : PacketPtr),
      m.output h.downstreamPorts.length x y = .ok 0 := by
    intro x m y
    rw [hports]
    exact Switch.output_zero
  rw [line_of_queued hqueued, hs']
  simp only [line, outputOf, hzero]
  exact List.Sublist.append_left (List.sublist_cons_self ..) _

theorem line_forwarded {id dst : ℕ} {ids : List ℕ} {q : List (PacketPtr × ℕ)}
    (hout : s.outputOf h id = some (.ok dst)) (hqueued : s.queued = id :: ids)
    (hs' : s' = { s with
      module := s.module.withQueue q
      queued := ids
      forwarded := s.forwarded ++ [(id, dst)] }) : s'.line h = s.line h := by
  rw [line_of_queued hqueued, hout, hs']
  simp [line, outputOf]

theorem Kept.inLine_step {b : PassageStep} (hs : s.Kept h) (hallow : s.Allows b)
    (hstep : s.step h b = .ok s') (hno : ¬ s.Misplaces h b) : (s'.line h).Pairwise s'.Precedes := by
  cases b with
  | request p srcId => exact inLine_request hs (Except.ok.inj (hstep.symm.trans step_request))
  | outside a =>
    obtain rfl := Except.ok.inj hstep
    rw [line_outside hs.toAccounted hallow]
    exact hs.inLine
  | tick now sendReq =>
    rcases tick_eq_ok hs.toAccounted hstep with
      ⟨-, rfl⟩ | ⟨pkt, src, rest, id, ids, hcons, hqueued, hid, hids, ⟨hports, a, -, rfl⟩ |
        ⟨hports, dst, hout, ⟨-, rfl⟩ | ⟨hrefuse, hs'⟩⟩⟩
    · exact hs.inLine
    · exact hs.inLine.sublist (line_dropped hports hqueued rfl)
    · have houtput : s.outputOf h id = some (.ok dst) := by simp [outputOf, hid, hout]
      rw [line_forwarded houtput hqueued rfl]
      exact hs.inLine
    · refine (inLine_refused_iff hs.inLine hqueued hs').mpr ((mem_rest_iff hid hids hout).mpr ?_)
      intro hflow
      exact hno ⟨pkt, src, rest, hcons, .inr ⟨hports, dst, hout, hrefuse, hflow⟩⟩

theorem Kept.released_step {b : PassageStep} (hs : s.Kept h) (hstep : s.step h b = .ok s')
    (hno : ¬ s.Misplaces h b) : ∀ d ∈ s'.dropped, h.downstreamPorts = [] ∧
      ∃ r, s'.accepted[d.id]? = some r ∧ d.before.release r.1 = .ok d.after := by
  cases b with
  | request p srcId =>
    obtain rfl := Except.ok.inj (step_request.symm.trans hstep)
    intro d hd
    obtain ⟨hports, r, hr, hrel⟩ := hs.released d hd
    refine ⟨hports, r, ?_, hrel⟩
    rw [← hr]
    exact List.getElem?_append_left (List.getElem?_eq_some_iff.mp hr).1
  | outside a =>
    obtain rfl := Except.ok.inj hstep
    exact hs.released
  | tick now sendReq =>
    rcases tick_eq_ok hs.toAccounted hstep with
      ⟨-, rfl⟩ | ⟨pkt, src, rest, id, ids, hcons, -, hid, -, ⟨hports, a, hdrop, rfl⟩ |
        ⟨-, dst, -, ⟨-, rfl⟩ | ⟨-, rfl⟩⟩⟩
    · exact hs.released
    · intro d hd
      rcases List.mem_append.mp hd with hold | hnew
      · exact hs.released d hold
      · obtain rfl := List.mem_singleton.mp hnew
        refine ⟨hports, (pkt, src), hid, ?_⟩
        cases hm : s.module with
        | crossbar x =>
          rw [hm] at hdrop
          exact hdrop
        | arbiter x => exact absurd ⟨pkt, src, rest, hcons, .inl ⟨hports, x, hm⟩⟩ hno
    · exact hs.released
    · exact hs.released

theorem Kept.step {b : PassageStep} (hs : s.Kept h) (hallow : s.Allows b) (hstep : s.step h b = .ok s')
    (hno : ¬ s.Misplaces h b) : s'.Kept h where
  toAccounted := hs.toAccounted.step hstep
  released := hs.released_step hstep hno
  inLine := hs.inLine_step hallow hstep hno

theorem not_kept_of_misplaces {b : PassageStep} (hs : s.Kept h) (hstep : s.step h b = .ok s')
    (hbad : s.Misplaces h b) : ¬ s'.Kept h := by
  intro hkept
  cases b with
  | request p srcId => exact hbad
  | outside a => exact hbad
  | tick now sendReq =>
    obtain ⟨pkt', src', rest', hcons', hbad⟩ := hbad
    rcases tick_eq_ok hs.toAccounted hstep with
      ⟨hnil, -⟩ | ⟨pkt, src, rest, id, ids, hcons, hqueued, hid, hids, hcases⟩
    · rw [hnil] at hcons'
      cases hcons'
    · obtain ⟨heq, rfl⟩ := List.cons.inj (hcons.symm.trans hcons')
      obtain ⟨rfl, rfl⟩ := Prod.mk.inj heq
      rcases hcases with ⟨hports, a, hdrop, rfl⟩ | ⟨hports, dst, hout, ⟨hok, -⟩ | ⟨-, hs'⟩⟩
      · rcases hbad with ⟨-, x, hm⟩ | ⟨hsome, -⟩
        · -- the arbiter left the arena as it was, a release would not
          rw [hm] at hdrop
          have hlast : (⟨id, s.arena, a⟩ : Dropped) ∈ s.dropped ++ [⟨id, s.arena, a⟩] :=
            List.mem_append_right _ (List.mem_singleton_self _)
          obtain ⟨-, r, -, hrel⟩ := hkept.released _ hlast
          rw [show a = s.arena from hdrop] at hrel
          obtain ⟨y, hy⟩ := Switch.not_drops_self (m := .crossbar {}) hrel
          cases hy
        · exact hsome hports
      · rcases hbad with ⟨hnone, -⟩ | ⟨-, dst', hout', hrefuse, -⟩
        · exact hports hnone
        · obtain rfl : dst = dst' := Except.ok.inj (hout.symm.trans hout')
          exact absurd (hok.symm.trans hrefuse) (by simp)
      · rcases hbad with ⟨hnone, -⟩ | ⟨-, dst', hout', -, hflow⟩
        · exact hports hnone
        · obtain rfl : dst = dst' := Except.ok.inj (hout.symm.trans hout')
          have hapart := (inLine_refused_iff hs.inLine hqueued hs').mp hkept.inLine
          exact (mem_rest_iff hid hids hout).mp hapart hflow

/-- In a run no request is lost or overtaken exactly when no tick of an `Arbiter` meets a request
without a port to send it to, and no port refuses a request that others from its source follow. -/
theorem kept_iff_never_misplaced (h : Host) {m : Switch} (hm : m.queue = []) (a : Arena)
    {steps : List PassageStep} (hallow : Each (step h) (start m a) Allows steps) :
    Always (step h) (start m a) (Kept h) steps ↔ Never (step h) (start m a) (Misplaces h) steps := by
  refine always_iff_never (Kept h) (fun _ => True) _ Allows _ hallow (kept_start hm a) trivial
    (fun _ hs => hs) (fun _ _ _ _ _ => trivial) ?_ ?_
  · intro s b s' hs hb hstep hno
    exact hs.step hb hstep hno
  · intro s b s' _ hs _ hstep hbad
    exact not_kept_of_misplaces hs hstep hbad

def twoRequests : Arena where
  heap := { Heap.empty with
    packet := fun p => { payload := some p }
    payload := fun _ => ⟨0x1000, 4⟩
    nextPacket := 2
    nextPayload := 2 }
  pool := {}
  live := {0, 1}

def switchHost (ports : ℕ) : Host :=
  ⟨0, [], (List.range ports).map fun i => .new i [1] [] "", fun _ _ => true, 0, 0⟩

def threeRequests : Arena where
  heap := { Heap.empty with
    packet := fun p => { payload := some p }
    payload := fun q => ⟨if q = 2 then 0x1001 else 0x1000, 4⟩
    nextPacket := 3
    nextPayload := 3 }
  pool := {}
  live := {0, 1, 2}

/-- Port 0 refuses the first request while one of another source waits for it, and one of the same
source for port 1. -/
def refuseHarmlessly : List PassageStep :=
  [.request 0 0, .request 1 1, .request 2 0, .tick 0 fun _ _ => false, .tick 0 fun _ _ => true,
    .tick 0 fun _ _ => true, .tick 0 fun _ _ => true]

theorem not_misplaces_of_taken (s : Passage) :
    ¬ Misplaces (switchHost 2) s (.tick 0 fun _ _ => true) := by
  rintro ⟨pkt, src, rest, -, ⟨hnone, -⟩ | ⟨-, dst, -, hrefused, -⟩⟩
  · exact absurd hnone (by decide)
  · cases hrefused

theorem refuseHarmlessly_misplaces_none :
    Each (step (switchHost 2)) (start (.crossbar {}) threeRequests)
      (fun s b => ¬ Misplaces (switchHost 2) s b) refuseHarmlessly := by
  have hstart : Each (step (switchHost 2)) (start (.crossbar {}) threeRequests)
      (fun s b => ¬ Misplaces (switchHost 2) s b) [] := each_nil _ _
  have hzero := each_concat (a := PassageStep.request 0 0) hstart fun _ _ => id
  have hone := each_concat (a := PassageStep.request 1 1) hzero fun _ _ => id
  have htwo := each_concat (a := PassageStep.request 2 0) hone fun _ _ => id
  have hrefused := each_concat (a := PassageStep.tick 0 fun _ _ => false) htwo fun s hs => by
    obtain rfl := Except.ok.inj hs
    rintro ⟨pkt, src, rest, hcons, ⟨hnone, -⟩ | ⟨-, dst, hout, -, r, hr, hsrc, hdst⟩⟩
    · exact absurd hnone (by decide)
    · obtain ⟨hhead, rfl⟩ := List.cons.inj hcons
      obtain ⟨rfl, rfl⟩ := Prod.mk.inj hhead
      rw [← hdst] at hout
      have hwaiting : r ∈ [(1, 1), (2, 0)] := hr
      simp only [List.mem_cons, List.not_mem_nil, or_false] at hwaiting
      rcases hwaiting with rfl | rfl
      · exact absurd hsrc (by decide)
      · exact absurd (Except.ok.inj hout) (by decide)
  have hfirst := each_concat (a := PassageStep.tick 0 fun _ _ => true) hrefused fun s _ =>
    not_misplaces_of_taken s
  have hsecond := each_concat (a := PassageStep.tick 0 fun _ _ => true) hfirst fun s _ =>
    not_misplaces_of_taken s
  exact each_concat (a := PassageStep.tick 0 fun _ _ => true) hsecond fun s _ =>
    not_misplaces_of_taken s

theorem kept_iff_never_misplaced_refuseHarmlessly :
    Always (step (switchHost 2)) (start (.crossbar {}) threeRequests) (Kept (switchHost 2))
        refuseHarmlessly ∧
      ∃ s, (start (.crossbar {}) threeRequests).run (switchHost 2) refuseHarmlessly = .ok s ∧
        s.forwarded = [(1, 0), (2, 1), (0, 0)] := by
  have hallow : Each (step (switchHost 2)) (start (.crossbar {}) threeRequests) Allows
      refuseHarmlessly := by
    intro pre b s hpre _
    have hmem : b ∈ refuseHarmlessly := hpre.subset (by simp)
    simp only [refuseHarmlessly, List.mem_cons, List.not_mem_nil, or_false] at hmem
    rcases hmem with rfl | rfl | rfl | rfl | rfl | rfl | rfl <;> exact trivial
  exact ⟨(kept_iff_never_misplaced (switchHost 2) rfl threeRequests hallow).mpr
    (never_of_each refuseHarmlessly_misplaces_none), _, rfl, rfl⟩

def acceptOne : List PassageStep := [.request 0 0, .tick 0 fun _ _ => true]

def refuseOnce : List PassageStep :=
  [.request 0 0, .request 1 0, .tick 0 fun _ _ => false, .tick 0 fun _ _ => true,
    .tick 0 fun _ _ => true]

/-- The port refuses the first of two requests, and the second overtakes it. Without a port an
arbiter loses its request. -/
theorem overtaken_and_lost :
    (∃ s, (start (.crossbar {}) twoRequests).run (switchHost 1) refuseOnce = .ok s ∧
      s.forwarded = [(1, 0), (0, 0)] ∧ ¬ s.Kept (switchHost 1)) ∧
    ∃ s, (start (.arbiter {}) twoRequests).run (switchHost 0) acceptOne = .ok s ∧
      s.module.queue = [] ∧ s.forwarded = [] ∧ ¬ s.Kept (switchHost 0) := by
  constructor
  · have hrun : ∃ s, (start (.crossbar {}) twoRequests).run (switchHost 1) refuseOnce = .ok s ∧
        s.forwarded = [(1, 0), (0, 0)] ∧ s.source 1 = s.source 0 := exists_ok_of_map rfl
    obtain ⟨s, hs, hforwarded, hsource⟩ := hrun
    refine ⟨s, hs, hforwarded, fun hk => ?_⟩
    have hline := (List.pairwise_append.mp hk.inLine).1
    rw [hforwarded, List.map_cons, List.map_cons] at hline
    have hfirst := (List.pairwise_cons.mp hline).1 _ (List.mem_cons_self ..)
    exact absurd (hfirst hsource rfl) (by decide)
  · refine ⟨_, rfl, rfl, rfl, fun hk => ?_⟩
    obtain ⟨-, r, -, hrel⟩ := hk.released ⟨0, twoRequests, twoRequests⟩ (List.mem_singleton_self _)
    obtain ⟨x, hx⟩ := Switch.not_drops_self (m := .crossbar {}) hrel
    cases hx

end Passage
end GemSc
