import GemSc.Link.SendReq
import GemSc.Link.Tick
import GemSc.Modules.Refusal
import GemSc.Pool.References

/-! Runs of the upstream ports of one owner. A packet stays at the head of its VC until the
owner takes it. -/

namespace GemSc
open Function ExceptFold

/-- An owner, its upstream ports and the memory around them. Ports that it does not have are
without VCs. -/
structure Station (σ : Type) where
  arena : Arena
  owner : Owner σ
  ports : ℕ → UpstreamPort

inductive StationStep (σ : Type)
  | arrive (port : ℕ) (p : PacketPtr) (now : UInt64)
  | offer (port vc : ℕ) (host : Host)
  | work (owner : Owner σ)
  | pool (c : PoolCall)

/-- `vc.pop()` -/
def UpstreamPort.popVc (k : ℕ) (vc : InputVC) (u : UpstreamPort) : UpstreamPort :=
  { u with inputVcs := u.inputVcs.set k vc.pop }

namespace Station
variable {σ : Type} (parts : NocParts σ)

def buffer (s : Station σ) (place : ℕ × ℕ) : List PacketPtr := (s.ports place.1).buffer place.2

def arrive (i : ℕ) (p : PacketPtr) (now : UInt64) (s : Station σ) : Station σ :=
  let r := (s.ports i).recv now p s.arena.heap.toMemory
  { s with
    ports := update s.ports i r.2.1
    arena := { s.arena with heap := { s.arena.heap with toMemory := r.2.2 } } }

def offerHead (i k : ℕ) (host : Host) (vc : InputVC) (p : PacketPtr) (s : Station σ) :
    Except MemoryFault (Station σ) := do
  let r ← s.owner.handleUpstreamRequest parts host p i s.arena
  let ports := if r.1 then update s.ports i ((s.ports i).popVc k vc) else s.ports
  return ⟨r.2.arena, r.2.state, ports⟩

def step (s : Station σ) : StationStep σ → Except MemoryFault (Station σ)
  | .arrive i p now => .ok (s.arrive i p now)
  | .offer i k host =>
    match (s.ports i).inputVcs[k]? with
    | none => .ok s
    | some vc =>
      match vc.buffer with
      | [] => .ok s
      | p :: _ => s.offerHead parts i k host vc p
  | .work owner => .ok { s with owner := owner }
  | .pool c => do
    let a ← s.arena.step c
    return { s with arena := a }

def run (s : Station σ) (steps : List (StationStep σ)) : Except MemoryFault (Station σ) :=
  steps.foldlM (step parts) s

/-- What producers and other code keep to: a packet arrives once, and what a VC holds is
released by nobody but the owner that it is offered to. -/
def Allows (s : Station σ) : StationStep σ → Prop
  | .arrive _ p _ => s.arena.Usable p ∧ ∀ place, p ∉ s.buffer place
  | .offer _ _ _ => True
  | .work _ => True
  | .pool c => ∀ p, c = .release p → ∀ place, p ∉ s.buffer place

def HeadsUsable (s : Station σ) : Prop :=
  ∀ place, ∀ p ∈ (s.buffer place).head?, p ∉ s.arena.pool.packetFreelist ∧
    p ∉ s.arena.heap.deletedPackets

/-- A head is offered that the owner does not accept. -/
def Refuses (s : Station σ) : StationStep σ → Prop
  | .offer i k _ => ∃ p ∈ (s.buffer (i, k)).head?, ¬ s.owner.Accepts parts p s.arena
  | .arrive _ _ _ => False
  | .work _ => False
  | .pool _ => False

/-- The VCs hold usable packets, each of them once. -/
structure Sound (s : Station σ) : Prop where
  usable : ∀ place, ∀ p ∈ s.buffer place, s.arena.Usable p
  nodup : ∀ place, (s.buffer place).Nodup
  unique : ∀ place place', ∀ p ∈ s.buffer place, p ∈ s.buffer place' → place = place'

variable {parts} {s s' : Station σ} {i k : ℕ} {p : PacketPtr}

theorem buffer_update (u : UpstreamPort) {xs : List PacketPtr} {s' : Station σ}
    (hports : s'.ports = update s.ports i u) (hu : u.buffer = update (s.ports i).buffer k xs) :
    s'.buffer = update s.buffer (i, k) xs := by
  funext place
  obtain ⟨j, l⟩ := place
  rw [buffer, hports]
  by_cases hj : j = i
  · subst hj
    rw [update_self, hu]
    by_cases hl : l = k
    · subst hl
      simp
    · rw [update_of_ne hl, update_of_ne (by simp [hl])]
      rfl
  · rw [update_of_ne hj, update_of_ne (by simp [hj])]
    rfl

theorem buffer_arrive (now : UInt64) :
    (s.arrive i p now).buffer = s.buffer ∨
      ∃ k, (s.arrive i p now).buffer = update s.buffer (i, k) (s.buffer (i, k) ++ [p]) := by
  rcases ((s.ports i).recv_cases now p s.arena.heap.toMemory).2 with ⟨-, hsame⟩ | ⟨-, k, vc, -, -, -, happ⟩
  · left
    rw [← update_eq_self (i, 0) s.buffer]
    refine buffer_update _ rfl ?_
    exact hsame.trans (update_eq_self 0 _).symm
  · exact .inr ⟨k, buffer_update _ rfl happ⟩

theorem Sound.update {place : ℕ × ℕ} {xs : List PacketPtr} (h : s.Sound)
    (hbuf : s'.buffer = update s.buffer place xs) (hxs : xs.Nodup)
    (hnew : ∀ x ∈ xs, x ∈ s.buffer place ∨ ∀ l, x ∉ s.buffer l)
    (husable : ∀ l, ∀ x ∈ s'.buffer l, s'.arena.Usable x) : s'.Sound := by
  have hself : s'.buffer place = xs := by rw [hbuf, update_self]
  have hother : ∀ l, l ≠ place → s'.buffer l = s.buffer l := by
    intro l hl
    rw [hbuf, update_of_ne hl]
  have hapart : ∀ l, l ≠ place → ∀ x ∈ xs, x ∉ s'.buffer l := by
    intro l hl x hx hx'
    rw [hother l hl] at hx'
    rcases hnew x hx with hold | hnone
    · exact hl (h.unique l place x hx' hold)
    · exact hnone l hx'
  refine ⟨husable, ?_, ?_⟩
  · intro l
    by_cases hl : l = place
    · rw [hl, hself]
      exact hxs
    · rw [hother l hl]
      exact h.nodup l
  · intro l l' x hx hx'
    by_cases hl : l = place <;> by_cases hl' : l' = place
    · exact hl.trans hl'.symm
    · rw [hl, hself] at hx
      exact absurd hx' (hapart l' hl' x hx)
    · rw [hl', hself] at hx'
      exact absurd hx (hapart l hl x hx')
    · rw [hother l hl] at hx
      rw [hother l' hl'] at hx'
      exact h.unique l l' x hx hx'

theorem Sound.arena (h : s.Sound) {a : Arena} {o : Owner σ}
    (husable : ∀ place, ∀ p ∈ s.buffer place, a.Usable p) : Sound ⟨a, o, s.ports⟩ :=
  ⟨husable, h.nodup, h.unique⟩

theorem Sound.arrive (h : s.Sound) (now : UInt64) (hp : s.arena.Usable p)
    (hnew : ∀ place, p ∉ s.buffer place) : (s.arrive i p now).Sound := by
  rcases buffer_arrive (s := s) (i := i) (p := p) now with hsame | ⟨k, happ⟩
  · refine ⟨?_, ?_, ?_⟩ <;> rw [hsame]
    · exact h.usable
    · exact h.nodup
    · exact h.unique
  · have hmem : ∀ x ∈ s.buffer (i, k) ++ [p], x ∈ s.buffer (i, k) ∨ x = p := by simp
    refine h.update happ ?_ ?_ ?_
    · rw [← List.concat_eq_append]
      exact (List.nodup_concat ..).mpr ⟨hnew (i, k), h.nodup (i, k)⟩
    · intro x hx
      rcases hmem x hx with hx | rfl
      · exact .inl hx
      · exact .inr hnew
    · intro l x hx
      show s.arena.Usable x
      rw [happ] at hx
      by_cases hl : l = (i, k)
      · rw [hl, update_self] at hx
        rcases hmem x hx with hx | rfl
        · exact h.usable _ x hx
        · exact hp
      · rw [update_of_ne hl] at hx
        exact h.usable l x hx

theorem offer_eq_ok {host : Host} (h : s.step parts (.offer i k host) = .ok s') :
    (s.buffer (i, k) = [] ∧ s' = s) ∨
      ∃ p rest res, s.buffer (i, k) = p :: rest ∧
        s.owner.handleUpstreamRequest parts host p i s.arena = .ok res ∧ s'.arena = res.2.arena ∧
        s'.buffer = if res.1 then Function.update s.buffer (i, k) rest else s.buffer := by
  rw [step] at h
  split at h
  · next hvc =>
    refine .inl ⟨?_, (Except.ok.inj h).symm⟩
    simp [buffer, UpstreamPort.buffer, hvc]
  · next vc hvc =>
    have hbuf : s.buffer (i, k) = vc.buffer := UpstreamPort.buffer_of_getElem? hvc
    rw [hbuf]
    split at h
    · next hnil => exact .inl ⟨hnil, (Except.ok.inj h).symm⟩
    · next p rest hcons =>
      obtain ⟨res, hres, rfl⟩ := bind_pure_eq_ok.mp h
      refine .inr ⟨p, rest, res, hcons, hres, rfl, ?_⟩
      split_ifs with hok
      · refine buffer_update ((s.ports i).popVc k vc) rfl ?_
        refine (UpstreamPort.buffer_set hvc vc.pop).trans ?_
        simp [InputVC.pop, hcons]
      · rfl

theorem Sound.step {a : StationStep σ} (h : s.Sound) (hallow : s.Allows a)
    (hstep : s.step parts a = .ok s') (hrefuse : ¬ s.Refuses parts a) : s'.Sound := by
  cases a with
  | arrive i p now =>
    obtain rfl := Except.ok.inj hstep
    exact h.arrive now hallow.1 hallow.2
  | work o =>
    obtain rfl := Except.ok.inj hstep
    exact h.arena h.usable
  | pool c =>
    obtain ⟨a, ha, rfl⟩ := bind_pure_eq_ok.mp hstep
    refine h.arena fun place p hp => ?_
    cases c with
    | acquire =>
      obtain ⟨r, hr, rfl⟩ := bind_pure_eq_ok.mp ha
      exact (Arena.acquired hr).usable (h.usable place p hp)
    | write q payload src stream seq =>
      obtain rfl := Except.ok.inj ha
      exact h.usable place p hp
    | refer q r =>
      obtain rfl := Except.ok.inj ha
      exact h.usable place p hp
    | release q =>
      refine (Arena.release_eq_ok ha).usable ?_ (h.usable place p hp)
      rintro rfl
      exact hallow p rfl place hp
  | offer i k host =>
    rcases offer_eq_ok hstep with ⟨-, rfl⟩ | ⟨p, rest, res, hcons, hres, harena, hbuf⟩
    · exact h
    · have hnd := h.nodup (i, k)
      rw [hcons, List.nodup_cons] at hnd
      rcases Owner.handleUpstreamRequest_eq_ok hres with ⟨hok, -, hkeep⟩ | ⟨-, hno, -⟩
      · rw [if_pos hok] at hbuf
        refine h.update hbuf hnd.2 (fun x hx => .inl (by simp [hcons, hx])) ?_
        intro l x hx
        rw [hbuf] at hx
        rw [harena]
        have hold : x ∈ s.buffer l ∧ x ≠ p := by
          by_cases hl : l = (i, k)
          · rw [hl, update_self] at hx
            refine ⟨by rw [hl, hcons]; exact List.mem_cons_of_mem _ hx, ?_⟩
            rintro rfl
            exact hnd.1 hx
          · rw [update_of_ne hl] at hx
            refine ⟨hx, ?_⟩
            rintro rfl
            exact hl (h.unique l (i, k) x hx (by simp [hcons]))
        exact hkeep x hold.2 (h.usable l x hold.1)
      · exact absurd ⟨p, by simp [hcons], hno⟩ hrefuse

def Popped (s : Station σ) (i : ℕ) (taken : ℕ → Bool) (s' : Station σ) : Prop :=
  ∃ vcs, s'.ports = update s.ports i { s.ports i with inputVcs := vcs } ∧
    ∀ l, vcs[l]? = (s.ports i).inputVcs[l]?.map fun vc => if taken l then vc.pop else vc

theorem popped_refl (s : Station σ) (i : ℕ) : s.Popped i (fun _ => false) s :=
  ⟨(s.ports i).inputVcs, (update_eq_self ..).symm, by simp⟩

theorem Popped.trans {t : Station σ} {taken : ℕ → Bool} {b : Bool} (h : s.Popped i taken t)
    (hk : taken k = false) (h' : t.Popped i (fun l => decide (l = k) && b) s') :
    s.Popped i (update taken k b) s' := by
  obtain ⟨vcs, hports, hvcs⟩ := h
  obtain ⟨vcs', hports', hvcs'⟩ := h'
  rw [hports, update_self, update_idem] at hports'
  rw [hports, update_self] at hvcs'
  refine ⟨vcs', hports', fun l => ?_⟩
  rw [hvcs' l, hvcs l, Option.map_map]
  refine Option.map_congr fun vc _ => ?_
  by_cases hl : l = k
  · subst hl
    simp [hk]
  · simp [hl]

theorem offer_popped {host : Host} (h : s.step parts (.offer i k host) = .ok s') :
    ∃ b : Bool, s.Popped i (fun l => decide (l = k) && b) s' := by
  have hsame : s.Popped i (fun l => decide (l = k) && false) s := by
    simpa using s.popped_refl i
  rw [step] at h
  split at h
  · obtain rfl := Except.ok.inj h
    exact ⟨false, hsame⟩
  · next vc hvc =>
    split at h
    · obtain rfl := Except.ok.inj h
      exact ⟨false, hsame⟩
    · obtain ⟨res, -, rfl⟩ := bind_pure_eq_ok.mp h
      cases hok : res.1 with
      | false => exact ⟨false, hsame⟩
      | true =>
        refine ⟨true, (s.ports i).inputVcs.set k vc.pop, rfl, fun l => ?_⟩
        have hk : k < (s.ports i).inputVcs.length := (List.getElem?_eq_some_iff.mp hvc).1
        by_cases hl : l = k
        · subst hl
          simp [List.getElem?_set_self hk, hvc]
        · simp [hl, List.getElem?_set_ne (Ne.symm hl)]

theorem run_offers {host : Host} {n : ℕ}
    (h : s.run parts ((List.range n).map fun k => .offer i k host) = .ok s') :
    ∃ taken, s.Popped i taken s' ∧ ∀ k, n ≤ k → taken k = false := by
  induction n generalizing s' with
  | zero =>
    obtain rfl := Except.ok.inj h
    exact ⟨_, s.popped_refl i, fun _ _ => rfl⟩
  | succ n ih =>
    rw [List.range_succ, List.map_append] at h
    obtain ⟨t, ht, hlast⟩ := foldlM_append_ok.mp h
    obtain ⟨u, hu, hend⟩ := foldlM_cons_ok.mp hlast
    obtain rfl : u = s' := Except.ok.inj hend
    obtain ⟨taken, hpopped, hlater⟩ := ih ht
    obtain ⟨b, hoffer⟩ := offer_popped hu
    refine ⟨_, hpopped.trans (hlater n le_rfl) hoffer, fun k hk => ?_⟩
    rw [update_of_ne (Nat.ne_of_gt hk)]
    exact hlater k (Nat.le_of_succ_le hk)

theorem offers_eq_tick {host : Host}
    (h : s.run parts ((List.range (s.ports i).inputVcs.length).map fun k => .offer i k host) = .ok s') :
    ∃ answer, s'.ports = update s.ports i ((s.ports i).tick answer).1 := by
  obtain ⟨taken, ⟨vcs, hports, hvcs⟩, -⟩ := run_offers h
  refine ⟨fun k _ => taken k, hports.trans ?_⟩
  have hticked : vcs = (UpstreamPort.tickVcs (fun k _ => taken k) 0 (s.ports i).inputVcs).1 := by
    apply List.ext_getElem?
    intro l
    rw [hvcs l, UpstreamPort.getElem?_tickVcs, Nat.zero_add]
    refine Option.map_congr fun vc _ => ?_
    cases hbuf : vc.buffer <;> simp [InputVC.pop, hbuf]
  rw [hticked]
  rfl

/-- A refused packet is at the head of its VC and is free or deleted. -/
theorem not_headsUsable_of_refuses {a : StationStep σ} (hstep : s.step parts a = .ok s')
    (hrefuse : s.Refuses parts a) : ¬ s'.HeadsUsable := by
  cases a with
  | arrive i p now => exact hrefuse.elim
  | work o => exact hrefuse.elim
  | pool c => exact hrefuse.elim
  | offer i k host =>
    obtain ⟨p, hp, hno⟩ := hrefuse
    rcases offer_eq_ok hstep with ⟨hnil, -⟩ | ⟨p', rest, res, hcons, hres, harena, hbuf⟩
    · simp [hnil] at hp
    · obtain rfl : p' = p := by simpa [hcons] using hp
      rcases Owner.handleUpstreamRequest_eq_ok hres with ⟨-, hacc, -⟩ | ⟨hok, -, hgone⟩
      · exact absurd hacc hno
      · intro hheads
        simp only [hok, Bool.false_eq_true, if_false] at hbuf
        obtain ⟨hfree, hdel⟩ := hheads (i, k) p' (by simp [hbuf, hcons])
        rw [harena] at hfree hdel
        exact hgone.not_usable.elim hfree hdel

/-- A handler that refuses a packet leaves it alone exactly when it does not refuse it, and in
a run no free or deleted packet is at the head of a VC exactly when no offer is refused. -/
theorem refused_stays_valid_iff (parts : NocParts σ) :
    (∀ (o : Owner σ) host p srcId a res,
      o.handleUpstreamRequest parts host p srcId a = .ok res →
        ((res.1 = false → a.Untouched p res.2.arena ∧ res.2.state.flits = o.flits) ↔
          o.Accepts parts p a)) ∧
    ∀ (start : Station σ) (steps : List (StationStep σ)), (∀ place, start.buffer place = []) →
      Each (step parts) start Allows steps →
        (Always (step parts) start HeadsUsable steps ↔
          Never (step parts) start (Refuses parts) steps) := by
  constructor
  · intro o host p srcId a res hres
    rcases Owner.handleUpstreamRequest_eq_ok hres with ⟨hok, hacc, -⟩ | ⟨hok, hno, hgone⟩
    · exact ⟨fun _ => hacc, fun _ hfalse => absurd (hok.symm.trans hfalse) (by simp)⟩
    · exact ⟨fun h => absurd (h hok).1 hgone.not_untouched, fun hacc => absurd hacc hno⟩
  · intro start steps hempty hallow
    have hstart : start.Sound := by
      refine ⟨?_, ?_, ?_⟩ <;> simp [hempty]
    refine always_iff_never (fun s : Station σ => s.Sound) (fun _ => True) _ Allows _ hallow hstart
      trivial ?_ (fun _ _ _ _ _ => trivial) ?_ ?_
    · intro s hs place p hp
      exact (hs.usable place p (List.mem_of_mem_head? hp)).2
    · intro s a s' hs ha hstep hno
      exact hs.step ha hstep hno
    · intro s a s' _ _ _ hstep hrefuse
      exact not_headsUsable_of_refuses hstep hrefuse

def oneRequest (buffered : List PacketPtr) : Station Unit where
  arena := { Arena.empty with heap := { Heap.empty with
    packet := fun _ => { payload := some 0 }
    nextPacket := 1
    nextPayload := 1 } }
  owner := .cache ⟨buffered⟩
  ports := fun i => UpstreamPort.new i (if i = 0 then [4] else []) [] "in"

def noParts : NocParts Unit := ⟨0, fun _ _ => 0, fun _ _ _ => (0, ()), fun _ _ => none, fun _ _ => true⟩

def quietHost : Host := ⟨0, [], [], fun _ _ => true, 0, 0⟩

def offerOnce : List (StationStep Unit) := [.arrive 0 0 0, .offer 0 0 quietHost]

theorem buffer_oneRequest (buffered : List PacketPtr) (place : ℕ × ℕ) :
    (oneRequest buffered).buffer place = [] := by
  obtain ⟨i, k⟩ := place
  rcases i with - | i <;> rcases k with - | k <;> rfl

theorem allows_offerOnce (buffered : List PacketPtr) :
    Each (step noParts) (oneRequest buffered) Allows offerOnce := by
  intro pre a s hpre hrun
  rcases concat_prefix_pair hpre with ⟨rfl, rfl⟩ | ⟨-, rfl⟩
  · obtain rfl := Except.ok.inj hrun
    refine ⟨⟨Nat.zero_lt_one, List.not_mem_nil, Finset.notMem_empty 0⟩, fun place => ?_⟩
    rw [buffer_oneRequest]
    exact List.not_mem_nil
  · trivial

theorem refused_stays_valid_iff_demo :
    Always (step noParts) (oneRequest []) HeadsUsable offerOnce := by
  have hiff := (refused_stays_valid_iff noParts).2 (oneRequest []) offerOnce (buffer_oneRequest [])
    (allows_offerOnce [])
  refine hiff.mpr ?_
  intro pre a s s' hpre hrun hstep hrefuse
  rcases concat_prefix_pair hpre with ⟨-, rfl⟩ | ⟨rfl, rfl⟩
  · exact hrefuse
  · obtain rfl := Except.ok.inj hrun
    obtain ⟨p, -, hno⟩ := hrefuse
    exact hno (by decide : (0 : ℕ) < 4)

/-- A cache with four waiting requests frees the one that it refuses. -/
theorem refused_request_freed :
    ¬ Always (step noParts) (oneRequest [1, 2, 3, 4]) HeadsUsable offerOnce := by
  intro h
  have hfreed : ∃ s, (oneRequest [1, 2, 3, 4]).run noParts offerOnce = .ok s ∧
      (s.buffer (0, 0)).head? = some 0 ∧ 0 ∈ s.arena.pool.packetFreelist := exists_ok_of_map rfl
  obtain ⟨s, hrun, hhead, hfree⟩ := hfreed
  exact (h offerOnce s (List.prefix_refl _) hrun (0, 0) 0 hhead).1 hfree

end Station
end GemSc
