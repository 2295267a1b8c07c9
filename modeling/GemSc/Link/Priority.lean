import GemSc.Link.PeerPort

/-! The order in which a tick serves the VCs. The loops go by index and do not look at the
priorities, so the order is that of the priorities only where the two agree. -/

namespace GemSc
open Function

theorem pairwise_iff_of_increasing {l : List ℕ} (hl : l.Pairwise (· < ·)) (r : ℕ → ℕ → Prop) :
    l.Pairwise r ↔ ∀ i ∈ l, ∀ j ∈ l, i < j → r i j := by
  constructor
  · intro h
    induction l with
    | nil =>
      intro i hi
      cases hi
    | cons a l ih =>
      obtain ⟨hlt, hl⟩ := List.pairwise_cons.mp hl
      obtain ⟨hr, hrest⟩ := List.pairwise_cons.mp h
      intro i hi j hj hij
      rcases List.mem_cons.mp hi with rfl | hil <;> rcases List.mem_cons.mp hj with rfl | hjl
      · exact absurd hij (lt_irrefl _)
      · exact hr j hjl
      · exact absurd hij (not_lt.mpr (hlt i hil).le)
      · exact ih hl hrest i hil j hjl hij
  · intro h
    exact hl.imp_of_mem fun hi hj hlt => h _ hi _ hj hlt

namespace UpstreamPort

def priority (u : UpstreamPort) (k : ℕ) : ℕ := (u.inputVcs[k]?.map (·.priority)).getD 0

/-- The offers of a tick come in the order of the priorities. -/
def ServesByPriority (answer : ℕ → PacketPtr → Bool) (u : UpstreamPort) : Prop :=
  (u.tick answer).2.Pairwise fun a b => u.priority a.vc ≤ u.priority b.vc

/-- Among the VCs that are not empty, the index does not contradict the priority. -/
def IndexedByPriority (u : UpstreamPort) : Prop :=
  ∀ i j, u.buffer i ≠ [] → u.buffer j ≠ [] → i < j → u.priority i ≤ u.priority j

theorem le_of_mem_tickVcs {answer : ℕ → PacketPtr → Bool} {i : ℕ} {vcs : List InputVC} {f : Offer}
    (hf : f ∈ (tickVcs answer i vcs).2) : i ≤ f.vc := by
  induction vcs generalizing i with
  | nil => cases hf
  | cons vc vcs ih =>
    have hlater : f ∈ (tickVcs answer (i + 1) vcs).2 → i ≤ f.vc :=
      fun hf => Nat.le_of_succ_le (ih hf)
    cases hbuf : vc.buffer with
    | nil =>
      simp only [tickVcs, hbuf] at hf
      exact hlater hf
    | cons p rest =>
      simp only [tickVcs, hbuf, List.mem_cons] at hf
      rcases hf with rfl | hf
      · exact le_rfl
      · exact hlater hf

theorem increasing_tickVcs (answer : ℕ → PacketPtr → Bool) (i : ℕ) (vcs : List InputVC) :
    ((tickVcs answer i vcs).2.map (·.vc)).Pairwise (· < ·) := by
  induction vcs generalizing i with
  | nil => exact List.Pairwise.nil
  | cons vc vcs ih =>
    cases hbuf : vc.buffer with
    | nil =>
      simp only [tickVcs, hbuf]
      exact ih (i + 1)
    | cons p rest =>
      simp only [tickVcs, hbuf, List.map_cons]
      refine List.pairwise_cons.mpr ⟨fun k hk => ?_, ih (i + 1)⟩
      obtain ⟨f, hf, rfl⟩ := List.mem_map.mp hk
      exact le_of_mem_tickVcs hf

theorem mem_served {answer : ℕ → PacketPtr → Bool} {u : UpstreamPort} {k : ℕ} :
    k ∈ (u.tick answer).2.map (·.vc) ↔ u.buffer k ≠ [] := by
  have hoffers := filter_offers_tickVcs answer 0 u.inputVcs k
  rw [Nat.zero_add] at hoffers
  have hmem : k ∈ (u.tick answer).2.map (·.vc) ↔
      (tickVcs answer 0 u.inputVcs).2.filter (fun f => f.vc = k) ≠ [] := by
    rw [List.mem_map, ne_eq, List.filter_eq_nil_iff]
    simp [tick]
  rw [hmem, hoffers, buffer]
  cases hvc : u.inputVcs[k]? with
  | none => simp
  | some vc => cases hbuf : vc.buffer <;> simp [hbuf]

theorem servesByPriority_iff (answer : ℕ → PacketPtr → Bool) (u : UpstreamPort) :
    u.ServesByPriority answer ↔ u.IndexedByPriority := by
  have hinc : ((u.tick answer).2.map (·.vc)).Pairwise (· < ·) := increasing_tickVcs answer 0 _
  have hserves : u.ServesByPriority answer ↔
      ((u.tick answer).2.map (·.vc)).Pairwise fun i j => u.priority i ≤ u.priority j := by
    rw [List.pairwise_map, ServesByPriority]
  rw [hserves, pairwise_iff_of_increasing hinc, IndexedByPriority]
  simp only [mem_served]
  exact ⟨fun h i j hi hj => h i hi j hj, fun h i hi j hj => h i j hi hj⟩

end UpstreamPort

namespace DownstreamPort
variable {d : DownstreamPort} {m : Memory} {p : PacketPtr} {i k : ℕ}

def priority (d : DownstreamPort) (k : ℕ) : ℕ := (d.outputVcs[k]?.map (·.priority)).getD 0

/-- The VCs with packets in them at the start of a tick are attempted in the order of the
priorities. -/
def ServesByPriority (peer : ℕ → Bool) (m : Memory) (d : DownstreamPort) : Prop :=
  ((d.tick peer m).2.filter fun a => d.buffer a.vc ≠ []).Pairwise fun a b =>
    d.priority a.vc ≤ d.priority b.vc

def IndexedByPriority (d : DownstreamPort) : Prop :=
  ∀ i j, d.buffer i ≠ [] → d.buffer j ≠ [] → i < j → d.priority i ≤ d.priority j

theorem sublist_tickFrom (peer : ℕ → Bool) (m : Memory) (is : List ℕ) (d : DownstreamPort) :
    ((tickFrom peer m is d).2.map (·.vc)).Sublist is := by
  induction is generalizing d with
  | nil => exact List.Sublist.refl _
  | cons i is ih =>
    rw [tickFrom]
    cases hhead : (d.buffer i).head? with
    | none => simpa using (ih _).cons i
    | some p => simpa using (ih _).cons_cons i

theorem buffer_sendReq_ne_nil (peer : Bool) (p : PacketPtr) (hk : d.buffer k ≠ []) :
    (d.sendReq peer m p).port.buffer k ≠ [] := by
  obtain ⟨-, ⟨-, -, -, hport⟩ | ⟨i, vi, -, -, hget, ⟨-, -, -, -, hvcs⟩ | ⟨-, -, -, hvcs⟩⟩⟩ :=
    d.sendReq_cases peer m p
  · rwa [hport]
  · rwa [buffer, hvcs]
  · rw [buffer_of_set hget hvcs]
    by_cases hki : k = i
    · subst hki
      rw [buffer_of_getElem? hget] at hk
      rw [update_self, vi.buffer_offer]
      split_ifs
      · simp
      · exact hk
    · rwa [update_of_ne hki]

theorem buffer_trySend_ne_nil (peer : Bool) (hki : k ≠ i) (hk : d.buffer k ≠ []) :
    (d.trySend peer m i).port.buffer k ≠ [] := by
  unfold trySend
  split
  · exact hk
  · split
    · exact hk
    · next p rest _ =>
      have hsent := buffer_sendReq_ne_nil (m := m) peer p hk
      dsimp only
      split_ifs
      · rw [buffer, List.getElem?_modify_ne _ _ (Ne.symm hki)]
        exact hsent
      · exact hsent

theorem attempted (peer : ℕ → Bool) {is : List ℕ} (hnd : is.Nodup) (hmem : k ∈ is)
    (hk : d.buffer k ≠ []) : k ∈ (tickFrom peer m is d).2.map (·.vc) := by
  induction is generalizing d with
  | nil => cases hmem
  | cons i is ih =>
    obtain ⟨hi, hnd⟩ := List.nodup_cons.mp hnd
    rw [tickFrom, List.map_append, List.mem_append]
    by_cases hki : k = i
    · subst hki
      obtain ⟨p, rest, hbuf⟩ := List.exists_cons_of_ne_nil hk
      left
      simp [hbuf]
    · right
      have hlater : k ∈ is := (List.mem_cons.mp hmem).resolve_left hki
      exact ih hnd hlater (buffer_trySend_ne_nil (peer i) hki hk)

theorem servesByPriority_iff (peer : ℕ → Bool) (m : Memory) (d : DownstreamPort) :
    d.ServesByPriority peer m ↔ d.IndexedByPriority := by
  -- the indices attempted, less those of VCs that another VC's retry filled during the tick
  let served := ((d.tick peer m).2.filter fun a => d.buffer a.vc ≠ []).map (·.vc)
  have hsub : served.Sublist (List.range d.outputVcs.length) :=
    (List.filter_sublist.map _).trans (sublist_tickFrom peer m _ d)
  have hinc : served.Pairwise (· < ·) := List.pairwise_lt_range.sublist hsub
  have hmem : ∀ k, k ∈ served ↔ d.buffer k ≠ [] := by
    intro k
    constructor
    · intro hk
      obtain ⟨a, ha, rfl⟩ := List.mem_map.mp hk
      simpa using (List.mem_filter.mp ha).2
    · intro hk
      have hrange : k ∈ List.range d.outputVcs.length := by
        rw [List.mem_range]
        by_contra hout
        exact hk (by simp [buffer, List.getElem?_eq_none_iff.mpr (not_lt.mp hout)])
      obtain ⟨a, ha, rfl⟩ := List.mem_map.mp (attempted (m := m) peer List.nodup_range hrange hk)
      exact List.mem_map_of_mem (List.mem_filter.mpr ⟨ha, by simpa using hk⟩)
  have hserves : d.ServesByPriority peer m ↔
      served.Pairwise fun i j => d.priority i ≤ d.priority j := by
    rw [List.pairwise_map, ServesByPriority]
  rw [hserves, pairwise_iff_of_increasing hinc, IndexedByPriority]
  simp only [hmem]
  exact ⟨fun h i j hi hj => h i hi j hj, fun h i hi j hj => h i j hi hj⟩

end DownstreamPort

/-- A tick serves the VCs by priority exactly when the indices of those that are not empty are in
the order of their priorities: at the receiving port, whatever its owner answers, and at the
sending one, whatever its peer does. -/
theorem tick_by_priority_iff (answer : ℕ → PacketPtr → Bool) (u : UpstreamPort)
    (peer : ℕ → Bool) (m : Memory) (d : DownstreamPort) :
    (u.ServesByPriority answer ↔ u.IndexedByPriority) ∧
      (d.ServesByPriority peer m ↔ d.IndexedByPriority) :=
  ⟨UpstreamPort.servesByPriority_iff answer u, DownstreamPort.servesByPriority_iff peer m d⟩

def urgentSecond : UpstreamPort :=
  let m : Memory := ⟨fun p => { vcId := p }, fun _ => ⟨0, 0⟩⟩
  let first := (UpstreamPort.new 0 [1, 1] [1, 0] "").recv 0 0 m
  (first.2.1.recv 0 1 m).2.1

def urgentSecondOut : DownstreamPort :=
  let m : Memory := ⟨fun p => { vcId := p }, fun _ => ⟨0, 0⟩⟩
  let first := (DownstreamPort.new 0 [1, 1] [1, 0] "").sendReq false m 0
  (first.port.sendReq false m 1).port

/-- Both ticks take the less urgent packet first. -/
theorem tick_ignores_priority :
    ¬ urgentSecond.ServesByPriority (fun _ _ => true) ∧
      ¬ urgentSecondOut.ServesByPriority (fun _ => true) ⟨fun p => { vcId := p }, fun _ => ⟨0, 0⟩⟩ := by
  constructor
  · show ¬ List.Pairwise _ (urgentSecond.tick fun _ _ => true).2
    decide
  · show ¬ List.Pairwise _ (List.filter _ (urgentSecondOut.tick (fun _ => true)
      ⟨fun p => { vcId := p }, fun _ => ⟨0, 0⟩⟩).2)
    decide

end GemSc
