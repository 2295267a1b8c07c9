import Mathlib

/-! Partner maps built by a sequence of connections, each of which overwrites the
partner of both its ends and leaves everyone else's in place. -/

namespace Pairing
variable {P : Type*} [DecidableEq P]

def connect (m : P → Option P) (a b : P) : P → Option P :=
  Function.update (Function.update m a (some b)) b (some a)

def connectAll (m : P → Option P) (l : List (P × P)) : P → Option P :=
  l.foldl (fun m c => connect m c.1 c.2) m

def Touches (l : List (P × P)) (p : P) : Prop := ∃ c ∈ l, p = c.1 ∨ p = c.2

def Symmetric (m : P → Option P) : Prop := ∀ p q, m p = some q → m q = some p

theorem connect_left (m : P → Option P) (a b : P) : connect m a b a = some b := by
  by_cases h : a = b
  · subst h
    simp [connect]
  · simp [connect, h]

theorem connect_right (m : P → Option P) (a b : P) : connect m a b b = some a := by
  simp [connect]

theorem connect_other (m : P → Option P) {a b p : P} (ha : p ≠ a) (hb : p ≠ b) :
    connect m a b p = m p := by
  simp [connect, ha, hb]

theorem connectAll_untouched (m : P → Option P) {l : List (P × P)} {p : P} (h : ¬ Touches l p) :
    connectAll m l p = m p := by
  induction l generalizing m with
  | nil => rfl
  | cons c l ih =>
    have hc : ¬ (p = c.1 ∨ p = c.2) := fun hp => h ⟨c, List.mem_cons_self .., hp⟩
    obtain ⟨ha, hb⟩ := not_or.mp hc
    have hl : ¬ Touches l p := fun ⟨d, hd, hp⟩ => h ⟨d, List.mem_cons_of_mem _ hd, hp⟩
    exact (ih (connect m c.1 c.2) hl).trans (connect_other m ha hb)

theorem connectAll_split (m : P → Option P) (pre post : List (P × P)) (c : P × P) :
    connectAll m (pre ++ c :: post) = connectAll (connect (connectAll m pre) c.1 c.2) post := by
  simp [connectAll]

theorem partner_left (m : P → Option P) {pre post : List (P × P)} {a b : P}
    (h : ¬ Touches post a) : connectAll m (pre ++ (a, b) :: post) a = some b := by
  rw [connectAll_split, connectAll_untouched _ h, connect_left]

theorem partner_right (m : P → Option P) {pre post : List (P × P)} {a b : P}
    (h : ¬ Touches post b) : connectAll m (pre ++ (a, b) :: post) b = some a := by
  rw [connectAll_split, connectAll_untouched _ h, connect_right]

theorem connectAll_append (m : P → Option P) (l l' : List (P × P)) :
    connectAll m (l ++ l') = connectAll (connectAll m l) l' := List.foldl_append

theorem connectAll_fan_left (m : P → Option P) {u v : P} {ds : List P} (hd : ds.getLast? = some v) :
    connectAll m (ds.map fun d => (u, d)) u = some v := by
  obtain ⟨ds, rfl⟩ := List.getLast?_eq_some_iff.mp hd
  rw [List.map_append, connectAll_append]
  exact connect_left _ u v

theorem connectAll_fan_right (m : P → Option P) {u v : P} {ds : List P} (hv : v ∈ ds) (huv : v ≠ u) :
    connectAll m (ds.map fun d => (u, d)) v = some u := by
  induction ds generalizing m with
  | nil => cases hv
  | cons d ds ih =>
    by_cases h : v ∈ ds
    · exact ih (connect m u d) h
    · obtain rfl : v = d := (List.mem_cons.mp hv).resolve_right h
      have hrest : ¬ Touches (ds.map fun d => (u, d)) v := by
        rintro ⟨c, hc, hvc⟩
        obtain ⟨d, hd, rfl⟩ := List.mem_map.mp hc
        rcases hvc with rfl | rfl
        · exact huv rfl
        · exact h hd
      exact (connectAll_untouched _ hrest).trans (connect_right m u v)

omit [DecidableEq P] in
theorem not_touches_product {ss ds : List P} {p : P} (hs : p ∉ ss) (hd : p ∉ ds) :
    ¬ Touches (ss ×ˢ ds) p := by
  rintro ⟨⟨s, d⟩, hc, rfl | rfl⟩
  · exact hs (List.mem_product.mp hc).1
  · exact hd (List.mem_product.mp hc).2

theorem connectAll_product_left (m : P → Option P) {ss ds : List P} {u v : P} (hu : u ∈ ss)
    (hud : u ∉ ds) (hd : ds.getLast? = some v) : connectAll m (ss ×ˢ ds) u = some v := by
  induction ss generalizing m with
  | nil => cases hu
  | cons s ss ih =>
    change connectAll m ((ds.map fun d => (s, d)) ++ ss ×ˢ ds) u = some v
    rw [connectAll_append]
    by_cases h : u ∈ ss
    · exact ih _ h
    · obtain rfl : u = s := (List.mem_cons.mp hu).resolve_right h
      rw [connectAll_untouched _ (not_touches_product h hud)]
      exact connectAll_fan_left m hd

theorem connectAll_product_right (m : P → Option P) {ss ds : List P} {u v : P} (hv : v ∈ ds)
    (hvs : v ∉ ss) (hs : ss.getLast? = some u) : connectAll m (ss ×ˢ ds) v = some u := by
  obtain ⟨ss, rfl⟩ := List.getLast?_eq_some_iff.mp hs
  have hsplit : (ss ++ [u]) ×ˢ ds = ss ×ˢ ds ++ ds.map fun d => (u, d) := by
    simp [SProd.sprod, List.product, List.flatMap_append]
  rw [hsplit, connectAll_append]
  exact connectAll_fan_right _ hv fun h => hvs (by simp [h])

/-- Two points end up as each other's partner exactly when they come last on their sides. -/
theorem product_partners_iff (m : P → Option P) {ss ds : List P} {u v : P} (hm : m u = none)
    (hu : u ∉ ds) (hv : v ∉ ss) :
    connectAll m (ss ×ˢ ds) u = some v ∧ connectAll m (ss ×ˢ ds) v = some u ↔
      ss.getLast? = some u ∧ ds.getLast? = some v := by
  constructor
  · rintro ⟨huv, hvu⟩
    have hus : u ∈ ss := by
      by_contra h
      rw [connectAll_untouched _ (not_touches_product h hu), hm] at huv
      cases huv
    have hds : ds ≠ [] := by
      rintro rfl
      have huntouched : ¬ Touches (ss ×ˢ ([] : List P)) u := by
        rintro ⟨c, hc, -⟩
        simp at hc
      rw [connectAll_untouched _ huntouched, hm] at huv
      cases huv
    have hdlast : ds.getLast? = some v := by
      obtain ⟨d, hd⟩ := Option.isSome_iff_exists.mp (List.getLast?_isSome.mpr hds)
      rw [connectAll_product_left m hus hu hd] at huv
      rw [hd, huv]
    obtain ⟨s, hs⟩ := Option.isSome_iff_exists.mp
      (List.getLast?_isSome.mpr (List.ne_nil_of_mem hus))
    rw [connectAll_product_right m (List.mem_of_getLast? hdlast) hv hs] at hvu
    exact ⟨hs.trans hvu, hdlast⟩
  · rintro ⟨hs, hd⟩
    exact ⟨connectAll_product_left m (List.mem_of_getLast? hs) hu hd,
      connectAll_product_right m (List.mem_of_getLast? hd) hv hs⟩

omit [DecidableEq P] in
theorem exists_last {l : List (P × P)} {p : P} (h : Touches l p) :
    ∃ pre c post, l = pre ++ c :: post ∧ (p = c.1 ∨ p = c.2) ∧ ¬ Touches post p := by
  induction l with
  | nil => simp [Touches] at h
  | cons c l ih =>
    by_cases hl : Touches l p
    · obtain ⟨pre, d, post, rfl, hd, hpost⟩ := ih hl
      exact ⟨c :: pre, d, post, rfl, hd, hpost⟩
    · obtain ⟨d, hd, hp⟩ := h
      rcases List.mem_cons.mp hd with rfl | hd
      · exact ⟨[], d, l, rfl, hp, hl⟩
      · exact absurd ⟨d, hd, hp⟩ hl

theorem touches_of_partner (m : P → Option P) {pre post : List (P × P)} {p q : P}
    (hp : Touches post p) (h : connectAll m (pre ++ post) p = some q) : Touches post q := by
  obtain ⟨mid, ⟨c, d⟩, rest, rfl, hcd, hrest⟩ := exists_last hp
  rw [← List.append_assoc] at h
  have hmem : (c, d) ∈ mid ++ (c, d) :: rest := by simp
  rcases hcd with rfl | rfl
  · rw [partner_left m hrest, Option.some.injEq] at h
    exact ⟨_, hmem, .inr h.symm⟩
  · rw [partner_right m hrest, Option.some.injEq] at h
    exact ⟨_, hmem, .inl h.symm⟩

/-- From no partners, the result is symmetric exactly when no connection's two ends
part: whatever later touches one of them touches the other. -/
theorem symmetric_connectAll_iff (l : List (P × P)) :
    Symmetric (connectAll (fun _ => none) l) ↔
      ∀ pre a b post, l = pre ++ (a, b) :: post → (Touches post a ↔ Touches post b) := by
  constructor
  · rintro h pre a b post rfl
    have hsplit : pre ++ (a, b) :: post = (pre ++ [(a, b)]) ++ post := by simp
    constructor
    · intro ha
      by_contra hb
      have hba := h b a (partner_right (fun _ => none) hb)
      rw [hsplit] at hba
      exact hb (touches_of_partner _ ha hba)
    · intro hb
      by_contra ha
      have hab := h a b (partner_left (fun _ => none) ha)
      rw [hsplit] at hab
      exact ha (touches_of_partner _ hb hab)
  · intro h p q hpq
    have hp : Touches l p := by
      by_contra hp
      rw [connectAll_untouched _ hp] at hpq
      cases hpq
    obtain ⟨pre, ⟨a, b⟩, post, rfl, hab, hpost⟩ := exists_last hp
    have hboth := h pre a b post rfl
    rcases hab with rfl | rfl
    · rw [partner_left _ hpost, Option.some.injEq] at hpq
      subst hpq
      exact partner_right _ fun hq => hpost (hboth.mpr hq)
    · rw [partner_right _ hpost, Option.some.injEq] at hpq
      subst hpq
      exact partner_left _ fun hq => hpost (hboth.mp hq)

end Pairing
