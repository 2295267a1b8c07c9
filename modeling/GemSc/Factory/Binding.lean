import GemSc.Factory.Locality

/-! The binding pass as one list of wirings: what phase 6 does to the ports is what
connecting the listed pairs in turn does. -/

namespace GemSc
open ExceptFold

structure Wiring where
  src : PortRef
  dst : PortRef
  latency : ℤ

namespace Wiring

def pair (x : Wiring) : PortRef × PortRef := (x.src, x.dst)

def apply (wires : PortRef → SimplePort PortRef) (x : Wiring) : PortRef → SimplePort PortRef :=
  let bound := PortPair.construct wires x.src x.dst
  Function.update bound x.src ((bound x.src).setDelay x.latency)

variable {wires : PortRef → SimplePort PortRef} {x : Wiring} {l : List Wiring}

theorem sendTarget_apply : (fun r => (apply wires x r).sendTarget) =
    Pairing.connect (fun r => (wires r).sendTarget) x.src x.dst := by
  rw [← PortPair.sendTarget_construct]
  funext r
  by_cases h : r = x.src
  · subst h
    simp [apply]
  · simp [apply, h]

theorem sendTarget_foldl (wires : PortRef → SimplePort PortRef) (l : List Wiring) :
    (fun r => (l.foldl apply wires r).sendTarget) =
      Pairing.connectAll (fun r => (wires r).sendTarget) (l.map pair) := by
  induction l generalizing wires with
  | nil => rfl
  | cons x l ih =>
    have h := ih (apply wires x)
    rwa [sendTarget_apply] at h

theorem delayCycles_apply_ne {r : PortRef} (h : r ≠ x.src) :
    (apply wires x r).delayCycles = (wires r).delayCycles := by
  have hbind : (PortPair.construct wires x.src x.dst r).delayCycles = (wires r).delayCycles := by
    by_cases hd : r = x.dst
    · subst hd
      simp [PortPair.construct, SimplePort.bind, h]
    · simp [PortPair.construct, h, hd]
  simpa [apply, h] using hbind

theorem delayCycles_apply_src : (apply wires x x.src).delayCycles = x.latency := by
  simp [apply, SimplePort.setDelay]

theorem delayCycles_foldl {r : PortRef} {d : ℤ} (hall : ∀ x ∈ l, x.src = r → x.latency = d)
    (h : (wires r).delayCycles = d ∨ ∃ x ∈ l, x.src = r) :
    (l.foldl apply wires r).delayCycles = d := by
  induction l generalizing wires with
  | nil => exact h.resolve_right (by simp)
  | cons x l ih =>
    apply ih (fun y hy => hall y (List.mem_cons_of_mem _ hy))
    by_cases hx : r = x.src
    · subst hx
      exact .inl (delayCycles_apply_src.trans (hall x (List.mem_cons_self ..) rfl))
    · rw [delayCycles_apply_ne hx]
      refine h.imp_right ?_
      rintro ⟨y, hy, rfl⟩
      exact ⟨y, (List.mem_cons.mp hy).resolve_left (fun h => hx (h ▸ rfl)), rfl⟩

end Wiring

namespace Call
variable {env : Env} {c c' : Call}

def withWirings (c : Call) (l : List Wiring) : Call :=
  { c with
    wires := l.foldl Wiring.apply c.wires
    pairs := c.pairs ++ l.map fun x => ⟨x.src, x.dst⟩ }

theorem withWirings_append (c : Call) (l l' : List Wiring) :
    c.withWirings (l ++ l') = (c.withWirings l).withWirings l' := by
  simp [withWirings]

theorem withWirings_nil (c : Call) : c.withWirings [] = c := by
  simp [withWirings]

def portOf (up : Bool) (c : Call) (name : String) : Option PortRef :=
  match c.findPort up name with
  | .ok r => r
  | .error _ => none

theorem portOf_of_ok {up : Bool} {name : String} {r : Option PortRef}
    (h : c.findPort up name = .ok r) : c.portOf up name = r := by
  rw [portOf, h]

theorem portOf_withWirings (up : Bool) (l : List Wiring) :
    (c.withWirings l).portOf up = c.portOf up := rfl

theorem linkFound_eq (latency : ℤ) (src dst : Option PortRef) :
    c.linkFound latency src dst =
      c.withWirings ((src.toList ×ˢ dst.toList).map fun e => ⟨e.1, e.2, latency⟩) := by
  cases src with
  | none => exact (withWirings_nil _).symm
  | some s =>
    cases dst with
    | none => exact (withWirings_nil _).symm
    | some d => rfl

def wiringsOf (latency : ℤ) (srcs dsts : List PortRef) : List Wiring :=
  (srcs ×ˢ dsts).map fun e => ⟨e.1, e.2, latency⟩

theorem wiringsOf_append_right (latency : ℤ) (src : Option PortRef) (d d' : List PortRef) :
    wiringsOf latency src.toList (d ++ d') =
      wiringsOf latency src.toList d ++ wiringsOf latency src.toList d' := by
  cases src <;> simp [wiringsOf, SProd.sprod, List.product]

theorem wiringsOf_append_left (latency : ℤ) (s s' dsts : List PortRef) :
    wiringsOf latency (s ++ s') dsts = wiringsOf latency s dsts ++ wiringsOf latency s' dsts := by
  simp [wiringsOf, SProd.sprod, List.product]

theorem map_pair_wiringsOf (latency : ℤ) (srcs dsts : List PortRef) :
    (wiringsOf latency srcs dsts).map Wiring.pair = srcs ×ˢ dsts := by
  simp [wiringsOf, Wiring.pair, Function.comp_def]

theorem filterMap_cons_toList {α β : Type*} (f : α → Option β) (a : α) (l : List α) :
    (a :: l).filterMap f = (f a).toList ++ l.filterMap f := by
  cases h : f a <;> simp [h]

theorem linkDsts_ok {latency : ℤ} {src : Option PortRef} {dsts : List String}
    (h : dsts.foldlM (fun c dstFull => do
      let dst ← c.findDstPort dstFull
      pure (c.linkFound latency src dst)) c = .ok c') :
    c' = c.withWirings (wiringsOf latency src.toList (dsts.filterMap (c.portOf true))) := by
  induction dsts generalizing c with
  | nil =>
    cases h
    rw [List.filterMap_nil, wiringsOf, List.product_nil]
    exact (withWirings_nil _).symm
  | cons name dsts ih =>
    obtain ⟨d, hd, hrest⟩ := foldlM_cons_ok.mp h
    obtain ⟨dst, hdst, hd⟩ := bind_eq_ok.mp hd
    cases hd
    have hrest := ih hrest
    rw [linkFound_eq, portOf_withWirings, ← withWirings_append] at hrest
    rw [filterMap_cons_toList, portOf_of_ok hdst, wiringsOf_append_right]
    exact hrest

theorem linkNames_ok {latency : ℤ} {srcs dsts : List String}
    (h : c.linkNames latency srcs dsts = .ok c') :
    c' = c.withWirings
      (wiringsOf latency (srcs.filterMap (c.portOf false)) (dsts.filterMap (c.portOf true))) := by
  unfold linkNames at h
  induction srcs generalizing c with
  | nil =>
    cases h
    exact (withWirings_nil _).symm
  | cons name srcs ih =>
    obtain ⟨d, hd, hrest⟩ := foldlM_cons_ok.mp h
    obtain ⟨src, hsrc, hd⟩ := bind_eq_ok.mp hd
    have hd := linkDsts_ok hd
    subst hd
    have hrest := ih hrest
    rw [portOf_withWirings, portOf_withWirings, ← withWirings_append] at hrest
    rw [filterMap_cons_toList, portOf_of_ok hsrc, wiringsOf_append_left]
    exact hrest

def resolved (env : Env) (c : Call) (conn : Json) (spec : String) : List String :=
  match conn.value .ok "exclude" (.array []) with
  | .error _ => []
  | .ok excl => match filterExcluded env.regexMatch excl (c.resolveNames env spec) with
    | .ok names => names
    | .error _ => []

theorem resolved_of_ok {conn excl : Json} {spec : String} {names : List String}
    (hexcl : conn.value .ok "exclude" (.array []) = .ok excl)
    (hnames : filterExcluded env.regexMatch excl (c.resolveNames env spec) = .ok names) :
    c.resolved env conn spec = names := by
  rw [resolved, hexcl]
  simp only [hnames]

def reached (env : Env) (up : Bool) (c : Call) (conn : Json) (spec : String) : List PortRef :=
  (c.resolved env conn spec).filterMap (c.portOf up)

def wirings (env : Env) (c : Call) (conn : Json) : List Wiring :=
  match readConnection conn with
  | .ok (some s) => wiringsOf s.latency (c.reached env false conn s.src) (c.reached env true conn s.dst)
  | _ => []

theorem connect_eq {conn : Json} (h : connect env c conn = .ok c') :
    c' = c.withWirings (c.wirings env conn) := by
  rcases connect_ok h with ⟨hs, rfl⟩ | ⟨s, excl, srcs, dsts, hs, hexcl, hsrcs, hdsts, hlink⟩
  · rw [wirings, hs]
    exact c'.withWirings_nil.symm
  · rw [wirings, hs]
    simp only [reached, resolved_of_ok hexcl hsrcs, resolved_of_ok hexcl hdsts]
    exact linkNames_ok hlink

theorem wirings_withWirings (l : List Wiring) : (c.withWirings l).wirings env = c.wirings env := rfl

theorem connects_eq {conns : List Json} (h : conns.foldlM (connect env) c = .ok c') :
    c' = c.withWirings (conns.flatMap (c.wirings env)) := by
  induction conns generalizing c with
  | nil =>
    cases h
    exact (withWirings_nil _).symm
  | cons conn conns ih =>
    obtain ⟨d, hd, hrest⟩ := foldlM_cons_ok.mp h
    have hd := connect_eq hd
    subst hd
    have hrest := ih hrest
    rw [wirings_withWirings, ← withWirings_append] at hrest
    exact hrest

theorem mem_wirings {conn : Json} {x : Wiring} (h : x ∈ c.wirings env conn) :
    ∃ s, readConnection conn = .ok (some s) ∧ x.latency = s.latency ∧
      x.src ∈ c.reached env false conn s.src ∧ x.dst ∈ c.reached env true conn s.dst := by
  unfold wirings at h
  split at h
  · next s hs =>
    obtain ⟨e, he, rfl⟩ := List.mem_map.mp h
    exact ⟨s, hs, rfl, List.mem_product.mp he⟩
  · cases h

theorem mem_reached {up : Bool} {conn : Json} {spec : String} {r : PortRef} :
    r ∈ c.reached env up conn spec ↔
      ∃ name ∈ c.resolved env conn spec, c.findPort up name = .ok (some r) := by
  unfold reached
  rw [List.mem_filterMap]
  refine exists_congr fun name => and_congr_right fun _ => ?_
  unfold portOf
  split
  · next r' hr' => rw [hr', Except.ok.injEq]
  · next hr' => simp [hr']

theorem isUpstream_of_mem_reached {up : Bool} {conn : Json} {spec : String} {r : PortRef}
    (h : r ∈ c.reached env up conn spec) : r.isUpstream = up := by
  obtain ⟨name, -, hr⟩ := mem_reached.mp h
  exact (owner_of_findPort hr).choose_spec.2

end Call
end GemSc
