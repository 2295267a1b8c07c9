import GemSc.Factory.Steps

/-! A call works on the objects it allocates: those that were there before it, their
modules and their ports are left as they were, and its two tables name new objects only. -/

namespace GemSc
open ExceptFold

structure AgreeOn (S : Set ObjPtr) (w w' : World) : Prop where
  object : ∀ p ∈ S, w'.object p = w.object p
  simModule : ∀ p ∈ S, w'.simModule p = w.simModule p
  wires : ∀ r : PortRef, r.owner ∈ S → w'.wires r = w.wires r

namespace AgreeOn
variable {S T : Set ObjPtr} {w w' w'' : World}

theorem refl : AgreeOn S w w := ⟨fun _ _ => rfl, fun _ _ => rfl, fun _ _ => rfl⟩

theorem trans (h : AgreeOn S w w') (h' : AgreeOn S w' w'') : AgreeOn S w w'' where
  object p hp := (h'.object p hp).trans (h.object p hp)
  simModule p hp := (h'.simModule p hp).trans (h.simModule p hp)
  wires r hr := (h'.wires r hr).trans (h.wires r hr)

theorem mono (hST : S ⊆ T) (h : AgreeOn T w w') : AgreeOn S w w' where
  object p hp := h.object p (hST hp)
  simModule p hp := h.simModule p (hST hp)
  wires r hr := h.wires r (hST hr)

theorem labels (h : AgreeOn S w w') {p : ObjPtr} (hp : p ∈ S) (up : Bool) :
    w'.labels p up = w.labels p up := by
  unfold World.labels
  rw [h.object p hp]

theorem construct {ctor : Constructor} {name : String} (hS : w.next ∉ S) :
    AgreeOn S w (w.construct ctor name) where
  object _ hp := Function.update_of_ne (ne_of_mem_of_not_mem hp hS) ..
  simModule _ hp := Function.update_of_ne (ne_of_mem_of_not_mem hp hS) ..
  wires _ hr := if_neg (ne_of_mem_of_not_mem hr hS)

theorem setLayout {q : ObjPtr} {x y : ℤ} (hS : q ∉ S) : AgreeOn S w (w.setLayout q x y) where
  object _ hp := Function.update_of_ne (ne_of_mem_of_not_mem hp hS) ..
  simModule _ _ := rfl
  wires _ _ := rfl

theorem setModule {q : ObjPtr} {m : SimModule} (hS : q ∉ S) : AgreeOn S w (w.setModule q m) where
  object _ _ := rfl
  simModule _ hp := Function.update_of_ne (ne_of_mem_of_not_mem hp hS) ..
  wires _ _ := rfl

theorem addPort {q : ObjPtr} {pm : PortManager} {up : Bool} {sizes pri : List ℕ} {l : String}
    (hS : q ∉ S) : AgreeOn S w (w.addPort q pm up sizes pri l) where
  object _ hp := Function.update_of_ne (ne_of_mem_of_not_mem hp hS) ..
  simModule _ _ := rfl
  wires r hr := Function.update_of_ne (fun h => hS (by rw [h] at hr; exact hr)) ..

theorem link {src dst : PortRef} {latency : ℤ} (hs : src.owner ∉ S) (hd : dst.owner ∉ S) :
    AgreeOn S w (w.link src dst latency) where
  object _ _ := rfl
  simModule _ _ := rfl
  wires r hr := by
    have hrs : r ≠ src := fun h => hs (h ▸ hr)
    have hrd : r ≠ dst := fun h => hd (h ▸ hr)
    simp [World.link, PortPair.construct, hrs, hrd]

end AgreeOn

/-- `c` is a state of a call that started in `w`. -/
structure Call.Local (w : World) (c : Call) : Prop where
  next_le : w.next ≤ c.next
  agree : AgreeOn (Set.Iio w.next) w c.toWorld
  instances : ∀ n p, c.objectInstances.lookup n = some (some p) → w.next ≤ p ∧ p < c.next
  not_null : ∀ n, c.objectInstances.lookup n ≠ some none
  injective : ∀ n n' p, c.objectInstances.lookup n = some (some p) →
    c.objectInstances.lookup n' = some (some p) → n = n'
  modules : ∀ n p, c.moduleInstances.lookup n = some (some p) → w.next ≤ p ∧ p < c.next
  named : ∀ n p, c.moduleInstances.lookup n = some (some p) → (c.objectInstances.lookup n).isSome

def LocalCalls (nested : Nested) : Prop := ∀ cfg w c, nested cfg w = .ok c → c.Local w

namespace Call
variable {env : Env} {nested : Nested} {w : World} {c c' : Call} {mod : Json}

namespace Local

theorem start (w : World) (reg : Registry) : Local w { toWorld := { w with registry := reg } } where
  next_le := le_rfl
  agree := ⟨fun _ _ => rfl, fun _ _ => rfl, fun _ _ => rfl⟩
  instances _ _ h := nomatch h
  not_null _ h := nomatch h
  injective _ _ _ h := nomatch h
  modules _ _ h := nomatch h
  named _ _ h := nomatch h

theorem withGroups (h : c.Local w) (groups : Groups) : Local w { c with groups := groups } where
  next_le := h.next_le
  agree := ⟨h.agree.object, h.agree.simModule, h.agree.wires⟩
  instances := h.instances
  not_null := h.not_null
  injective := h.injective
  modules := h.modules
  named := h.named

theorem withWorld (h : c.Local w) {w' : World} (hagree : AgreeOn (Set.Iio w.next) c.toWorld w')
    (hnext : c.next ≤ w'.next) : Local w { c with toWorld := w' } where
  next_le := h.next_le.trans hnext
  agree := h.agree.trans hagree
  instances n p hp := (h.instances n p hp).imp_right fun hlt => hlt.trans_le hnext
  not_null := h.not_null
  injective := h.injective
  modules n p hp := (h.modules n p hp).imp_right fun hlt => hlt.trans_le hnext
  named := h.named

theorem withNull (h : c.Local w) (name : String) :
    Local w { c with moduleInstances := (name, none) :: c.moduleInstances } where
  next_le := h.next_le
  agree := h.agree
  instances := h.instances
  not_null := h.not_null
  injective := h.injective
  modules n p hp := by
    rcases Assignments.lookup_cons_some.mp hp with ⟨-, hnull⟩ | ⟨-, hp⟩
    · cases hnull
    · exact h.modules n p hp
  named n p hp := by
    rcases Assignments.lookup_cons_some.mp hp with ⟨-, hnull⟩ | ⟨-, hp⟩
    · cases hnull
    · exact h.named n p hp

theorem withObject (h : c.Local w) (ctor : Constructor) (name : String) :
    (c.withObject ctor name).Local w where
  next_le := h.next_le.trans (Nat.le_succ _)
  agree := h.agree.trans (AgreeOn.construct (not_lt.mpr h.next_le))
  instances n p hp := by
    rcases Assignments.lookup_cons_some.mp hp with ⟨-, hp⟩ | ⟨-, hp⟩
    · obtain rfl := Option.some.inj hp
      exact ⟨h.next_le, Nat.lt_succ_self _⟩
    · exact (h.instances n p hp).imp_right Nat.lt_succ_of_lt
  not_null n hn := by
    rcases Assignments.lookup_cons_some.mp hn with ⟨-, hn⟩ | ⟨-, hn⟩
    · cases hn
    · exact h.not_null n hn
  injective n n' p hn hn' := by
    rcases Assignments.lookup_cons_some.mp hn with ⟨rfl, hp⟩ | ⟨-, hp⟩ <;>
      rcases Assignments.lookup_cons_some.mp hn' with ⟨rfl, hp'⟩ | ⟨-, hp'⟩
    · rfl
    · -- the new object is above every one that is named already
      obtain rfl := Option.some.inj hp
      exact absurd (h.instances n' _ hp').2 (lt_irrefl _)
    · obtain rfl := Option.some.inj hp'
      exact absurd (h.instances n _ hp).2 (lt_irrefl _)
    · exact h.injective n n' p hp hp'
  modules n p hp := (h.modules n p hp).imp_right Nat.lt_succ_of_lt
  named n p hp := by
    have hold := h.named n p hp
    change (((name, some c.next) :: c.objectInstances).lookup n).isSome
    rw [List.lookup_cons]
    split
    · rfl
    · exact hold

theorem withModule (h : c.Local w) (ctor : Constructor) (name : String) :
    (c.withModule ctor name).Local w where
  next_le := (h.withObject ctor name).next_le
  agree := (h.withObject ctor name).agree
  instances := (h.withObject ctor name).instances
  not_null := (h.withObject ctor name).not_null
  injective := (h.withObject ctor name).injective
  modules n p hp := by
    rcases Assignments.lookup_cons_some.mp hp with ⟨-, hp⟩ | ⟨-, hp⟩
    · obtain rfl := Option.some.inj hp
      exact ⟨h.next_le, Nat.lt_succ_self _⟩
    · exact (h.withObject ctor name).modules n p hp
  named n p hp := by
    rcases Assignments.lookup_cons_some.mp hp with ⟨rfl, -⟩ | ⟨-, hp⟩
    · change (((n, some c.next) :: c.objectInstances).lookup n).isSome
      simp
    · exact (h.withObject ctor name).named n p hp

theorem create (h : c.Local w) (name type : String) : (c.create name type).Local w := by
  rcases c.create_cases name type with ⟨ctor, -, heq⟩ | ⟨ctor, -, -, heq⟩ | ⟨-, -, heq⟩ <;> rw [heq]
  · exact h.withModule ctor name
  · exact h.withObject ctor name
  · exact h

theorem not_mem_Iio (h : c.Local w) {n : String} {p : ObjPtr}
    (hp : c.objectInstances.lookup n = some (some p)) : p ∉ Set.Iio w.next :=
  not_lt.mpr (h.instances n p hp).1

theorem createInstance (h : c.Local w) (hstep : Call.createInstance c mod = .ok c') : c'.Local w := by
  apply createInstance_rule (Local w) hstep h
  · exact h.withObject
  · exact h.withModule
  · intro d n p x y hd hp
    exact hd.withWorld (AgreeOn.setLayout (hd.not_mem_Iio hp)) le_rfl

theorem instantiate (h : c.Local w) (hn : LocalCalls nested) {name : String} {m : ObjPtr} {cfg : Json}
    (hm : c.moduleInstances.lookup name = some (some m))
    (hstep : c.instantiate nested m cfg = .ok c') : c'.Local w := by
  obtain ⟨inner, sm, hinner, -, rfl⟩ := instantiate_ok hstep
  have hlocal := hn _ _ _ hinner
  have hmono : Set.Iio w.next ⊆ Set.Iio c.next := fun _ hp => lt_of_lt_of_le hp h.next_le
  have hm : m ∉ Set.Iio w.next := not_lt.mpr (h.modules name m hm).1
  exact h.withWorld ((hlocal.agree.mono hmono).trans (AgreeOn.setModule hm)) hlocal.next_le

theorem instantiateModule (h : c.Local w) (hn : LocalCalls nested)
    (hstep : Call.instantiateModule env nested c mod = .ok c') : c'.Local w := by
  rcases instantiateModule_ok hstep with
    ⟨rfl, -⟩ | ⟨name, -, -, rfl⟩ | ⟨name, m, -, cfg, -, hm, -, -, hinst⟩
  · exact h
  · exact h.withNull name
  · exact h.instantiate hn hm hinst

theorem createInstances {reg : Registry} {mods : List Json}
    (h : mods.foldlM Call.createInstance { toWorld := { w with registry := reg } } = .ok c) :
    c.Local w :=
  foldlM_invariant (Local w) h (start w reg) fun _ _ _ _ hd hstep => hd.createInstance hstep

theorem instantiateModules (h : c.Local w) (hn : LocalCalls nested) {mods : List Json}
    (hstep : mods.foldlM (Call.instantiateModule env nested) c = .ok c') : c'.Local w :=
  foldlM_invariant (Local w) hstep h fun _ _ _ _ hd hstep => hd.instantiateModule hn hstep

theorem prepare (hn : LocalCalls nested) {cfg : Json}
    (h : Call.prepare env nested cfg w = .ok c) : c.Local w := by
  obtain ⟨modules, c₁, defs, -, hcreate, -, hinst⟩ := prepare_ok h
  exact ((createInstances hcreate).withGroups _).instantiateModules hn hinst

end Local

theorem createInstances_rule (motive : Call → Prop) {reg : Registry} {mods : List Json}
    (h : mods.foldlM Call.createInstance { toWorld := { w with registry := reg } } = .ok c)
    (hstart : motive { toWorld := { w with registry := reg } })
    (hstep : ∀ mod d e, d.Local w → motive d → createInstance d mod = .ok e → motive e) : motive c := by
  have hboth : c.Local w ∧ motive c :=
    foldlM_invariant (fun d => d.Local w ∧ motive d) h ⟨.start w reg, hstart⟩
      fun mod _ d e hd he => ⟨hd.1.createInstance he, hstep mod d e hd.1 hd.2 he⟩
  exact hboth.2

theorem instantiateModules_rule (motive : Call → Prop) {mods : List Json} (hn : LocalCalls nested)
    (h : mods.foldlM (instantiateModule env nested) c = .ok c') (hl : c.Local w) (hstart : motive c)
    (hstep : ∀ mod d e, d.Local w → motive d → instantiateModule env nested d mod = .ok e → motive e) :
    motive c' := by
  have hboth : c'.Local w ∧ motive c' :=
    foldlM_invariant (fun d => d.Local w ∧ motive d) h ⟨hl, hstart⟩
      fun mod _ d e hd he => ⟨hd.1.instantiateModule hn he, hstep mod d e hd.1 hd.2 he⟩
  exact hboth.2

/-- From `c` to `c'` only ports, bindings and pairs of objects outside `S` change. -/
structure Rewired (S : Set ObjPtr) (c c' : Call) : Prop where
  agree : AgreeOn S c.toWorld c'.toWorld
  simModule : c'.simModule = c.simModule
  next : c'.next = c.next
  groups : c'.groups = c.groups
  registry : c'.registry = c.registry
  objectInstances : c'.objectInstances = c.objectInstances
  moduleInstances : c'.moduleInstances = c.moduleInstances

theorem Rewired.refl {S : Set ObjPtr} : Rewired S c c := ⟨AgreeOn.refl, rfl, rfl, rfl, rfl, rfl, rfl⟩

theorem Rewired.trans {S : Set ObjPtr} {c'' : Call} (h : Rewired S c c') (h' : Rewired S c' c'') :
    Rewired S c c'' where
  agree := h.agree.trans h'.agree
  simModule := h'.simModule.trans h.simModule
  next := h'.next.trans h.next
  groups := h'.groups.trans h.groups
  registry := h'.registry.trans h.registry
  objectInstances := h'.objectInstances.trans h.objectInstances
  moduleInstances := h'.moduleInstances.trans h.moduleInstances

def Avoids (S : Set ObjPtr) (c : Call) : Prop :=
  ∀ n p, c.objectInstances.lookup n = some (some p) → p ∉ S

theorem avoids_empty : Avoids ∅ c := fun _ _ _ => Set.notMem_empty _

theorem Avoids.rewired {S : Set ObjPtr} (h : Avoids S c) (hr : Rewired S c c') : Avoids S c' := by
  intro n p hp
  rw [hr.objectInstances] at hp
  exact h n p hp

theorem rewired_createPort {S : Set ObjPtr} (ha : Avoids S c) {info : PortCreationInfo}
    (h : createPort c info = .ok c') : Rewired S c c' := by
  rcases createPort_ok h with ⟨rfl, -⟩ | ⟨p, pm, hp, -, rfl⟩
  · exact .refl
  · exact ⟨AgreeOn.addPort (ha _ p hp), rfl, rfl, rfl, rfl, rfl, rfl⟩

theorem owner_of_findPort {up : Bool} {name : String} {r : PortRef}
    (h : c.findPort up name = .ok (some r)) :
    ∃ n, c.objectInstances.lookup n = some (some r.owner) ∧ r.isUpstream = up := by
  obtain ⟨e, -, h⟩ := bind_eq_ok.mp h
  split at h
  · cases h
  · next e =>
    split at h
    · cases h
    · next o ho =>
      obtain ⟨p, hp, h⟩ := bind_eq_ok.mp h
      rw [deref_eq_ok.mp hp] at ho
      have hr := Except.ok.inj h
      obtain ⟨pm, -, hr⟩ := Option.bind_eq_some_iff.mp hr
      obtain ⟨i, -, rfl⟩ := Option.map_eq_some_iff.mp hr
      exact ⟨e.owner, ho, rfl⟩

theorem rewired_linkFound {S : Set ObjPtr} {latency : ℤ} {src dst : Option PortRef}
    (hs : ∀ r, src = some r → r.owner ∉ S) (hd : ∀ r, dst = some r → r.owner ∉ S) :
    Rewired S c (c.linkFound latency src dst) := by
  rcases src with _ | s
  · exact .refl
  rcases dst with _ | d
  · exact .refl
  · exact ⟨AgreeOn.link (hs s rfl) (hd d rfl), rfl, rfl, rfl, rfl, rfl, rfl⟩

theorem avoids_findPort {S : Set ObjPtr} (ha : Avoids S c) {up : Bool} {name : String}
    {found : Option PortRef} (h : c.findPort up name = .ok found) :
    ∀ r, found = some r → r.owner ∉ S := by
  rintro r rfl
  obtain ⟨n, hn, -⟩ := owner_of_findPort h
  exact ha n _ hn

theorem rewired_linkNames {S : Set ObjPtr} (ha : Avoids S c) {latency : ℤ} {srcs dsts : List String}
    (h : c.linkNames latency srcs dsts = .ok c') : Rewired S c c' := by
  apply foldlM_invariant (Rewired S c) h .refl
  intro srcFull _ d e hd hstep
  obtain ⟨src, hsrc, hstep⟩ := bind_eq_ok.mp hstep
  have hsrc := avoids_findPort (ha.rewired hd) hsrc
  apply foldlM_invariant (Rewired S c) hstep hd
  intro dstFull _ d' e' hd' hstep
  obtain ⟨dst, hdst, hstep⟩ := bind_eq_ok.mp hstep
  cases hstep
  exact hd'.trans (rewired_linkFound hsrc (avoids_findPort (ha.rewired hd') hdst))

theorem connect_ok {conn : Json} (h : connect env c conn = .ok c') :
    (readConnection conn = .ok none ∧ c' = c) ∨ ∃ s excl srcs dsts, readConnection conn = .ok (some s) ∧
      conn.value .ok "exclude" (.array []) = .ok excl ∧
      filterExcluded env.regexMatch excl (c.resolveNames env s.src) = .ok srcs ∧
      filterExcluded env.regexMatch excl (c.resolveNames env s.dst) = .ok dsts ∧
      c.linkNames s.latency srcs dsts = .ok c' := by
  obtain ⟨s, hs, h⟩ := bind_eq_ok.mp h
  cases s with
  | none =>
    cases h
    exact .inl ⟨hs, rfl⟩
  | some s =>
    obtain ⟨excl, hexcl, h⟩ := bind_eq_ok.mp h
    obtain ⟨srcs, hsrcs, h⟩ := bind_eq_ok.mp h
    obtain ⟨dsts, hdsts, h⟩ := bind_eq_ok.mp h
    exact .inr ⟨s, excl, srcs, dsts, hs, hexcl, hsrcs, hdsts, h⟩

theorem rewired_connect {S : Set ObjPtr} (ha : Avoids S c) {conn : Json}
    (h : connect env c conn = .ok c') : Rewired S c c' := by
  rcases connect_ok h with ⟨-, rfl⟩ | ⟨s, excl, srcs, dsts, -, -, -, -, hlink⟩
  · exact .refl
  · exact rewired_linkNames ha hlink

theorem createPorts_ok {conns : List Json} (h : c.createPorts conns = .ok c') :
    ∃ infos, conns.mapM c.portCreations = .ok infos ∧ infos.flatten.foldlM createPort c = .ok c' := by
  exact bind_eq_ok.mp h

theorem wirePorts_ok {cfg : Json} (h : c.wirePorts env cfg = .ok c') :
    ∃ conns c₅, cfg.index "connections" = .ok conns ∧ c.createPorts conns.elements = .ok c₅ ∧
      conns.elements.foldlM (connect env) c₅ = .ok c' := by
  obtain ⟨conns, hconns, h⟩ := bind_eq_ok.mp h
  obtain ⟨c₅, hports, h⟩ := bind_eq_ok.mp h
  exact ⟨conns, c₅, hconns, hports, h⟩

theorem rewired_createPort_foldlM {S : Set ObjPtr} (ha : Avoids S c) {infos : List PortCreationInfo}
    (h : infos.foldlM createPort c = .ok c') : Rewired S c c' :=
  foldlM_invariant (Rewired S c) h .refl fun _ _ _ _ hd hstep =>
    hd.trans (rewired_createPort (ha.rewired hd) hstep)

theorem rewired_connect_foldlM {S : Set ObjPtr} (ha : Avoids S c) {conns : List Json}
    (h : conns.foldlM (connect env) c = .ok c') : Rewired S c c' :=
  foldlM_invariant (Rewired S c) h .refl fun _ _ _ _ hd hstep =>
    hd.trans (rewired_connect (ha.rewired hd) hstep)

theorem rewired_wirePorts {S : Set ObjPtr} (ha : Avoids S c) {cfg : Json}
    (h : c.wirePorts env cfg = .ok c') : Rewired S c c' := by
  obtain ⟨conns, c₅, -, hports, hconnect⟩ := wirePorts_ok h
  obtain ⟨infos, -, hcreate⟩ := createPorts_ok hports
  have h₅ := rewired_createPort_foldlM ha hcreate
  exact h₅.trans (rewired_connect_foldlM (ha.rewired h₅) hconnect)

theorem Local.rewired (h : c.Local w) (hr : Rewired (Set.Iio w.next) c c') : c'.Local w where
  next_le := by rw [hr.next]; exact h.next_le
  agree := h.agree.trans hr.agree
  instances := by rw [hr.objectInstances, hr.next]; exact h.instances
  not_null := by rw [hr.objectInstances]; exact h.not_null
  injective := by rw [hr.objectInstances]; exact h.injective
  modules := by rw [hr.moduleInstances, hr.next]; exact h.modules
  named := by rw [hr.moduleInstances, hr.objectInstances]; exact h.named

theorem Local.avoids (h : c.Local w) : Avoids (Set.Iio w.next) c := fun _ _ => h.not_mem_Iio

end Call

theorem instantiateFinal_local {env : Env} {nested : Nested} (hn : LocalCalls nested) {cfg : Json}
    {w : World} {c : Call} (h : instantiateFinal env nested cfg w = .ok c) : c.Local w := by
  obtain ⟨c₄, hprep, hwire⟩ := bind_eq_ok.mp h
  have h₄ := Call.Local.prepare hn hprep
  exact h₄.rewired (Call.rewired_wirePorts h₄.avoids hwire)

/-- Every call, at any depth of nesting, works on the objects it allocates. -/
theorem instantiateAll_local (env : Env) (fuel : ℕ) : LocalCalls (instantiateAll env fuel) := by
  induction fuel with
  | zero =>
    intro cfg w c h
    cases h
  | succ fuel ih =>
    intro cfg w c h
    obtain ⟨final, -, h⟩ := bind_eq_ok.mp h
    exact instantiateFinal_local ih h

end GemSc
