import GemSc.Factory.Binding

/-! Which ports phase 5 leaves, and which port phase 6 then finds under a name. -/

namespace GemSc
open ExceptFold

namespace Call
variable {env : Env} {nested : Nested} {w : World} {c c' : Call}

def LeadsTo (c : Call) (name owner port : String) : Prop :=
  ∃ exposed, c.findEndpoint name = .ok (some ⟨owner, port, exposed⟩)

theorem leadsTo_plain {name owner port : String} (h : parsePortSpec name = (owner, port))
    (hport : port ≠ "") (hm : c.moduleInstances.lookup owner = none) : c.LeadsTo name owner port := by
  refine ⟨false, ?_⟩
  simp only [findEndpoint, h, hm, if_neg hport]
  rfl

theorem Rewired.findEndpoint {S : Set ObjPtr} (h : Rewired S c c') :
    c'.findEndpoint = c.findEndpoint := by
  funext name
  simp only [Call.findEndpoint, h.moduleInstances, h.simModule]

theorem Rewired.leadsTo {S : Set ObjPtr} (h : Rewired S c c') : c'.LeadsTo = c.LeadsTo := by
  unfold LeadsTo
  rw [h.findEndpoint]

theorem Rewired.resolveNames {S : Set ObjPtr} (h : Rewired S c c') :
    c'.resolveNames env = c.resolveNames env := by
  funext spec
  simp only [Call.resolveNames, h.groups, h.objectInstances]

theorem Rewired.resolved {S : Set ObjPtr} (h : Rewired S c c') : c'.resolved env = c.resolved env := by
  funext conn spec
  simp only [Call.resolved, h.resolveNames]

theorem findPort_ok {up : Bool} {name : String} {r : PortRef} (h : c.findPort up name = .ok (some r)) :
    ∃ owner port pm, c.LeadsTo name owner port ∧
      c.objectInstances.lookup owner = some (some r.owner) ∧
      (c.object r.owner).portManager = some pm ∧ pm.getPort up port = some r.id ∧
      r.isUpstream = up := by
  obtain ⟨e, he, h⟩ := bind_eq_ok.mp h
  split at h
  · cases h
  · next e =>
    split at h
    · cases h
    · next o ho =>
      obtain ⟨p, hp, h⟩ := bind_eq_ok.mp h
      rw [deref_eq_ok.mp hp] at ho
      have hr := Except.ok.inj h
      obtain ⟨pm, hpm, hr⟩ := Option.bind_eq_some_iff.mp hr
      obtain ⟨i, hi, rfl⟩ := Option.map_eq_some_iff.mp hr
      exact ⟨e.owner, e.port, pm, ⟨e.exposed, he⟩, ho, hpm, hi, rfl⟩

theorem findPort_of_leadsTo {up : Bool} {name owner port : String} {p : ObjPtr} {pm : PortManager}
    (hlead : c.LeadsTo name owner port) (hp : c.objectInstances.lookup owner = some (some p))
    (hpm : (c.object p).portManager = some pm) :
    c.findPort up name = .ok ((pm.getPort up port).map fun i => ⟨p, up, i⟩) := by
  obtain ⟨exposed, he⟩ := hlead
  have hderef : deref (some p) = .ok p := deref_eq_ok.mpr rfl
  unfold findPort
  rw [he]
  simp only [bind, Except.bind, hp, hderef, hpm, Option.bind_some]
  rfl

theorem label_of_findPort {up : Bool} {name : String} {r : PortRef}
    (h : c.findPort up name = .ok (some r)) : ∃ owner port, c.LeadsTo name owner port ∧
      c.objectInstances.lookup owner = some (some r.owner) ∧
      (c.labels r.owner up)[r.id]? = some port := by
  obtain ⟨owner, port, pm, hlead, hp, hpm, hi, -⟩ := findPort_ok h
  refine ⟨owner, port, hlead, hp, ?_⟩
  rw [World.labels, hpm]
  exact (PortManager.label_of_getPort hi).1

theorem dot_of_leadsTo {name owner port : String} (h : c.LeadsTo name owner port) :
    '.' ∈ name.toList := by
  by_contra hdot
  obtain ⟨exposed, he⟩ := h
  simp only [findEndpoint, parsePortSpec_of_no_dot hdot, if_true] at he
  split at he <;> cases he

theorem dot_of_findPort {up : Bool} {name : String} {r : PortRef}
    (h : c.findPort up name = .ok (some r)) : '.' ∈ name.toList := by
  obtain ⟨owner, port, pm, hlead, -⟩ := findPort_ok h
  exact dot_of_leadsTo hlead

theorem resolved_cases {conn : Json} {spec name : String} (h : name ∈ c.resolved env conn spec)
    (hgroup : ModuleGroup.isGroupReference spec = false) :
    name ∈ c.objectInstances.map (·.1) ∨ (name = spec ∧ RegexMatcher.isRegexPattern spec = false ∧
      Wildcard.isMatch env.regexMatch "*" spec = false) := by
  have hin : name ∈ c.resolveNames env spec := by
    unfold resolved at h
    split at h
    · cases h
    split at h
    · next names hnames => exact (filterExcluded_sublist hnames).subset h
    · cases h
  rw [resolveNames, hgroup, if_neg Bool.false_ne_true] at hin
  split at hin
  · exact .inl (List.mem_dedup.mp ((env.order_perm _).mem_iff.mp (List.mem_filter.mp hin).1))
  · next hpattern =>
    rw [Bool.or_eq_true, not_or, Bool.not_eq_true, Bool.not_eq_true] at hpattern
    exact .inr ⟨List.mem_singleton.mp hin, hpattern⟩

def HasPort (c : Call) (p : ObjPtr) (up : Bool) (label : String) : Prop :=
  ∃ pm i, (c.object p).portManager = some pm ∧ pm.getPort up label = some i

theorem HasPort.createPort {info : PortCreationInfo} {p : ObjPtr} {up : Bool} {label : String}
    (h : c.HasPort p up label) (hstep : Call.createPort c info = .ok c') : c'.HasPort p up label := by
  rcases createPort_ok hstep with ⟨rfl, -⟩ | ⟨q, qm, -, hqm, rfl⟩
  · exact h
  · obtain ⟨pm, i, hpm, hi⟩ := h
    by_cases hpq : p = q
    · subst hpq
      obtain rfl : pm = qm := Option.some.inj (hpm.symm.trans hqm)
      by_cases hsame : up = info.isUpstream ∧ label = info.portName
      · obtain ⟨rfl, rfl⟩ := hsame
        have hne := (PortManager.label_of_getPort hi).2
        exact ⟨_, _, World.portManager_addPort .., PortManager.getPort_addPort_self hne⟩
      · refine ⟨_, i, World.portManager_addPort .., ?_⟩
        rw [PortManager.getPort_addPort_other (not_and_or.mp hsame)]
        exact hi
    · exact ⟨pm, i, by simpa [World.addPort, hpq] using hpm, hi⟩

theorem manager_createPort {info : PortCreationInfo} (h : createPort c info = .ok c') (p : ObjPtr) :
    (c'.object p).portManager.isSome = (c.object p).portManager.isSome := by
  rcases createPort_ok h with ⟨rfl, -⟩ | ⟨q, qm, -, hqm, rfl⟩
  · rfl
  · by_cases hpq : p = q
    · subst hpq
      simp [World.addPort, hqm]
    · simp [World.addPort, hpq]

theorem manager_createPort_foldlM {infos : List PortCreationInfo}
    (h : infos.foldlM createPort c = .ok c') (p : ObjPtr) :
    (c'.object p).portManager.isSome = (c.object p).portManager.isSome :=
  foldlM_invariant (fun d : Call => (d.object p).portManager.isSome = (c.object p).portManager.isSome)
    h rfl fun _ _ _ _ hd hstep => (manager_createPort hstep p).trans hd

theorem hasPort_createPort_foldlM {infos : List PortCreationInfo} {info : PortCreationInfo} {p : ObjPtr}
    (h : infos.foldlM createPort c = .ok c') (hinfo : info ∈ infos)
    (hp : c.objectInstances.lookup info.ownerName = some (some p))
    (hm : (c.object p).portManager.isSome) (hne : info.portName ≠ "") :
    c'.HasPort p info.isUpstream info.portName := by
  obtain ⟨pre, post, rfl⟩ := List.append_of_mem hinfo
  obtain ⟨d, hpre, hrest⟩ := foldlM_append_ok.mp h
  obtain ⟨e, he, hpost⟩ := foldlM_cons_ok.mp hrest
  have hd : Rewired ∅ c d := rewired_createPort_foldlM avoids_empty hpre
  have hnow : e.HasPort p info.isUpstream info.portName := by
    rw [← manager_createPort_foldlM hpre] at hm
    obtain ⟨pm, hpm⟩ := Option.isSome_iff_exists.mp hm
    rcases createPort_ok he with ⟨-, hnone⟩ | ⟨q, qm, hq, hqm, rfl⟩
    · have hp' : d.objectInstances.lookup info.ownerName = some (some p) := by
        rw [hd.objectInstances, hp]
      rw [hnone p hp'] at hpm
      cases hpm
    · rw [hd.objectInstances, hp] at hq
      obtain rfl : p = q := Option.some.inj (Option.some.inj hq)
      exact ⟨_, _, World.portManager_addPort .., PortManager.getPort_addPort_self hne⟩
  exact foldlM_invariant (fun d : Call => d.HasPort p info.isUpstream info.portName) hpost hnow
    fun _ _ _ _ hd hstep => hd.createPort hstep

def Unwired (c : Call) : Prop :=
  ∀ n p, c.objectInstances.lookup n = some (some p) → ∀ r : PortRef, r.owner = p → c.wires r = {}

theorem Unwired.withObject (h : c.Unwired) (hl : c.Local w) (ctor : Constructor) (name : String) :
    (c.withObject ctor name).Unwired := by
  intro n p hp r hr
  change (if r.owner = c.next then {} else c.wires r) = {}
  rcases Assignments.lookup_cons_some.mp hp with ⟨-, hp⟩ | ⟨-, hp⟩
  · rw [if_pos (hr.trans (Option.some.inj hp).symm)]
  · have hlt := (hl.instances n p hp).2
    rw [if_neg (hr.trans_lt hlt).ne]
    exact h n p hp r hr

theorem Unwired.createInstance {mod : Json} (h : c.Unwired) (hl : c.Local w)
    (hstep : Call.createInstance c mod = .ok c') : c'.Unwired := by
  apply createInstance_rule Unwired hstep h
  · exact h.withObject hl
  · exact h.withObject hl
  · intro d n p x y hd _
    exact hd

theorem Unwired.instantiateModule {mod : Json} (h : c.Unwired) (hl : c.Local w)
    (hn : LocalCalls nested) (hstep : Call.instantiateModule env nested c mod = .ok c') :
    c'.Unwired := by
  rcases instantiateModule_ok hstep with ⟨rfl, -⟩ | ⟨name, -, -, rfl⟩ | ⟨name, m, -, cfg, -, -, -, -, hinst⟩
  · exact h
  · exact h
  · obtain ⟨inner, sm, hinner, -, rfl⟩ := instantiate_ok hinst
    intro n p hp r hr
    have hlt : r.owner ∈ Set.Iio c.next := by
      rw [hr]
      exact (hl.instances n p hp).2
    exact ((hn _ _ _ hinner).agree.wires r hlt).trans (h n p hp r hr)

theorem unwired_prepare {cfg : Json} (hn : LocalCalls nested)
    (h : prepare env nested cfg w = .ok c) : c.Unwired := by
  obtain ⟨modules, c₁, defs, -, hcreate, -, hinst⟩ := prepare_ok h
  have h₁ : c₁.Unwired :=
    createInstances_rule Unwired hcreate (fun _ _ hp => nomatch hp)
      fun _ _ _ hl hd hstep => hd.createInstance hl hstep
  exact instantiateModules_rule Unwired hn hinst ((Local.createInstances hcreate).withGroups _) h₁
    fun _ _ _ hl hd hstep => hd.instantiateModule hl hn hstep

theorem Unwired.createPort {info : PortCreationInfo} (h : c.Unwired)
    (hstep : Call.createPort c info = .ok c') : c'.Unwired := by
  rcases createPort_ok hstep with ⟨rfl, -⟩ | ⟨q, qm, -, -, rfl⟩
  · exact h
  · intro n p hp r hr
    have hold : c.wires r = {} := h n p hp r hr
    change Function.update c.wires _ {} r = {}
    rw [Function.update_apply, hold, ite_self]

theorem Unwired.createPort_foldlM {infos : List PortCreationInfo} (h : c.Unwired)
    (hstep : infos.foldlM Call.createPort c = .ok c') : c'.Unwired :=
  foldlM_invariant Unwired hstep h fun _ _ _ _ hd hstep => hd.createPort hstep

end Call
end GemSc
