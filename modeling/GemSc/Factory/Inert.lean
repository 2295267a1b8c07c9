import GemSc.Factory.NullRuns

/-! Entries of unregistered type. Without such an entry a call ends as it does with it,
unless the entry places an object of its name or configures a module of its name. -/

namespace GemSc
open ExceptFold

namespace Call
variable {env : Env} {nested : Nested} {cfg mod conn : Json} {mods conns : List Json} {w : World}
variable {reg : Registry} {c c' d d' : Call}

structure Lighter (c d : Call) : Prop where
  world : d.toWorld = c.toWorld
  objects : d.objectInstances = c.objectInstances
  modules : ∀ n, d.moduleInstances.lookup n = c.moduleInstances.lookup n ∨
    (c.moduleInstances.lookup n = some none ∧ d.moduleInstances.lookup n = none)

namespace Lighter

theorem refl : Lighter c c := ⟨rfl, rfl, fun _ => .inl rfl⟩

theorem withWorld (h : Lighter c d) (w : World) :
    Lighter { c with toWorld := w } { d with toWorld := w } := ⟨rfl, h.objects, h.modules⟩

theorem addNull (h : Lighter c d) (name : String) :
    Lighter { c with moduleInstances := (name, none) :: c.moduleInstances }
      { d with moduleInstances := (name, none) :: d.moduleInstances } := by
  refine ⟨h.world, h.objects, fun n => ?_⟩
  by_cases hn : n = name
  · subst hn
    exact .inl (by simp)
  · rw [Assignments.lookup_ne hn, Assignments.lookup_ne hn]
    exact h.modules n

theorem dropNull (h : Lighter c d) {name : String} (hnone : c.moduleInstances.lookup name = none) :
    Lighter { c with moduleInstances := (name, none) :: c.moduleInstances } d := by
  refine ⟨h.world, h.objects, fun n => ?_⟩
  by_cases hn : n = name
  · subst hn
    refine .inr ⟨by simp, ?_⟩
    rcases h.modules n with heq | ⟨-, hnone'⟩
    · rw [heq, hnone]
    · exact hnone'
  · rw [Assignments.lookup_ne hn]
    exact h.modules n

theorem catchUp (h : Lighter c d) {name : String} (hnull : c.moduleInstances.lookup name = some none) :
    Lighter c { d with moduleInstances := (name, none) :: d.moduleInstances } := by
  refine ⟨h.world, h.objects, fun n => ?_⟩
  by_cases hn : n = name
  · subst hn
    exact .inl (by simp [hnull])
  · rw [Assignments.lookup_ne hn]
    exact h.modules n

theorem instantiateModule (h : Lighter c d)
    (hstep : Call.instantiateModule env nested c mod = .ok c') :
    ∃ d', Call.instantiateModule env nested d mod = .ok d' ∧ Lighter c' d' := by
  unfold Call.instantiateModule at hstep ⊢
  split at hstep
  · next hc =>
    obtain ⟨nameField, hname, hstep⟩ := bind_eq_ok.mp hstep
    obtain ⟨name, hstr, hstep⟩ := bind_eq_ok.mp hstep
    rw [if_pos hc]
    simp only [hname, hstr, bind, Except.bind]
    rcases h.modules name with heq | ⟨hnull, hnone⟩
    · rw [heq]
      split at hstep
      · cases hstep
        exact ⟨_, rfl, h.addNull name⟩
      · cases hstep
        exact ⟨d, rfl, h⟩
      · next m hm =>
        obtain ⟨field, hfield, hstep⟩ := bind_eq_ok.mp hstep
        obtain ⟨file, hfile, hstep⟩ := bind_eq_ok.mp hstep
        simp only [hfield, hfile]
        split at hstep
        · cases hstep
          exact ⟨d, rfl, h⟩
        · cases hstep
        · obtain ⟨r, sm, hr, hsm, rfl⟩ := instantiate_ok hstep
          simp only [instantiate, h.world, hr, Except.mapError, bind, Except.bind, hsm]
          exact ⟨_, rfl, h.withWorld _⟩
    · -- the second state meets the name for the first time
      rw [hnull] at hstep
      cases hstep
      rw [hnone]
      exact ⟨_, rfl, h.catchUp hnull⟩
  · next hc =>
    cases hstep
    rw [if_neg hc]
    exact ⟨d, rfl, h⟩

theorem findEndpoint (h : Lighter c d) {spec : String} {e : Option Endpoint}
    (he : c.findEndpoint spec = .ok e) : d.findEndpoint spec = c.findEndpoint spec := by
  rcases h.modules (parsePortSpec spec).1 with heq | ⟨hnull, hnone⟩
  · simp only [Call.findEndpoint, heq, h.world]
  · have hport : (parsePortSpec spec).2 = "" := by
      by_contra hport
      cases he.symm.trans (findEndpoint_error.mpr ⟨rfl, hport, hnull⟩)
    simp only [Call.findEndpoint, hnull, hnone, if_pos hport]

theorem endpointCreation (h : Lighter c d) {key spec : String} {up plain : Bool}
    {infos : List PortCreationInfo} (hc : Call.endpointCreation key up plain c conn spec = .ok infos) :
    Call.endpointCreation key up plain d conn spec = .ok infos := by
  obtain ⟨e, he, -⟩ := bind_eq_ok.mp hc
  unfold Call.endpointCreation at hc ⊢
  rw [h.findEndpoint he]
  exact hc

theorem portCreations (h : Lighter c d) {infos : List PortCreationInfo}
    (hc : c.portCreations conn = .ok infos) : d.portCreations conn = .ok infos := by
  rcases portCreations_ok hc with ⟨hs, rfl⟩ | ⟨s, src, dst, hs, hsrc, hdst, rfl⟩
  · exact bind_eq_ok.mpr ⟨none, hs, rfl⟩
  · refine bind_eq_ok.mpr ⟨some s, hs, bind_eq_ok.mpr ⟨src, h.endpointCreation hsrc, ?_⟩⟩
    exact bind_eq_ok.mpr ⟨dst, h.endpointCreation hdst, rfl⟩

theorem createPort (h : Lighter c d) {info : PortCreationInfo} (hc : c.createPort info = .ok c') :
    ∃ d', d.createPort info = .ok d' ∧ Lighter c' d' := by
  unfold Call.createPort at hc ⊢
  rw [h.objects, h.world]
  split at hc
  · next ho =>
    cases hc
    exact ⟨d, rfl, h⟩
  · next o ho =>
    obtain ⟨p, hp, hc⟩ := bind_eq_ok.mp hc
    simp only [hp, bind, Except.bind]
    split at hc
    · cases hc
      exact ⟨d, rfl, h⟩
    · cases hc
      exact ⟨_, rfl, rfl, rfl, h.modules⟩

theorem createPorts (h : Lighter c d) (hc : c.createPorts conns = .ok c') :
    ∃ d', d.createPorts conns = .ok d' ∧ Lighter c' d' := by
  obtain ⟨infos, hinfos, hcreate⟩ := createPorts_ok hc
  have hinfos' : conns.mapM d.portCreations = .ok infos :=
    mapM_ok_congr hinfos fun _ _ _ => h.portCreations
  obtain ⟨d', hd', hlight⟩ := foldlM_simulation Lighter hcreate h
    fun info _ _ _ _ hcd hstep => hcd.createPort hstep
  exact ⟨d', bind_eq_ok.mpr ⟨infos, hinfos', hd'⟩, hlight⟩

theorem findPort (h : Lighter c d) {up : Bool} {name : String} {r : Option PortRef}
    (hr : c.findPort up name = .ok r) : d.findPort up name = .ok r := by
  obtain ⟨e, he, -⟩ := bind_eq_ok.mp hr
  unfold Call.findPort at hr ⊢
  rw [h.findEndpoint he, h.objects, h.world]
  exact hr

theorem linkFound (h : Lighter c d) (latency : ℤ) (src dst : Option PortRef) :
    Lighter (c.linkFound latency src dst) (d.linkFound latency src dst) := by
  cases src with
  | none => exact h
  | some s =>
    cases dst with
    | none => exact h
    | some t =>
      unfold Call.linkFound
      rw [h.world]
      exact h.withWorld _

theorem linkNames (h : Lighter c d) {latency : ℤ} {srcs dsts : List String}
    (hc : c.linkNames latency srcs dsts = .ok c') :
    ∃ d', d.linkNames latency srcs dsts = .ok d' ∧ Lighter c' d' := by
  apply foldlM_simulation Lighter hc h
  intro srcFull _ c d c' hcd hstep
  obtain ⟨src, hsrc, hstep⟩ := bind_eq_ok.mp hstep
  have hinner : ∀ dstFull ∈ dsts, ∀ c d c', Lighter c d →
      (c.findDstPort dstFull >>= fun dst => pure (c.linkFound latency src dst)) = .ok c' →
      ∃ d', (d.findDstPort dstFull >>= fun dst => pure (d.linkFound latency src dst)) = .ok d' ∧
        Lighter c' d' := by
    intro dstFull _ c d c' hcd hstep
    obtain ⟨dst, hdst, hstep⟩ := bind_eq_ok.mp hstep
    cases hstep
    exact ⟨_, bind_eq_ok.mpr ⟨dst, hcd.findPort hdst, rfl⟩, hcd.linkFound latency src dst⟩
  obtain ⟨d', hd', hlight⟩ := foldlM_simulation Lighter hstep hcd hinner
  exact ⟨d', bind_eq_ok.mpr ⟨src, hcd.findPort hsrc, hd'⟩, hlight⟩

theorem connect (h : Lighter c d) (hc : c.connect env conn = .ok c') :
    ∃ d', d.connect env conn = .ok d' ∧ Lighter c' d' := by
  have hresolve : d.resolveNames env = c.resolveNames env := by
    funext spec
    simp only [Call.resolveNames, h.world, h.objects]
  rcases connect_ok hc with ⟨hs, rfl⟩ | ⟨s, excl, srcs, dsts, hs, hexcl, hsrcs, hdsts, hlink⟩
  · exact ⟨d, bind_eq_ok.mpr ⟨none, hs, rfl⟩, h⟩
  · obtain ⟨d', hd', hlight⟩ := h.linkNames hlink
    rw [← hresolve] at hsrcs hdsts
    refine ⟨d', bind_eq_ok.mpr ⟨some s, hs, bind_eq_ok.mpr ⟨excl, hexcl, ?_⟩⟩, hlight⟩
    exact bind_eq_ok.mpr ⟨srcs, hsrcs, bind_eq_ok.mpr ⟨dsts, hdsts, hd'⟩⟩

theorem wirePorts (h : Lighter c d) {cfg cfg' : Json}
    (hconns : cfg'.index "connections" = cfg.index "connections") (hc : c.wirePorts env cfg = .ok c') :
    ∃ d', d.wirePorts env cfg' = .ok d' ∧ Lighter c' d' := by
  obtain ⟨conns, c₅, hc₁, hports, hconnect⟩ := wirePorts_ok hc
  obtain ⟨d₅, hd₅, h₅⟩ := h.createPorts hports
  obtain ⟨d', hd', hlight⟩ := foldlM_simulation Lighter hconnect h₅
    fun conn _ _ _ _ hcd hstep => hcd.connect hstep
  exact ⟨d', bind_eq_ok.mpr ⟨conns, hconns.trans hc₁, bind_eq_ok.mpr ⟨d₅, hd₅, hd'⟩⟩, hlight⟩

end Lighter
end Call

def Json.withModules (mods : List Json) : Json → Json
  | .object members =>
    .object (members.map fun m => if m.1 = "modules" then (m.1, .array mods) else m)
  | j => j

section
variable {cfg : Json} {mods : List Json}

theorem lookup_withModules_ne (members : List (String × Json)) {key : String} (hkey : key ≠ "modules") :
    (members.map fun m => if m.1 = "modules" then (m.1, Json.array mods) else m).lookup key =
      members.lookup key := by
  induction members with
  | nil => rfl
  | cons m members ih =>
    rw [List.map_cons]
    split
    · next hm =>
      have hne : key ≠ m.1 := by rwa [hm]
      rw [Assignments.lookup_ne hne, Assignments.lookup_ne hne, ih]
    · rw [List.lookup_cons, List.lookup_cons, ih]

theorem lookup_withModules_self (members : List (String × Json)) :
    (members.map fun m => if m.1 = "modules" then (m.1, Json.array mods) else m).lookup "modules" =
      (members.lookup "modules").map fun _ => Json.array mods := by
  induction members with
  | nil => rfl
  | cons m members ih =>
    rw [List.map_cons]
    split
    · next hm =>
      obtain ⟨key, j⟩ := m
      obtain rfl : key = "modules" := hm
      simp
    · next hm => rw [Assignments.lookup_ne (Ne.symm hm), Assignments.lookup_ne (Ne.symm hm), ih]

theorem index_withModules_ne {key : String} (hkey : key ≠ "modules") :
    (cfg.withModules mods).index key = cfg.index key := by
  cases cfg with
  | object members => simp only [Json.withModules, Json.index, lookup_withModules_ne members hkey]
  | _ => rfl

theorem contains_withModules_ne {key : String} (hkey : key ≠ "modules") :
    (cfg.withModules mods).contains key = cfg.contains key := by
  cases cfg with
  | object members => simp only [Json.withModules, Json.contains, lookup_withModules_ne members hkey]
  | _ => rfl

theorem index_withModules_self (h : cfg.entries "modules" ≠ []) :
    (cfg.withModules mods).index "modules" = .ok (.array mods) := by
  cases cfg with
  | object members =>
    rw [Json.withModules, Json.index, lookup_withModules_self]
    cases hm : members.lookup "modules" with
    | some j => rfl
    | none => simp [Json.entries, Json.index, hm, Json.elements] at h
  | null => simp [Json.entries, Json.index, Json.elements] at h
  | _ => simp [Json.entries, Json.index] at h

end

/-- The entry neither places an object nor configures a module that the entries make. -/
def Quiet (reg : Registry) (mods : List Json) (e : Json) : Prop :=
  (∀ x y, ¬ LayoutAt e x y) ∧ ∀ n, Call.HasConfig e n → ¬ MakesModule reg mods n

def Unregistered (reg : Registry) (e : Json) : Prop :=
  ∃ name type, IsEntry e name type ∧ ¬ Registered reg type

namespace Call
variable {env : Env} {nested : Nested} {cfg e : Json} {pre post : List Json} {w : World}
variable {reg : Registry} {c c' : Call}

theorem createInstance_unregistered (hunreg : Unregistered c.registry e)
    (hlayout : ∀ x y, ¬ LayoutAt e x y) (h : createInstance c e = .ok c') : c' = c := by
  obtain ⟨name, type, he, hnot⟩ := hunreg
  rcases createInstance_ok h with ⟨rfl, -⟩ | ⟨name', type', he', hplace⟩
  · rfl
  obtain ⟨rfl, rfl⟩ := he.unique he'
  obtain ⟨hm, ho⟩ := not_or.mp hnot
  rcases c.create_cases name type with ⟨ctor, hsome, -⟩ | ⟨ctor, -, hsome, -⟩ | ⟨-, -, heq⟩
  · simp [hsome] at hm
  · simp [hsome] at ho
  rw [heq] at hplace
  rcases placeInstance_ok hplace with ⟨rfl, -⟩ | ⟨x, y, p, hl, -⟩
  · rfl
  · exact absurd hl (hlayout x y)

theorem createInstances_drop (hunreg : Unregistered reg e) (hlayout : ∀ x y, ¬ LayoutAt e x y)
    (h : (pre ++ e :: post).foldlM createInstance { toWorld := { w with registry := reg } } = .ok c) :
    (pre ++ post).foldlM createInstance { toWorld := { w with registry := reg } } = .ok c := by
  obtain ⟨d, hpre, hrest⟩ := foldlM_append_ok.mp h
  obtain ⟨d', hstep, hpost⟩ := foldlM_cons_ok.mp hrest
  rw [← (tabled_createInstances hpre).registry] at hunreg
  obtain rfl := createInstance_unregistered hunreg hlayout hstep
  exact foldlM_append_ok.mpr ⟨d', hpre, hpost⟩

theorem instantiateModules_drop {groups : Groups} (htab : c.Tabled reg (pre ++ e :: post))
    (hquiet : ∀ n, HasConfig e n → ¬ MakesModule reg (pre ++ e :: post) n)
    (h : (pre ++ e :: post).foldlM (instantiateModule env nested) { c with groups := groups } = .ok c') :
    ∃ d', (pre ++ post).foldlM (instantiateModule env nested) { c with groups := groups } = .ok d' ∧
      Lighter c' d' := by
  obtain ⟨d, hpre, hrest⟩ := foldlM_append_ok.mp h
  obtain ⟨e', hstep, hpost⟩ := foldlM_cons_ok.mp hrest
  have hconf := configured_instantiateModules htab.module_ne hpre
  -- the one step that the smaller run does not take
  have hlight : Lighter e' d := by
    rcases instantiateModule_ok hstep with
      ⟨rfl, -⟩ | ⟨name, -, hnone, rfl⟩ | ⟨name, m, -, -, hconfig, hm, -⟩
    · exact .refl
    · exact Lighter.refl.dropNull hnone
    · have hmade : MakesModule reg (pre ++ e :: post) name := by
        apply (htab.module_iff name).mp
        rw [(hconf.module_iff name m).mp hm]
        rfl
      exact absurd hmade (hquiet name hconfig)
  obtain ⟨d', hd', hlight'⟩ := foldlM_simulation Lighter hpost hlight
    fun mod _ _ _ _ hcd hstep => hcd.instantiateModule hstep
  exact ⟨d', foldlM_append_ok.mpr ⟨d, hpre, hd'⟩, hlight'⟩

theorem prepare_drop (hsplit : cfg.entries "modules" = pre ++ e :: post)
    (hunreg : Unregistered (registryFor env cfg w) e)
    (hquiet : Quiet (registryFor env cfg w) (pre ++ e :: post) e)
    (h : prepare env nested cfg w = .ok c) :
    ∃ d, prepare env nested (cfg.withModules (pre ++ post)) w = .ok d ∧ Lighter c d := by
  obtain ⟨c₀, hplug, h⟩ := bind_eq_ok.mp h
  obtain rfl := loadPlugins_start hplug
  obtain ⟨modules, hmod, h⟩ := bind_eq_ok.mp h
  obtain ⟨c₁, hcreate, h⟩ := bind_eq_ok.mp h
  obtain ⟨c₂, hgroups, h⟩ := bind_eq_ok.mp h
  rw [(entries_of_index hmod).symm.trans hsplit] at hcreate h
  -- the smaller configuration has the same plugins and groups
  have hplug' : loadPlugins env (cfg.withModules (pre ++ post)) { toWorld := w } =
      .ok { toWorld := { w with registry := registryFor env cfg w } } := by
    rw [← hplug]
    simp [loadPlugins, contains_withModules_ne, index_withModules_ne]
  have hgroups' : defineGroups (cfg.withModules (pre ++ post)) c₁ = .ok c₂ := by
    rw [← hgroups]
    simp [defineGroups, contains_withModules_ne, index_withModules_ne]
  have hne : cfg.entries "modules" ≠ [] := by simp [hsplit]
  have hmod' : (cfg.withModules (pre ++ post)).index "modules" = .ok (.array (pre ++ post)) :=
    index_withModules_self hne
  obtain ⟨defs, -, rfl⟩ := defineGroups_ok hgroups
  obtain ⟨d, hd, hlight⟩ := instantiateModules_drop (tabled_createInstances hcreate) hquiet.2 h
  refine ⟨d, bind_eq_ok.mpr ⟨_, hplug', bind_eq_ok.mpr ⟨_, hmod', bind_eq_ok.mpr ⟨c₁, ?_, ?_⟩⟩⟩, hlight⟩
  · exact createInstances_drop hunreg hquiet.1 hcreate
  · exact bind_eq_ok.mpr ⟨_, hgroups', hd⟩

end Call

section
variable {env : Env} {fuel : ℕ} {cfg : Json} {w : World}

/-- Without the entry the call would have left the same objects, under the same names, with
the same ports and bindings. -/
def NoEffect (env : Env) (fuel : ℕ) (cfg : Json) (w : World) (pre post : List Json) : Prop :=
  ∀ c, instantiateFinal env (instantiateAll env fuel) cfg w = .ok c →
    ∃ d, instantiateFinal env (instantiateAll env fuel) (cfg.withModules (pre ++ post)) w = .ok d ∧
      d.toWorld = c.toWorld ∧ d.objectInstances = c.objectInstances

theorem noEffect_of_quiet {pre post : List Json} {e : Json}
    (hsplit : cfg.entries "modules" = pre ++ e :: post)
    (hunreg : Unregistered (registryFor env cfg w) e)
    (hquiet : Quiet (registryFor env cfg w) (pre ++ e :: post) e) :
    NoEffect env fuel cfg w pre post := by
  intro c h
  obtain ⟨c₄, hprep, hwire⟩ := bind_eq_ok.mp h
  obtain ⟨d₄, hd₄, hlight⟩ := Call.prepare_drop hsplit hunreg hquiet hprep
  have hconns : (cfg.withModules (pre ++ post)).index "connections" = cfg.index "connections" :=
    index_withModules_ne (by decide)
  obtain ⟨d, hd, hlight'⟩ := hlight.wirePorts hconns hwire
  exact ⟨d, bind_eq_ok.mpr ⟨d₄, hd₄, hd⟩, hlight'.world, hlight'.objects⟩

/-- No null pointer is dereferenced, and no entry of unregistered type has an effect. -/
structure NullSafe (env : Env) (fuel : ℕ) (cfg : Json) (w : World) : Prop where
  noNull : NoNull (instantiateFinal env (instantiateAll env fuel) cfg w)
  noEffect : ∀ pre e post, cfg.entries "modules" = pre ++ e :: post →
    Unregistered (registryFor env cfg w) e → NoEffect env fuel cfg w pre post

def AllQuiet (env : Env) (cfg : Json) (w : World) : Prop :=
  ∀ e ∈ cfg.entries "modules", Unregistered (registryFor env cfg w) e →
    Quiet (registryFor env cfg w) (cfg.entries "modules") e

def DistinctNames (mods : List Json) : Prop :=
  mods.Pairwise fun a b => ∀ n, a.index "name" = .ok (.string n) → b.index "name" ≠ .ok (.string n)

theorem DistinctNames.eq_of_mem {pre post : List Json} {e m : Json} {n : String}
    (h : DistinctNames (pre ++ e :: post)) (he : e.index "name" = .ok (.string n))
    (hm : m.index "name" = .ok (.string n)) (hmem : m ∈ pre ++ e :: post) : m = e := by
  rw [DistinctNames, List.pairwise_append, List.pairwise_cons] at h
  obtain ⟨-, ⟨hpost, -⟩, hpre⟩ := h
  rcases List.mem_append.mp hmem with hmem | hmem
  · exact absurd he (hpre m hmem e (List.mem_cons_self ..) n hm)
  rcases List.mem_cons.mp hmem with rfl | hmem
  · rfl
  · exact absurd hm (hpost m hmem n he)

theorem allQuiet_of_distinctNames (hdistinct : DistinctNames (cfg.entries "modules"))
    (hlayouts : ¬ MisplacedLayout (registryFor env cfg w) (cfg.entries "modules")) :
    AllQuiet env cfg w := by
  rintro e he ⟨name, type, hentry, hnot⟩
  obtain ⟨pre, post, hsplit⟩ := List.append_of_mem he
  rw [hsplit] at hdistinct hlayouts ⊢
  constructor
  · intro x y hl
    refine hlayouts ⟨pre, e, post, name, type, x, y, rfl, hentry, hl, ?_⟩
    rintro ⟨m, hm, type', hentry', hreg⟩
    have hmem : m ∈ pre ++ e :: post := by
      rcases List.mem_append.mp hm with hm | hm
      · exact List.mem_append_left _ hm
      · rw [List.mem_singleton.mp hm]
        simp
    obtain rfl := hdistinct.eq_of_mem hentry.name hentry'.name hmem
    obtain ⟨-, rfl⟩ := hentry.unique hentry'
    exact hnot hreg
  · rintro n hconfig ⟨m, hm, type', hentry', hreg⟩
    obtain rfl := hdistinct.eq_of_mem hconfig.2 hentry'.name hm
    obtain ⟨-, rfl⟩ := hentry.unique hentry'
    exact hnot (.inl hreg)

/-- A call is safe when nothing in the configuration leads to a null pointer and its entries
of unregistered type are quiet. A safe call that throws nothing has the first, and where no
two entries share a name the first gives the second. -/
theorem nullSafe_of_nullFree (env : Env) (fuel : ℕ) (cfg : Json) (w : World) :
    (NullFree env fuel cfg w ∧ AllQuiet env cfg w → NullSafe env fuel cfg w) ∧
    ((∀ f, instantiateFinal env (instantiateAll env fuel) cfg w = .error f → f = .nullDeref) →
      NullSafe env fuel cfg w → NullFree env fuel cfg w) ∧
    (DistinctNames (cfg.entries "modules") → NullFree env fuel cfg w → AllQuiet env cfg w) := by
  refine ⟨?_, ?_, ?_⟩
  · rintro ⟨hfree, hquiet⟩
    refine ⟨hfree.noNull, fun pre e post hsplit hunreg => noEffect_of_quiet hsplit hunreg ?_⟩
    have he : e ∈ cfg.entries "modules" := by simp [hsplit]
    rw [← hsplit]
    exact hquiet e he hunreg
  · intro hother hsafe
    cases h : instantiateFinal env (instantiateAll env fuel) cfg w with
    | error f =>
      obtain rfl := hother f h
      exact absurd h hsafe.noNull
    | ok c => exact nullFree_of_returns h
  · intro hdistinct hfree
    exact allQuiet_of_distinctNames hdistinct hfree.layouts

end
section
open Json

def unregistered : Json := object [("name", string "ghost"), ("type", string "Ghost")]

def ghostConfig : Json := object
  [("connections", array [object [("dst", string "ghost.in"), ("src", string "cpu.out")]]),
   ("modules", array [object [("name", string "cpu"), ("type", string "CPUSim")], unregistered])]

def placedGhost : Json := object
  [("connections", array []),
   ("modules", array [object [("layout", object [("x", int 1), ("y", int 2)]),
     ("name", string "ghost"), ("type", string "Ghost")]])]

def configuredCpu : Json := object
  [("connections", array [object [("dst", string "cpu.in"), ("src", string "cpu.out")]]),
   ("modules", array
    [object [("config", string "cpu.json"), ("name", string "cpu"), ("type", string "CPUSim")]])]

def faultOf {α : Type} : Except Fault α → Option Fault
  | .error f => some f
  | .ok _ => none

theorem noNull_iff {α : Type} (x : Except Fault α) : NoNull x ↔ faultOf x ≠ some .nullDeref := by
  cases x <;> simp [NoNull, faultOf]

theorem nullSafe_of_nullFree_demo : NullSafe oneLine 0 ghostConfig (typesWith none) := by
  obtain ⟨hsafe, -, hquiet⟩ := nullSafe_of_nullFree oneLine 0 ghostConfig (typesWith none)
  have hreturns : (instantiateFinal oneLine (instantiateAll oneLine 0) ghostConfig
      (typesWith none)).isOk := by decide +kernel
  have hrun : instantiateFinal oneLine (instantiateAll oneLine 0) ghostConfig (typesWith none) =
      .ok (finished oneLine 0 ghostConfig (typesWith none)) := eq_ok_valueOr hreturns
  have hfree : NullFree oneLine 0 ghostConfig (typesWith none) := nullFree_of_returns hrun
  have hdistinct : DistinctNames (ghostConfig.entries "modules") := by
    apply List.pairwise_pair.mpr
    intro n hcpu hghost
    have hcpu : "cpu" = n := Json.string.inj (Except.ok.inj hcpu)
    have hghost : "ghost" = n := Json.string.inj (Except.ok.inj hghost)
    exact absurd (hcpu.trans hghost.symm) (by decide)
  exact hsafe ⟨hfree, hquiet hdistinct hfree⟩

/-- The unregistered entry with a position, and the plain object with a configuration. -/
theorem null_dereferenced :
    ¬ NullSafe oneLine 0 placedGhost (typesWith none) ∧
    ¬ NullSafe oneLine 0 configuredCpu (typesWith none) := by
  have h₁ : ¬ NoNull (instantiateFinal oneLine (instantiateAll oneLine 0) placedGhost
      (typesWith none)) := by
    rw [noNull_iff]
    decide +kernel
  have h₂ : ¬ NoNull (instantiateFinal oneLine (instantiateAll oneLine 0) configuredCpu
      (typesWith none)) := by
    rw [noNull_iff]
    decide +kernel
  exact ⟨fun h => h₁ h.noNull, fun h => h₂ h.noNull⟩

end
end GemSc
