import GemSc.Factory.NullSafety

/-! When a call dereferences null: by an entry that asks for the position of an object
that was never made, or by a connection that reads a module which is not one. -/

namespace GemSc
open ExceptFold

def Makes (reg : Registry) (mods : List Json) (name : String) : Prop :=
  ∃ mod ∈ mods, ∃ type, IsEntry mod name type ∧ Registered reg type

def MakesModule (reg : Registry) (mods : List Json) (name : String) : Prop :=
  ∃ mod ∈ mods, ∃ type, IsEntry mod name type ∧ (reg.modules type).isSome

/-- An entry places an object, and no entry so far has made one of its name. -/
def MisplacedLayout (reg : Registry) (mods : List Json) : Prop :=
  ∃ pre mod post name type x y, mods = pre ++ mod :: post ∧ IsEntry mod name type ∧
    LayoutAt mod x y ∧ ¬ Makes reg (pre ++ [mod]) name

/-- An entry of this name has a configuration, and no entry makes a module of the name. -/
def NullModule (reg : Registry) (mods : List Json) (name : String) : Prop :=
  (∃ mod ∈ mods, Call.HasConfig mod name) ∧ ¬ MakesModule reg mods name

namespace Call
variable {env : Env} {nested : Nested} {cfg mod : Json} {mods conns : List Json} {w : World}
variable {reg : Registry} {made : Instances} {c c' : Call}

theorem HasConfig.unique {n n' : String} (h : HasConfig mod n) (h' : HasConfig mod n') : n = n' := by
  simpa using h.2.symm.trans h'.2

structure Configured (made : Instances) (mods : List Json) (c : Call) : Prop where
  module_iff : ∀ n m, c.moduleInstances.lookup n = some (some m) ↔ made.lookup n = some (some m)
  null_iff : ∀ n, c.moduleInstances.lookup n = some none ↔
    (∃ mod ∈ mods, HasConfig mod n) ∧ made.lookup n = none

theorem Configured.keep (h : c.Configured made mods) (hmod : c'.moduleInstances = c.moduleInstances)
    (hsome : ∀ n, HasConfig mod n → (c.moduleInstances.lookup n).isSome) :
    c'.Configured made (mods ++ [mod]) := by
  refine ⟨fun n m => by rw [hmod, h.module_iff], fun n => ?_⟩
  rw [hmod, h.null_iff, exists_mem_concat]
  refine ⟨fun hn => ⟨.inr hn.1, hn.2⟩, ?_⟩
  rintro ⟨hconfig | hconfig, hnone⟩
  · obtain ⟨m, hm⟩ := Option.isSome_iff_exists.mp (hsome n hconfig)
    cases m with
    | none => exact (h.null_iff n).mp hm
    | some m =>
      rw [(h.module_iff n m).mp hm] at hnone
      cases hnone
  · exact ⟨hconfig, hnone⟩

theorem Configured.addNull (h : c.Configured made mods)
    (hnotnull : ∀ n, made.lookup n ≠ some none) {name : String}
    (hconfig : HasConfig mod name) (hnone : c.moduleInstances.lookup name = none) :
    Configured made (mods ++ [mod])
      { c with moduleInstances := (name, none) :: c.moduleInstances } := by
  -- a name that phase 2 gave a module still has it
  have hmade : made.lookup name = none := by
    cases hm : made.lookup name with
    | none => rfl
    | some m =>
      cases m with
      | none => exact absurd hm (hnotnull name)
      | some m =>
        rw [(h.module_iff name m).mpr hm] at hnone
        cases hnone
  refine ⟨fun n m => ?_, fun n => ?_⟩
  · rw [Assignments.lookup_cons_some, h.module_iff]
    constructor
    · rintro (⟨-, hnull⟩ | ⟨-, hm⟩)
      · cases hnull
      · exact hm
    · rintro hm
      refine .inr ⟨?_, hm⟩
      rintro rfl
      rw [hmade] at hm
      cases hm
  · rw [Assignments.lookup_cons_some, h.null_iff, exists_mem_concat]
    constructor
    · rintro (⟨rfl, -⟩ | ⟨-, hn, hnone'⟩)
      · exact ⟨.inl hconfig, hmade⟩
      · exact ⟨.inr hn, hnone'⟩
    · rintro ⟨hn | hn, hnone'⟩
      · exact .inl ⟨hn.unique hconfig, rfl⟩
      · by_cases heq : n = name
        · exact .inl ⟨heq, rfl⟩
        · exact .inr ⟨heq, hn, hnone'⟩

theorem Configured.instantiateModule (h : c.Configured made mods)
    (hnotnull : ∀ n, made.lookup n ≠ some none)
    (hstep : Call.instantiateModule env nested c mod = .ok c') :
    c'.Configured made (mods ++ [mod]) := by
  rcases instantiateModule_ok hstep with
    ⟨rfl, hsome⟩ | ⟨name, hconfig, hnone, rfl⟩ | ⟨name, m, file, cfg, hconfig, hm, -, -, hinst⟩
  · exact h.keep rfl hsome
  · exact h.addNull hnotnull hconfig hnone
  · obtain ⟨inner, sm, -, -, rfl⟩ := instantiate_ok hinst
    refine h.keep rfl fun n hn => ?_
    rw [hn.unique hconfig, hm]
    rfl

theorem configured_instantiateModules {groups : Groups}
    (hnotnull : ∀ n, c.moduleInstances.lookup n ≠ some none)
    (h : mods.foldlM (Call.instantiateModule env nested) { c with groups := groups } = .ok c') :
    c'.Configured c.moduleInstances mods := by
  apply foldlM_invariant_prefix (fun pre d => Configured c.moduleInstances pre d) h
  · exact ⟨fun _ _ => .rfl, fun n => by simp [hnotnull]⟩
  · rintro pre mod post d e - hd hstep
    exact hd.instantiateModule hnotnull hstep

theorem null_iff_instantiateModules {groups : Groups} (htab : c.Tabled reg mods)
    (h : mods.foldlM (Call.instantiateModule env nested) { c with groups := groups } = .ok c')
    (n : String) : c'.moduleInstances.lookup n = some none ↔ NullModule reg mods n := by
  have hconf := configured_instantiateModules htab.module_ne h
  rw [hconf.null_iff, NullModule, MakesModule, ← htab.module_iff, Option.not_isSome_iff_eq_none]

theorem prepare_null_iff (h : prepare env nested cfg w = .ok c) (n : String) :
    c.moduleInstances.lookup n = some none ↔
      NullModule (registryFor env cfg w) (cfg.entries "modules") n := by
  obtain ⟨modules, c₁, defs, hmod, hcreate, -, hinst⟩ := prepare_ok h
  rw [entries_of_index hmod]
  exact null_iff_instantiateModules (tabled_createInstances hcreate) hinst n

theorem noNull_createInstances (hsafe : ¬ MisplacedLayout reg mods) :
    NoNull (mods.foldlM Call.createInstance { toWorld := { w with registry := reg } }) := by
  intro h
  obtain ⟨pre, mod, post, d, hmods, hpre, hstep⟩ := foldlM_eq_error.mp h
  obtain ⟨name, type, x, y, he, hlayout, hnone⟩ := createInstance_null hstep
  refine hsafe ⟨pre, mod, post, name, type, x, y, hmods, he, hlayout, fun hmakes => ?_⟩
  have hlocal := (Local.createInstances hpre).create name type
  obtain ⟨o, ho⟩ := Option.isSome_iff_exists.mp
    ((((tabled_createInstances hpre).create he).object name).mpr hmakes)
  cases o with
  | none => exact hlocal.not_null name ho
  | some p => simp [ho] at hnone

theorem not_misplacedLayout
    (h : mods.foldlM Call.createInstance { toWorld := { w with registry := reg } } = .ok c) :
    ¬ MisplacedLayout reg mods := by
  rintro ⟨pre, mod, post, name, type, x, y, rfl, he, hlayout, hnot⟩
  obtain ⟨d, hpre, hrest⟩ := foldlM_append_ok.mp h
  obtain ⟨e, hstep, -⟩ := foldlM_cons_ok.mp hrest
  rcases createInstance_ok hstep with ⟨-, hskip⟩ | ⟨name', type', he', hplace⟩
  · exact hskip name type he
  obtain ⟨rfl, rfl⟩ := he.unique he'
  rcases placeInstance_ok hplace with ⟨-, hno⟩ | ⟨-, -, p, -, hp, -⟩
  · exact hno x y hlayout
  · apply hnot
    apply (((tabled_createInstances hpre).create he).object name).mp
    rw [hp]
    rfl

def ReadsNull (env : Env) (conns : List Json) (c : Call) : Prop :=
  ∃ conn ∈ conns, ∃ name, c.Reads env conn name ∧ c.NullEnd name

theorem noNull_createPorts (hl : c.Local w) (hsafe : ¬ c.ReadsNull env conns) :
    NoNull (c.createPorts conns) := by
  refine NoNull.bind (NoNull.mapM fun conn hconn => ?_) fun infos _ => ?_
  · have hends : ∀ name, c.Reads env conn name → ¬ c.NullEnd name :=
      fun name hr hnull => hsafe ⟨conn, hconn, name, hr, hnull⟩
    exact noNull_portCreations hends
  · intro h
    obtain ⟨pre, info, post, d, -, hpre, hstep⟩ := foldlM_eq_error.mp h
    have hd := rewired_createPort_foldlM hl.avoids hpre
    exact noNull_createPort (hl.rewired hd).not_null info hstep

theorem noNull_wirePorts (hl : c.Local w) (hsafe : ¬ c.ReadsNull env (cfg.entries "connections")) :
    NoNull (c.wirePorts env cfg) := by
  refine NoNull.bind (NoNull.index _ _) fun conns hconns => ?_
  rw [entries_of_index hconns] at hsafe
  refine NoNull.bind (noNull_createPorts hl hsafe) fun c₅ hc₅ => ?_
  intro h
  obtain ⟨pre, conn, post, d, hsplit, hpre, hstep⟩ := foldlM_eq_error.mp h
  obtain ⟨infos, -, hcreate⟩ := createPorts_ok hc₅
  have h₅ := rewired_createPort_foldlM hl.avoids hcreate
  have hd := h₅.trans (rewired_connect_foldlM (hl.rewired h₅).avoids hpre)
  refine noNull_connect (hl.rewired hd).not_null (fun name hr hnull => hsafe ⟨conn, ?_, name, ?_, ?_⟩)
    hstep
  · simp [hsplit]
  · rwa [Reads, hd.resolved] at hr
  · rwa [NullEnd, hd.moduleInstances] at hnull

theorem not_nullEnd {spec : String} {e : Option Endpoint} (h : c.findEndpoint spec = .ok e) :
    ¬ c.NullEnd spec := by
  intro hnull
  cases h.symm.trans (findEndpoint_error.mpr ⟨rfl, hnull⟩)

theorem not_nullEnd_of_findPort {up : Bool} {name : String} {r : Option PortRef}
    (h : c.findPort up name = .ok r) : ¬ c.NullEnd name := by
  obtain ⟨e, he, -⟩ := bind_eq_ok.mp h
  exact not_nullEnd he

theorem not_nullEnd_of_endpointCreation {key spec : String} {up plain : Bool} {conn : Json}
    {infos : List PortCreationInfo} (h : endpointCreation key up plain c conn spec = .ok infos) :
    ¬ c.NullEnd spec := by
  obtain ⟨e, he, -⟩ := bind_eq_ok.mp h
  exact not_nullEnd he

theorem not_nullEnd_of_linkNames {latency : ℤ} {srcs dsts : List String}
    (h : c.linkNames latency srcs dsts = .ok c') :
    (∀ n ∈ srcs, ¬ c.NullEnd n) ∧ (srcs ≠ [] → ∀ n ∈ dsts, ¬ c.NullEnd n) := by
  constructor
  · intro n hn
    obtain ⟨pre, post, d, e, -, hpre, hstep⟩ := foldlM_step h hn
    obtain rfl := linkNames_ok hpre
    obtain ⟨r, hr, -⟩ := bind_eq_ok.mp hstep
    exact not_nullEnd_of_findPort hr
  · intro hne n hn
    obtain ⟨src, hsrc⟩ := List.exists_mem_of_ne_nil srcs hne
    obtain ⟨pre, post, d, e, -, hpre, hstep⟩ := foldlM_step h hsrc
    obtain rfl := linkNames_ok hpre
    obtain ⟨r, -, hstep⟩ := bind_eq_ok.mp hstep
    obtain ⟨pre', post', d', e', -, hpre', hstep'⟩ := foldlM_step hstep hn
    obtain rfl := linkDsts_ok hpre'
    obtain ⟨r', hr', -⟩ := bind_eq_ok.mp hstep'
    exact not_nullEnd_of_findPort hr'

theorem not_nullEnd_of_reads {conn : Json} {infos : List PortCreationInfo} {d d' : Call}
    (hports : c.portCreations conn = .ok infos) (hd : Rewired (Set.Iio w.next) c d)
    (hconn : d.connect env conn = .ok d') {name : String} (hr : c.Reads env conn name) :
    ¬ c.NullEnd name := by
  obtain ⟨s, hs, hname⟩ := hr
  obtain ⟨src, dst, hsrc, hdst, -⟩ := portCreations_of_read hports hs
  rcases hname with rfl | rfl | hname
  · exact not_nullEnd_of_endpointCreation hsrc
  · exact not_nullEnd_of_endpointCreation hdst
  rcases connect_ok hconn with ⟨hnone, -⟩ | ⟨s', excl, srcs, dsts, hs', hexcl, hsrcs, hdsts, hlink⟩
  · cases hs.symm.trans hnone
  obtain rfl := Option.some.inj (Except.ok.inj (hs.symm.trans hs'))
  have hnull : d.NullEnd name ↔ c.NullEnd name := by rw [NullEnd, NullEnd, hd.moduleInstances]
  rw [hd.resolveNames] at hsrcs hdsts
  have hs₁ : c.resolved env conn s.src = srcs := resolved_of_ok hexcl hsrcs
  have hs₂ : c.resolved env conn s.dst = dsts := resolved_of_ok hexcl hdsts
  rw [← hnull]
  rcases hname with hname | ⟨hne, hname⟩
  · exact (not_nullEnd_of_linkNames hlink).1 name (hs₁ ▸ hname)
  · exact (not_nullEnd_of_linkNames hlink).2 (hs₁ ▸ hne) name (hs₂ ▸ hname)

theorem not_readsNull (hl : c.Local w) (h : c.wirePorts env cfg = .ok c') :
    ¬ c.ReadsNull env (cfg.entries "connections") := by
  obtain ⟨conns, c₅, hconns, hports, hconnect⟩ := wirePorts_ok h
  obtain ⟨infoss, hmapM, hcreate⟩ := createPorts_ok hports
  rintro ⟨conn, hconn, name, hr, hnull⟩
  rw [entries_of_index hconns] at hconn
  obtain ⟨infos, -, hinfos⟩ := mem_of_mapM_ok hmapM hconn
  obtain ⟨pre, post, d, d', -, hpre, hstep⟩ := foldlM_step hconnect hconn
  have h₅ := rewired_createPort_foldlM hl.avoids hcreate
  have hd := h₅.trans (rewired_connect_foldlM (hl.rewired h₅).avoids hpre)
  exact not_nullEnd_of_reads hinfos hd hstep hr hnull

end Call

/-- Some name that a connection reads, with a port, stands for a module that is null. -/
def ReadsNullModule (env : Env) (cfg : Json) (w : World) (c : Call) : Prop :=
  ∃ conn ∈ cfg.entries "connections", ∃ name, c.Reads env conn name ∧ (parsePortSpec name).2 ≠ "" ∧
    NullModule (registryFor env cfg w) (cfg.entries "modules") (parsePortSpec name).1

section
variable {env : Env} {fuel : ℕ} {cfg : Json} {w : World} {c : Call}

theorem readsNullModule_iff {nested : Nested} (h : Call.prepare env nested cfg w = .ok c) :
    ReadsNullModule env cfg w c ↔ c.ReadsNull env (cfg.entries "connections") := by
  unfold ReadsNullModule Call.ReadsNull Call.NullEnd
  simp only [Call.prepare_null_iff h]

structure NullFree (env : Env) (fuel : ℕ) (cfg : Json) (w : World) : Prop where
  layouts : ¬ MisplacedLayout (registryFor env cfg w) (cfg.entries "modules")
  reads : ∀ c, Call.prepare env (instantiateAll env fuel) cfg w = .ok c →
    ¬ ReadsNullModule env cfg w c

theorem noNull_prepare {nested : Nested}
    (h : ¬ MisplacedLayout (registryFor env cfg w) (cfg.entries "modules")) :
    NoNull (Call.prepare env nested cfg w) := by
  refine NoNull.bind (Call.noNull_loadPlugins cfg) fun c₀ hplug => ?_
  obtain rfl := Call.loadPlugins_start hplug
  refine NoNull.bind (NoNull.index _ _) fun modules hmod => ?_
  rw [entries_of_index hmod] at h
  refine NoNull.bind (Call.noNull_createInstances h) fun c₁ _ => ?_
  refine NoNull.bind (Call.noNull_defineGroups cfg) fun c₂ _ => ?_
  exact NoNull.foldlM fun _ _ _ => Call.noNull_instantiateModule

theorem NullFree.noNull (h : NullFree env fuel cfg w) :
    NoNull (instantiateFinal env (instantiateAll env fuel) cfg w) := by
  refine NoNull.bind (noNull_prepare h.layouts) fun c hc => ?_
  apply Call.noNull_wirePorts (Call.Local.prepare (instantiateAll_local env fuel) hc)
  rw [← readsNullModule_iff hc]
  exact h.reads c hc

theorem nullFree_of_returns (h : instantiateFinal env (instantiateAll env fuel) cfg w = .ok c) :
    NullFree env fuel cfg w := by
  obtain ⟨c₄, hprep, hwire⟩ := bind_eq_ok.mp h
  constructor
  · obtain ⟨modules, c₁, defs, hmod, hcreate, -⟩ := Call.prepare_ok hprep
    rw [entries_of_index hmod]
    exact Call.not_misplacedLayout hcreate
  · intro c hc
    obtain rfl := Except.ok.inj (hc.symm.trans hprep)
    rw [readsNullModule_iff hc]
    exact Call.not_readsNull (Call.Local.prepare (instantiateAll_local env fuel) hc) hwire

end
end GemSc
