import GemSc.Factory.NullRuns

/-! Modules inside of modules: instantiating them comes to an end when no configuration is nested in
itself, and returns only then. -/

namespace GemSc
open ExceptFold

def nestedConfig (env : Env) (mod : Json) : Option Json :=
  match mod.index "config" with
  | .ok (.string file) => (env.files file).join
  | _ => none

def nestedConfigs (env : Env) (cfg : Json) : List Json :=
  match env.loadAndInclude cfg with
  | .ok finalConfig => (finalConfig.entries "modules").filterMap (nestedConfig env)
  | .error _ => []

/-- The result no longer depends on the fuel from `depth` on. -/
def SettledFrom (env : Env) (cfg : Json) (depth : ℕ) : Prop :=
  ∀ fuel, depth ≤ fuel → ∀ w, instantiateAll env fuel cfg w = instantiateAll env depth cfg w

namespace Call
variable {env : Env} {n₁ n₂ : Nested} {mod cfg : Json} {c c' : Call} {w : World}

theorem instantiateModule_congr (h : ∀ cfg', nestedConfig env mod = some cfg' → n₁ cfg' = n₂ cfg')
    (c : Call) : instantiateModule env n₁ c mod = instantiateModule env n₂ c mod := by
  unfold instantiateModule
  by_cases hc : mod.contains "config" = true
  · rw [if_pos hc, if_pos hc]
    refine bind_congr fun nameField => bind_congr fun name => ?_
    cases c.moduleInstances.lookup name with
    | none => rfl
    | some o =>
      cases o with
      | none => rfl
      | some m =>
        unfold nestedConfig at h
        cases hfield : mod.index "config" with
        | error e => rfl
        | ok field =>
          rw [hfield] at h
          cases field with
          | string file =>
            cases hfile : env.files file with
            | none => simp only [Json.getString, bind, Except.bind, hfile]
            | some parsed =>
              cases parsed with
              | none => simp only [Json.getString, bind, Except.bind, hfile]
              | some cfg' =>
                have heq : n₁ cfg' = n₂ cfg' := h cfg' (by simp only [hfile, Option.join_some])
                simp only [Json.getString, bind, Except.bind, hfile, instantiate, heq]
          | _ => rfl
  · rw [if_neg hc, if_neg hc]

theorem instantiateModules_congr {mods : List Json}
    (h : ∀ mod ∈ mods, ∀ cfg', nestedConfig env mod = some cfg' → n₁ cfg' = n₂ cfg') (c : Call) :
    mods.foldlM (instantiateModule env n₁) c = mods.foldlM (instantiateModule env n₂) c := by
  induction mods generalizing c with
  | nil => rfl
  | cons mod mods ih =>
    rw [List.foldlM_cons, List.foldlM_cons, instantiateModule_congr (h mod (List.mem_cons_self ..))]
    exact bind_congr fun d => ih (fun m hm => h m (List.mem_cons_of_mem _ hm)) d

theorem prepare_congr (h : ∀ mod ∈ cfg.entries "modules", ∀ cfg',
    nestedConfig env mod = some cfg' → n₁ cfg' = n₂ cfg') (w : World) :
    prepare env n₁ cfg w = prepare env n₂ cfg w := by
  unfold prepare
  refine bind_congr fun c => ?_
  cases hmodules : cfg.index "modules" with
  | error e => rfl
  | ok modules =>
    rw [entries_of_index hmodules] at h
    change (modules.elements.foldlM createInstance c >>= _) =
      (modules.elements.foldlM createInstance c >>= _)
    exact bind_congr fun c₁ => bind_congr fun c₂ => instantiateModules_congr h c₂

end Call

variable {env : Env} {cfg : Json}

theorem instantiateAll_congr {fuel fuel' : ℕ}
    (h : ∀ cfg' ∈ nestedConfigs env cfg, instantiateAll env fuel cfg' = instantiateAll env fuel' cfg')
    (w : World) : instantiateAll env (fuel + 1) cfg w = instantiateAll env (fuel' + 1) cfg w := by
  unfold instantiateAll instantiateFinal
  cases hfinal : env.loadAndInclude cfg with
  | error e => rfl
  | ok finalConfig =>
    have hsame : ∀ mod ∈ finalConfig.entries "modules", ∀ cfg', nestedConfig env mod = some cfg' →
        instantiateAll env fuel cfg' = instantiateAll env fuel' cfg' := by
      intro mod hmod cfg' hcfg'
      refine h cfg' ?_
      unfold nestedConfigs
      rw [hfinal]
      exact List.mem_filterMap.mpr ⟨mod, hmod, hcfg'⟩
    change Call.prepare .. >>= _ = Call.prepare .. >>= _
    rw [Call.prepare_congr hsame]

theorem SettledFrom.mono {depth depth' : ℕ} (h : SettledFrom env cfg depth) (hle : depth ≤ depth') :
    SettledFrom env cfg depth' := fun fuel hfuel w =>
  (h fuel (hle.trans hfuel) w).trans (h depth' hle w).symm

theorem exists_settled_all {cfgs : List Json} (h : ∀ cfg ∈ cfgs, ∃ depth, SettledFrom env cfg depth) :
    ∃ depth, ∀ cfg ∈ cfgs, SettledFrom env cfg depth := by
  induction cfgs with
  | nil => exact ⟨0, fun _ hcfg => absurd hcfg List.not_mem_nil⟩
  | cons cfg cfgs ih =>
    obtain ⟨depth, hdepth⟩ := h cfg (List.mem_cons_self ..)
    obtain ⟨depth', hdepth'⟩ := ih fun cfg' hcfg' => h cfg' (List.mem_cons_of_mem _ hcfg')
    refine ⟨max depth depth', fun cfg' hcfg' => ?_⟩
    rcases List.mem_cons.mp hcfg' with rfl | hcfg'
    · exact hdepth.mono (le_max_left ..)
    · exact (hdepth' cfg' hcfg').mono (le_max_right ..)

/-- Modules that do not nest in a cycle are instantiated, or something is wrong with one of them; in
either case the recursion ends. -/
theorem instantiateAll_settles (h : Acc (fun cfg' cfg => cfg' ∈ nestedConfigs env cfg) cfg) :
    ∃ depth, SettledFrom env cfg depth := by
  induction h with
  | intro cfg _ ih =>
    obtain ⟨depth, hdepth⟩ := exists_settled_all ih
    refine ⟨depth + 1, fun fuel hfuel w => ?_⟩
    obtain ⟨fuel, rfl⟩ : ∃ n, fuel = n + 1 := ⟨fuel - 1, by omega⟩
    exact instantiateAll_congr (fun cfg' hcfg' => funext fun w' =>
      hdepth cfg' hcfg' fuel (by omega) w') w

def Provides (types : Set String) (reg : Registry) : Prop := ∀ type ∈ types, (reg.modules type).isSome

def KeepsProvided (types : Set String) (env : Env) : Prop :=
  ∀ path reg, Provides types reg → Provides types (env.loadPlugin path reg)

def CallsProvide (types : Set String) (nested : Nested) : Prop :=
  ∀ cfg w c, nested cfg w = .ok c → Provides types w.registry → Provides types c.registry

def NestsModule (env : Env) (types : Set String) (cfg cfg' : Json) : Prop :=
  ∃ finalConfig, env.loadAndInclude cfg = .ok finalConfig ∧
    ∃ mod ∈ finalConfig.entries "modules", mod.contains "config" ∧
      nestedConfig env mod = some cfg' ∧ ∃ name, ∃ type ∈ types, IsEntry mod name type

namespace Call
variable {types : Set String} {nested : Nested} {mod cfg' : Json} {c c' : Call} {w : World}

theorem nestedConfig_eq_some (h : nestedConfig env mod = some cfg') : ∃ file,
    mod.index "config" = .ok (.string file) ∧ env.files file = some (some cfg') := by
  unfold nestedConfig at h
  split at h
  · next file hfile => exact ⟨file, hfile, Option.join_eq_some_iff.mp h⟩
  · cases h

theorem instantiateModule_nests {name : String} {m : ObjPtr} (hconfig : mod.contains "config")
    (hname : mod.index "name" = .ok (.string name))
    (hm : c.moduleInstances.lookup name = some (some m)) (hcfg : nestedConfig env mod = some cfg') :
    instantiateModule env nested c mod = c.instantiate nested m cfg' := by
  obtain ⟨file, hfield, hfile⟩ := nestedConfig_eq_some hcfg
  unfold instantiateModule
  simp only [hconfig, if_true, hname, hfield, hfile, hm, Json.getString, bind, Except.bind]

theorem provides_registryFor (hkeeps : KeepsProvided types env) (hw : Provides types w.registry)
    (cfg : Json) : Provides types (registryFor env cfg w) := by
  unfold registryFor
  cases h : loadPlugins env cfg { toWorld := w } with
  | error e => exact hw
  | ok c =>
    unfold loadPlugins at h
    split at h
    · obtain ⟨plugins, -, h⟩ := bind_eq_ok.mp h
      apply foldlM_invariant (fun d : Call => Provides types d.registry) h hw
      intro plugin _ d e hd hstep
      obtain ⟨path, -, hstep⟩ := bind_eq_ok.mp hstep
      cases hstep
      exact hkeeps path d.registry hd
    · cases h
      exact hw

theorem provides_instantiateModule (hn : CallsProvide types nested)
    (h : instantiateModule env nested c mod = .ok c') (hc : Provides types c.registry) :
    Provides types c'.registry := by
  rcases instantiateModule_ok h with
    ⟨rfl, -⟩ | ⟨name, -, -, rfl⟩ | ⟨name, m, file, cfg, -, -, -, -, hinst⟩
  · exact hc
  · exact hc
  · obtain ⟨inner, sm, hinner, -, rfl⟩ := instantiate_ok hinst
    exact hn cfg c.toWorld inner hinner hc

theorem provides_instantiateModules (hn : CallsProvide types nested) {mods : List Json}
    (h : mods.foldlM (instantiateModule env nested) c = .ok c') (hc : Provides types c.registry) :
    Provides types c'.registry :=
  foldlM_invariant (fun d : Call => Provides types d.registry) h hc
    fun _ _ _ _ hd hstep => provides_instantiateModule hn hstep hd

end Call

variable {types : Set String} {nested : Nested} {mod cfg' finalConfig : Json} {c : Call} {w : World}

theorem provides_instantiateFinal (hkeeps : KeepsProvided types env) (hn : CallsProvide types nested)
    (h : instantiateFinal env nested finalConfig w = .ok c) (hw : Provides types w.registry) :
    Provides types c.registry := by
  obtain ⟨c₄, hprepare, hwire⟩ := bind_eq_ok.mp h
  obtain ⟨modules, c₁, defs, -, hcreate, -, hmodules⟩ := Call.prepare_ok hprepare
  have hregistry := (Call.tabled_createInstances hcreate).registry
  have hprovides : Provides types c₁.registry := by
    rw [hregistry]
    exact Call.provides_registryFor hkeeps hw finalConfig
  have h₄ : Provides types c₄.registry := Call.provides_instantiateModules hn hmodules hprovides
  rw [(Call.rewired_wirePorts Call.avoids_empty hwire).registry]
  exact h₄

theorem exists_call_of_nested (hkeeps : KeepsProvided types env) (hn : CallsProvide types nested)
    (h : instantiateFinal env nested finalConfig w = .ok c) (hw : Provides types w.registry)
    (hmod : mod ∈ finalConfig.entries "modules") (hconfig : mod.contains "config")
    (hcfg : nestedConfig env mod = some cfg') {name type : String} (htype : type ∈ types)
    (hentry : IsEntry mod name type) :
    ∃ w' c', nested cfg' w' = .ok c' ∧ Provides types w'.registry := by
  obtain ⟨c₄, hprepare, -⟩ := bind_eq_ok.mp h
  obtain ⟨modules, c₁, defs, hindex, hcreate, -, hmodules⟩ := Call.prepare_ok hprepare
  rw [entries_of_index hindex] at hmod
  have htabled := Call.tabled_createInstances hcreate
  have hprovides : Provides types (registryFor env finalConfig w) :=
    Call.provides_registryFor hkeeps hw finalConfig
  obtain ⟨m, hm⟩ : ∃ m, c₁.moduleInstances.lookup name = some (some m) := by
    have hsome := (htabled.module_iff name).mpr ⟨mod, hmod, type, hentry, hprovides type htype⟩
    obtain ⟨o, ho⟩ := Option.isSome_iff_exists.mp hsome
    cases o with
    | none => exact absurd ho (htabled.module_ne name)
    | some m => exact ⟨m, ho⟩
  obtain ⟨pre, post, d, e, -, hpre, hstep⟩ := foldlM_step hmodules hmod
  have hconfigured := Call.configured_instantiateModules htabled.module_ne hpre
  have hd : d.moduleInstances.lookup name = some (some m) := (hconfigured.module_iff name m).mpr hm
  have hregistry : Provides types d.registry := by
    refine Call.provides_instantiateModules hn hpre ?_
    change Provides types c₁.registry
    rw [htabled.registry]
    exact hprovides
  rw [Call.instantiateModule_nests hconfig hentry.name hd hcfg] at hstep
  obtain ⟨inner, -, hinner, -, -⟩ := Call.instantiate_ok hstep
  exact ⟨d.toWorld, inner, hinner, hregistry⟩

theorem callsProvide_instantiateAll (hkeeps : KeepsProvided types env) (fuel : ℕ) :
    CallsProvide types (instantiateAll env fuel) := by
  induction fuel with
  | zero => exact fun cfg w c h => nomatch h
  | succ fuel ih =>
    intro cfg w c h hw
    obtain ⟨finalConfig, -, h⟩ := bind_eq_ok.mp h
    exact provides_instantiateFinal hkeeps ih h hw

/-- A configuration whose modules nest in a cycle is never instantiated: where a call returns, no
module is nested in itself, over any number of files. -/
theorem nested_acc_of_returns (hkeeps : KeepsProvided types env) {fuel : ℕ}
    (h : instantiateAll env fuel cfg w = .ok c) (hw : Provides types w.registry) :
    Acc (fun cfg' cfg => NestsModule env types cfg cfg') cfg := by
  induction fuel generalizing cfg w c with
  | zero => cases h
  | succ fuel ih =>
    obtain ⟨finalConfig, hfinal, h⟩ := bind_eq_ok.mp h
    refine Acc.intro cfg fun cfg' hnests => ?_
    obtain ⟨finalConfig', hfinal', mod, hmod, hconfig, hcfg, name, type, htype, hentry⟩ := hnests
    rw [hfinal] at hfinal'
    cases hfinal'
    obtain ⟨w', c', hcall, hw'⟩ := exists_call_of_nested hkeeps
      (callsProvide_instantiateAll hkeeps fuel) h hw hmod hconfig hcfg htype hentry
    exact ih hcall hw'

section
open Json

def clusterTypes : World where
  registry :=
    { modules := fun t => if t = "CpuCluster" then some fun _ => none else none
      objects := fun t => if t = "CPUSim" then some fun _ => none else none }

def clusterFile : Json := object
  [("connections", array []),
   ("modules", array [object [("name", string "cpu0"), ("type", string "CPUSim")]])]

def clusterConfig : Json := object
  [("connections", array []),
   ("modules", array
    [object [("config", string "cluster.json"), ("name", string "cluster0"),
      ("type", string "CpuCluster")]])]

def clusterEnv : Env :=
  .plain (fun file => if file = "cluster.json" then some (some clusterFile) else none) dotStarRegex

theorem instantiateAll_settles_cluster : ∃ depth, SettledFrom clusterEnv clusterConfig depth := by
  apply instantiateAll_settles
  refine Acc.intro _ fun cfg' hcfg' => ?_
  have hfile : nestedConfigs clusterEnv clusterConfig = [clusterFile] := rfl
  rw [hfile, List.mem_singleton] at hcfg'
  subst hcfg'
  refine Acc.intro _ fun cfg' hcfg' => ?_
  have hnone : nestedConfigs clusterEnv clusterFile = [] := rfl
  rw [hnone] at hcfg'
  exact absurd hcfg' List.not_mem_nil

theorem nested_acc_of_returns_cluster :
    Acc (fun cfg' cfg => NestsModule clusterEnv {"CpuCluster"} cfg cfg') clusterConfig := by
  have hreturns : (instantiateAll clusterEnv 2 clusterConfig clusterTypes).isOk := by decide +kernel
  refine nested_acc_of_returns (fun _ _ h => h) (eq_ok_valueOr hreturns (d := { toWorld := clusterTypes }))
    fun type htype => ?_
  rw [Set.mem_singleton_iff.mp htype]
  rfl

end
end GemSc
