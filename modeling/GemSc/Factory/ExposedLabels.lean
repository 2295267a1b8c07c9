import GemSc.Factory.Hierarchy

/-! The labels that a module exposes, for the two ends of an outer connection. The module keeps
its outputs and inputs apart; the one lookup that serves both ends goes through both lists. -/

namespace GemSc
open ExceptFold

/-- The configuration lists the path under the label, in the given section; entries in which
either field is empty do not count. -/
def ListedIn (key : String) (cfg : Json) (label path : String) : Prop :=
  path ≠ "" ∧ label ≠ "" ∧ ∃ item ∈ cfg.entries key,
    item.value Json.getString "internal" "" = .ok path ∧
    item.value Json.getString "external" "" = .ok label

def Listed (key : String) (cfgs : List Json) (label path : String) : Prop :=
  ∃ cfg ∈ cfgs, ListedIn key cfg label path

theorem Listed.ne_empty {key label path : String} {cfgs : List Json}
    (h : Listed key cfgs label path) : path ≠ "" := by
  obtain ⟨_, _, hlisted⟩ := h
  exact hlisted.1

namespace SimModule

/-- A module as its constructor and then `instantiate`, with these configurations, leave it. -/
inductive Configured : List Json → SimModule → Prop
  | new : Configured [] {}
  | instantiate {cfgs : List Json} {m m' : SimModule} {cfg : Json} (internal : Instances) :
      Configured cfgs m → m.parsePortConfigs cfg = .ok m' →
      Configured (cfgs ++ [cfg]) { m' with internalInstances := internal }

variable {m m' : SimModule} {configs : List ExposedPortConfig} {key label path : String}

theorem mem_of_findIn (h : findIn configs label = some path) : ⟨path, label⟩ ∈ configs := by
  obtain ⟨config, hfind, rfl⟩ := Option.map_eq_some_iff.mp h
  have hlabel := List.find?_some hfind
  simp only [beq_iff_eq] at hlabel
  subst hlabel
  exact List.mem_of_find?_eq_some hfind

theorem findIn_eq_none : findIn configs label = none ↔ ∀ path, ⟨path, label⟩ ∉ configs := by
  rw [findIn, Option.map_eq_none_iff, List.find?_eq_none]
  constructor
  · intro h path hmem
    exact h _ hmem (beq_self_eq_true label)
  · intro h config hmem heq
    obtain rfl := eq_of_beq heq
    exact h config.internalPath hmem

theorem entries_of_contains {cfg list : Json} (hidx : cfg.index key = .ok list) :
    cfg.entries key = list.elements := by
  rw [Json.entries, hidx]

theorem entries_of_not_contains {cfg : Json} (h : cfg.contains key = false) :
    cfg.entries key = [] := by
  cases cfg with
  | object members =>
    have hnone : members.lookup key = none := by simpa [Json.contains] using h
    simp [Json.entries, Json.index, hnone, Json.elements]
  | _ => rfl

def readExposed (item : Json) : Except Fault ExposedPortConfig := do
  let internalPath ← item.value Json.getString "internal" ""
  let externalLabel ← item.value Json.getString "external" ""
  pure ⟨internalPath, externalLabel⟩

theorem readExposed_eq_ok {item : Json} {config : ExposedPortConfig} :
    readExposed item = .ok config ↔
      item.value Json.getString "internal" "" = .ok config.internalPath ∧
      item.value Json.getString "external" "" = .ok config.externalLabel := by
  rw [readExposed, bind_eq_ok]
  constructor
  · rintro ⟨internalPath, hinternal, h⟩
    obtain ⟨externalLabel, hexternal, rfl⟩ := bind_pure_eq_ok.mp h
    exact ⟨hinternal, hexternal⟩
  · rintro ⟨hinternal, hexternal⟩
    exact ⟨_, hinternal, bind_pure_eq_ok.mpr ⟨_, hexternal, rfl⟩⟩

theorem mem_parsePorts {cfg : Json} (h : parsePorts key cfg = .ok configs) :
    ⟨path, label⟩ ∈ configs ↔ ListedIn key cfg label path := by
  rw [ListedIn]
  by_cases hkey : cfg.contains key
  · rw [parsePorts, if_pos hkey] at h
    obtain ⟨list, hlist, h⟩ := bind_eq_ok.mp h
    obtain ⟨all, hall, h⟩ := bind_eq_ok.mp h
    have hall : list.elements.mapM readExposed = .ok all := hall
    obtain rfl := Except.ok.inj h
    rw [entries_of_contains hlist, List.mem_filter]
    constructor
    · rintro ⟨hmem, hne⟩
      obtain ⟨item, hitem, hread⟩ := exists_mem_of_mapM_ok hall hmem
      simp only [Bool.and_eq_true, bne_iff_ne] at hne
      exact ⟨hne.1, hne.2, item, hitem, readExposed_eq_ok.mp hread⟩
    · rintro ⟨hpath, hlabel, item, hitem, hfields⟩
      obtain ⟨config, hconfig, hread⟩ := mem_of_mapM_ok hall hitem
      have hsame : readExposed item = .ok ⟨path, label⟩ := readExposed_eq_ok.mpr hfields
      obtain rfl := Except.ok.inj (hread.symm.trans hsame)
      exact ⟨hconfig, by simp [hpath, hlabel]⟩
  · rw [parsePorts, if_neg hkey] at h
    obtain rfl := Except.ok.inj h
    rw [entries_of_not_contains (Bool.eq_false_iff.mpr hkey)]
    simp

theorem lookup_exposeAll {map : List (String × String)} :
    ((exposeAll map configs).lookup label).isSome ↔
      (map.lookup label).isSome ∨ ∃ path, ⟨path, label⟩ ∈ configs := by
  induction configs generalizing map with
  | nil => simp [exposeAll]
  | cons config configs ih =>
    have hhead : (∃ path, (⟨path, label⟩ : ExposedPortConfig) = config) ↔
        label = config.externalLabel :=
      ⟨fun ⟨_, h⟩ => h ▸ rfl, fun h => ⟨config.internalPath, h ▸ rfl⟩⟩
    rw [exposeAll, List.foldl_cons]
    refine ih.trans ?_
    simp only [Assignments.lookup_cons_isSome, List.mem_cons, exists_or, hhead]
    tauto

structure Keeps (cfgs : List Json) (m : SimModule) : Prop where
  outputs : ∀ label path, ⟨path, label⟩ ∈ m.outputConfigs ↔ Listed "outputs" cfgs label path
  inputs : ∀ label path, ⟨path, label⟩ ∈ m.inputConfigs ↔ Listed "inputs" cfgs label path
  exposed : ∀ label, m.isExposedPort label = true ↔
    (∃ path, ⟨path, label⟩ ∈ m.outputConfigs) ∨ ∃ path, ⟨path, label⟩ ∈ m.inputConfigs

theorem listed_concat {cfgs : List Json} {cfg : Json} : Listed key (cfgs ++ [cfg]) label path ↔
    Listed key cfgs label path ∨ ListedIn key cfg label path := by
  simp only [Listed, List.mem_append, List.mem_singleton, or_and_right, exists_or, exists_eq_left]

theorem Configured.keeps {cfgs : List Json} (h : Configured cfgs m) : m.Keeps cfgs := by
  induction h with
  | new => exact ⟨by simp [Listed], by simp [Listed], by simp [isExposedPort]⟩
  | @instantiate cfgs m m' cfg internal _ hparse ih =>
    obtain ⟨outs, houts, hparse⟩ := bind_eq_ok.mp hparse
    obtain ⟨ins, hins, hparse⟩ := bind_eq_ok.mp hparse
    obtain rfl := Except.ok.inj hparse
    refine ⟨?_, ?_, ?_⟩
    · intro label path
      rw [listed_concat, ← ih.outputs, ← mem_parsePorts houts]
      exact List.mem_append
    · intro label path
      rw [listed_concat, ← ih.inputs, ← mem_parsePorts hins]
      exact List.mem_append
    · intro label
      have hold := ih.exposed label
      simp only [isExposedPort] at hold ⊢
      rw [lookup_exposeAll, lookup_exposeAll, hold]
      simp only [List.mem_append, exists_or]
      tauto

theorem findInternalPath_eq (m : SimModule) (label : String) : m.findInternalPath label =
    ((findIn m.outputConfigs label).or (findIn m.inputConfigs label)).getD "" := by
  rw [findInternalPath]
  cases findIn m.outputConfigs label <;> rfl

theorem findIn_isSome : (∃ path, findIn configs label = some path) ↔
    ∃ path, ⟨path, label⟩ ∈ configs := by
  rw [← not_iff_not, not_exists, not_exists, ← findIn_eq_none]
  exact Option.eq_none_iff_forall_ne_some.symm

theorem Keeps.internalPath_cases {cfgs : List Json} (h : m.Keeps cfgs) (label : String) :
    (findIn m.outputConfigs label = some (m.findInternalPath label) ∧
        Listed "outputs" cfgs label (m.findInternalPath label)) ∨
      (findIn m.outputConfigs label = none ∧ (∀ path, ¬ Listed "outputs" cfgs label path) ∧
        ((findIn m.inputConfigs label = some (m.findInternalPath label) ∧
            Listed "inputs" cfgs label (m.findInternalPath label)) ∨
          (findIn m.inputConfigs label = none ∧ m.findInternalPath label = "" ∧
            ∀ path, ¬ Listed "inputs" cfgs label path))) := by
  rw [findInternalPath_eq]
  cases hout : findIn m.outputConfigs label with
  | some out => exact .inl ⟨rfl, (h.outputs label out).mp (mem_of_findIn hout)⟩
  | none =>
    refine .inr ⟨rfl, fun path hlisted => ?_, ?_⟩
    · exact findIn_eq_none.mp hout path ((h.outputs label path).mpr hlisted)
    · cases hin : findIn m.inputConfigs label with
      | some inp => exact .inl ⟨rfl, (h.inputs label inp).mp (mem_of_findIn hin)⟩
      | none =>
        refine .inr ⟨rfl, rfl, fun path hlisted => ?_⟩
        exact findIn_eq_none.mp hin path ((h.inputs label path).mpr hlisted)

theorem Keeps.exposed_iff {cfgs : List Json} (h : m.Keeps cfgs) (label : String) :
    m.isExposedPort label = true ↔ m.findInternalPath label ≠ "" := by
  rw [h.exposed, ← findIn_isSome, ← findIn_isSome]
  rcases h.internalPath_cases label with ⟨hout, hlisted⟩ | ⟨hout, -, ⟨hin, hlisted⟩ | ⟨hin, hpath, -⟩⟩
  · exact iff_of_true (.inl ⟨_, hout⟩) hlisted.ne_empty
  · exact iff_of_true (.inr ⟨_, hin⟩) hlisted.ne_empty
  · rw [hout, hin, hpath]
    simp

end SimModule

def AllConfigured (w : World) : Prop := ∀ p, ∃ cfgs, SimModule.Configured cfgs (w.simModule p)

namespace AllConfigured
variable {env : Env} {nested : Nested} {c c' : Call} {mod : Json} {w : World}

theorem construct (h : AllConfigured w) (ctor : Constructor) (name : String) :
    AllConfigured (w.construct ctor name) := by
  intro p
  by_cases hp : p = w.next
  · refine ⟨[], ?_⟩
    simp only [World.construct, hp, Function.update_self]
    exact .new
  · simpa [World.construct, hp] using h p

theorem createInstance (h : AllConfigured c.toWorld)
    (hstep : Call.createInstance c mod = .ok c') : AllConfigured c'.toWorld := by
  apply Call.createInstance_rule (fun d => AllConfigured d.toWorld) hstep h
  · exact h.construct
  · exact h.construct
  · intro d n p x y hd _
    exact hd

theorem instantiateModule (hn : ∀ cfg v d, AllConfigured v → nested cfg v = .ok d →
    AllConfigured d.toWorld) (h : AllConfigured c.toWorld)
    (hstep : Call.instantiateModule env nested c mod = .ok c') : AllConfigured c'.toWorld := by
  rcases Call.instantiateModule_ok hstep with ⟨rfl, -⟩ | ⟨name, -, -, rfl⟩ |
    ⟨name, m, -, cfg, -, -, -, -, hinst⟩
  · exact h
  · exact h
  · obtain ⟨inner, sm, hinner, hparse, rfl⟩ := Call.instantiate_ok hinst
    have hin := hn _ _ _ h hinner
    intro p
    by_cases hp : p = m
    · subst hp
      obtain ⟨cfgs, hcfgs⟩ := hin p
      refine ⟨cfgs ++ [cfg], ?_⟩
      simp only [World.setModule, Function.update_self]
      exact hcfgs.instantiate inner.objectInstances hparse
    · simpa [World.setModule, hp] using hin p

theorem prepare (hn : ∀ cfg v d, AllConfigured v → nested cfg v = .ok d →
    AllConfigured d.toWorld) {cfg : Json} (h : AllConfigured w)
    (hrun : Call.prepare env nested cfg w = .ok c) : AllConfigured c.toWorld := by
  obtain ⟨modules, c₁, defs, -, hcreate, -, hinst⟩ := Call.prepare_ok hrun
  have hcreated : AllConfigured c₁.toWorld :=
    foldlM_invariant (fun d : Call => AllConfigured d.toWorld) hcreate h
      fun _ _ _ _ hd hstep => hd.createInstance hstep
  exact foldlM_invariant (fun d : Call => AllConfigured d.toWorld) hinst hcreated
    fun _ _ _ _ hd hstep => hd.instantiateModule hn hstep

theorem instantiateAll {fuel : ℕ} {cfg : Json} (h : AllConfigured w)
    (hrun : GemSc.instantiateAll env fuel cfg w = .ok c) : AllConfigured c.toWorld := by
  induction fuel generalizing cfg w c with
  | zero => cases hrun
  | succ fuel ih =>
    obtain ⟨final, -, hrun⟩ := bind_eq_ok.mp hrun
    obtain ⟨c₄, hprepare, hwire⟩ := bind_eq_ok.mp hrun
    have h₄ : AllConfigured c₄.toWorld := h.prepare (fun _ _ _ hv hd => ih hv hd) hprepare
    have hsame : c.simModule = c₄.simModule :=
      (Call.rewired_wirePorts Call.avoids_empty hwire).simModule
    intro p
    rw [hsame]
    exact h₄ p

end AllConfigured

/-- The specification leads, by the label of a module, only to a path that the module's
configurations list for this label in the given section. -/
def LeadsBySection (key : String) (cfgs : List Json) (c : Call) (m : ObjPtr) (spec : String) : Prop :=
  ∀ e, c.findEndpoint spec = .ok (some e) →
    ∃ path, Listed key cfgs (parsePortSpec spec).2 path ∧
      path = (c.simModule m).findInternalPath (parsePortSpec spec).2 ∧
      parsePortSpec path = (e.owner, e.port)

structure LabelOf (c : Call) (spec : String) (m : ObjPtr) : Prop where
  module_eq : c.moduleInstances.lookup (parsePortSpec spec).1 = some (some m)
  label_ne : (parsePortSpec spec).2 ≠ ""

section
variable {c : Call} {m : ObjPtr} {spec key : String} {cfgs : List Json}

theorem LabelOf.findEndpoint (h : LabelOf c spec m) : c.findEndpoint spec = .ok
    (if (c.simModule m).findInternalPath (parsePortSpec spec).2 = "" then none
      else some ⟨(parsePortSpec ((c.simModule m).findInternalPath (parsePortSpec spec).2)).1,
        (parsePortSpec ((c.simModule m).findInternalPath (parsePortSpec spec).2)).2, true⟩) := by
  have hderef : deref (some m) = .ok m := deref_eq_ok.mpr rfl
  simp only [Call.findEndpoint, h.module_eq, if_neg h.label_ne, hderef, bind, Except.bind]
  split_ifs <;> rfl

theorem leadsBySection_iff (h : LabelOf c spec m) : LeadsBySection key cfgs c m spec ↔
    ((c.simModule m).findInternalPath (parsePortSpec spec).2 ≠ "" →
      Listed key cfgs (parsePortSpec spec).2
        ((c.simModule m).findInternalPath (parsePortSpec spec).2)) := by
  rw [LeadsBySection, h.findEndpoint]
  constructor
  · intro hall hne
    obtain ⟨path, hlisted, rfl, -⟩ := hall _ (by rw [if_neg hne])
    exact hlisted
  · intro himp e he
    split_ifs at he with hpath
    · cases he
    · obtain rfl := Option.some.inj (Except.ok.inj he)
      exact ⟨_, himp hpath, rfl, rfl⟩

end

/-- A label is exposed exactly when it leads to a path. At a source it leads by the outputs
exactly when it is listed there, or not under inputs either; at a destination it leads by the
inputs exactly when it is not listed under outputs, or the first path there is listed under
inputs as well. -/
theorem exposed_labels_iff {c : Call} {m : ObjPtr} {spec : String} {cfgs : List Json}
    (h : LabelOf c spec m) (hm : SimModule.Configured cfgs (c.simModule m)) :
    ((c.simModule m).isExposedPort (parsePortSpec spec).2 = true ↔
      (c.simModule m).findInternalPath (parsePortSpec spec).2 ≠ "") ∧
    (LeadsBySection "outputs" cfgs c m spec ↔
      (∃ path, Listed "outputs" cfgs (parsePortSpec spec).2 path) ∨
        ∀ path, ¬ Listed "inputs" cfgs (parsePortSpec spec).2 path) ∧
    (LeadsBySection "inputs" cfgs c m spec ↔
      ∀ path, SimModule.findIn (c.simModule m).outputConfigs (parsePortSpec spec).2 = some path →
        Listed "inputs" cfgs (parsePortSpec spec).2 path) := by
  have hkeeps := hm.keeps
  have hcases := hkeeps.internalPath_cases (parsePortSpec spec).2
  rw [leadsBySection_iff h, leadsBySection_iff h]
  refine ⟨hkeeps.exposed_iff _, ?_, ?_⟩
  · rcases hcases with ⟨-, hlisted⟩ | ⟨-, hnone, ⟨-, hlisted⟩ | ⟨-, hpath, hnone'⟩⟩
    · exact iff_of_true (fun _ => hlisted) (.inl ⟨_, hlisted⟩)
    · apply iff_of_false
      · exact fun hleads => hnone _ (hleads hlisted.ne_empty)
      · rintro (⟨path, hout⟩ | hno)
        · exact hnone path hout
        · exact hno _ hlisted
    · exact iff_of_true (fun hne => absurd hpath hne) (.inr hnone')
  · rcases hcases with ⟨hout, hlisted⟩ | ⟨hout, -, ⟨-, hlisted⟩ | ⟨-, hpath, -⟩⟩
    -- outputs shadow inputs, so the first output has to be an input as well
    · constructor
      · intro hleads path hfirst
        obtain rfl := Option.some.inj (hout.symm.trans hfirst)
        exact hleads hlisted.ne_empty
      · intro hboth _
        exact hboth _ hout
    · refine iff_of_true (fun _ => hlisted) fun path hfirst => ?_
      cases hout.symm.trans hfirst
    · refine iff_of_true (fun hne => absurd hpath hne) fun path hfirst => ?_
      cases hout.symm.trans hfirst

section
open Json

/-- `o` is listed under outputs alone, `io` under both, with one path in common. -/
def labelFile : Json := object
  [("inputs", array [object [("external", string "io"), ("internal", string "core.port")]]),
   ("modules", array [object [("name", string "core"), ("type", string "Node")]]),
   ("outputs", array [object [("external", string "o"), ("internal", string "core.out")],
     object [("external", string "io"), ("internal", string "core.port")]])]

def labelModule : SimModule := valueOr {} (({} : SimModule).parsePortConfigs labelFile)

def labelCall : Call :=
  { toWorld := { nodeTypes with simModule := fun _ => labelModule }
    moduleInstances := [("hier", some 0)] }

theorem labelModule_configured : SimModule.Configured [labelFile] labelModule :=
  .instantiate [] .new (eq_ok_valueOr (d := {}) (by decide +kernel))

theorem exposed_labels_iff_io : LeadsBySection "outputs" [labelFile] labelCall 0 "hier.io" ∧
    LeadsBySection "inputs" [labelFile] labelCall 0 "hier.io" := by
  have hlabel : LabelOf labelCall "hier.io" 0 := ⟨by decide, by decide⟩
  have hlisted : ∀ key ∈ ["inputs", "outputs"], Listed key [labelFile] "io" "core.port" := by
    intro key hkey
    refine ⟨labelFile, List.mem_singleton_self _, by decide, by decide, ?_⟩
    refine ⟨object [("external", string "io"), ("internal", string "core.port")], ?_, rfl, rfl⟩
    fin_cases hkey
    · exact List.mem_singleton_self _
    · exact List.mem_cons_of_mem _ (List.mem_singleton_self _)
  have hspec : (parsePortSpec "hier.io").2 = "io" := by decide
  obtain ⟨-, hout, hin⟩ := exposed_labels_iff hlabel labelModule_configured
  rw [hspec] at hout hin
  refine ⟨hout.mpr (.inl ⟨_, hlisted "outputs" (by decide)⟩), hin.mpr ?_⟩
  intro path hpath
  have hfirst : SimModule.findIn labelModule.outputConfigs "io" = some "core.port" := by decide
  obtain rfl := Option.some.inj (hfirst.symm.trans hpath)
  exact hlisted "inputs" (by decide)

/-- A label listed under outputs alone leads to its path at a destination too. -/
theorem output_label_at_destination : LabelOf labelCall "hier.o" 0 ∧
    SimModule.Configured [labelFile] (labelCall.simModule 0) ∧
    (∃ e, labelCall.findEndpoint "hier.o" = .ok (some e) ∧ e.owner = "core" ∧ e.port = "out") ∧
    ¬ LeadsBySection "inputs" [labelFile] labelCall 0 "hier.o" := by
  have hlabel : LabelOf labelCall "hier.o" 0 := ⟨by decide, by decide⟩
  refine ⟨hlabel, labelModule_configured, ⟨⟨"core", "out", true⟩, rfl, rfl, rfl⟩, ?_⟩
  rw [leadsBySection_iff hlabel]
  intro hleads
  obtain ⟨cfg, hcfg, -, -, item, hitem, -, hexternal⟩ := hleads (by decide +kernel)
  obtain rfl := List.mem_singleton.mp hcfg
  obtain rfl := List.mem_singleton.mp hitem
  revert hexternal
  decide

end
end GemSc
