import GemSc.Factory.Registration

/-! The group table is one for the whole process: what an outer `group:` reference resolves
to, when the internal configurations of the modules define groups of their own. -/

namespace GemSc
open ExceptFold

/-- `final` is what an internal configuration file of the configuration is loaded as, the
file being named by an entry of its modules or of those of another internal one. -/
inductive Internal (env : Env) : Json → Json → Prop
  | direct {cfg modules mod file final : Json} {name : String} : cfg.index "modules" = .ok modules →
      mod ∈ modules.elements → mod.contains "config" → mod.index "config" = .ok (.string name) →
      env.files name = some (some file) → env.loadAndInclude file = .ok final →
      Internal env cfg final
  | trans {cfg mid final : Json} : Internal env cfg mid → Internal env mid final →
      Internal env cfg final

def NestedDef (env : Env) (cfg : Json) (g : String) (members : List String) : Prop :=
  ∃ final defs, Internal env cfg final ∧ groupDefs final = .ok defs ∧ (g, members) ∈ defs

/-- Since `groups`, the table has got definitions of internal configurations only. -/
def ExtendsGroups (env : Env) (cfg : Json) (groups groups' : Groups) : Prop :=
  ∃ inner, groups' = inner ++ groups ∧ ∀ e ∈ inner, NestedDef env cfg e.1 e.2

variable {env : Env} {cfg : Json}

theorem ExtendsGroups.refl {groups : Groups} : ExtendsGroups env cfg groups groups :=
  ⟨[], rfl, fun _ h => nomatch h⟩

theorem ExtendsGroups.inner {cfg' : Json} {groups groups' : Groups} (hcfg : Internal env cfg cfg')
    (h : ExtendsGroups env cfg' groups groups') : ExtendsGroups env cfg groups groups' := by
  obtain ⟨inner, hgroups, hinner⟩ := h
  refine ⟨inner, hgroups, fun e he => ?_⟩
  obtain ⟨final, defs, hfinal, hdefs⟩ := hinner e he
  exact ⟨final, defs, .trans hcfg hfinal, hdefs⟩

theorem ExtendsGroups.trans {g₁ g₂ g₃ : Groups} (h : ExtendsGroups env cfg g₁ g₂)
    (h' : ExtendsGroups env cfg g₂ g₃) : ExtendsGroups env cfg g₁ g₃ := by
  obtain ⟨inner, rfl, hinner⟩ := h
  obtain ⟨inner', rfl, hinner'⟩ := h'
  refine ⟨inner' ++ inner, by simp, fun e he => ?_⟩
  exact (List.mem_append.mp he).elim (hinner' e) (hinner e)

namespace Call
variable {nested : Nested} {w : World} {c c' : Call} {mod : Json}

theorem groups_createInstance (h : createInstance c mod = .ok c') : c'.groups = c.groups := by
  apply createInstance_rule (fun d : Call => d.groups = c.groups) h rfl
  · intro ctor name
    rfl
  · intro ctor name
    rfl
  · intro d n p x y hd _
    exact hd

def GroupCalls (env : Env) (nested : Nested) : Prop :=
  ∀ cfg w c, nested cfg w = .ok c → ∃ final defs, env.loadAndInclude cfg = .ok final ∧
    groupDefs final = .ok defs ∧ ExtendsGroups env final (defs.reverse ++ w.groups) c.groups

theorem extends_instantiateModule (hn : GroupCalls env nested) {modules : Json}
    (hmods : cfg.index "modules" = .ok modules) (hmod : mod ∈ modules.elements)
    (h : instantiateModule env nested c mod = .ok c') : ExtendsGroups env cfg c.groups c'.groups := by
  rcases instantiateModule_ok h with
    ⟨rfl, -⟩ | ⟨name, -, -, rfl⟩ | ⟨name, m, file, icfg, hhas, -, hfield, hfile, hinst⟩
  · exact .refl
  · exact .refl
  · obtain ⟨inner, sm, hinner, -, rfl⟩ := instantiate_ok hinst
    obtain ⟨final, defs, hload, hdefs, hext⟩ := hn _ _ _ hinner
    have hinternal : Internal env cfg final := .direct hmods hmod hhas.1 hfield hfile hload
    refine ExtendsGroups.trans ⟨defs.reverse, rfl, ?_⟩ (hext.inner hinternal)
    rintro ⟨g, members⟩ he
    exact ⟨final, defs, hinternal, hdefs, List.mem_reverse.mp he⟩

theorem extends_prepare (hn : GroupCalls env nested)
    (h : prepare env nested cfg w = .ok c) : ∃ defs, groupDefs cfg = .ok defs ∧
      ExtendsGroups env cfg (defs.reverse ++ w.groups) c.groups := by
  obtain ⟨modules, c₁, defs, hmods, hcreate, hdefs, hinst⟩ := prepare_ok h
  have h₁ : c₁.groups = w.groups :=
    foldlM_invariant (fun d : Call => d.groups = w.groups) hcreate rfl
      fun _ _ _ _ hd hstep => (groups_createInstance hstep).trans hd
  refine ⟨defs, hdefs, ?_⟩
  rw [← h₁]
  exact foldlM_invariant
    (fun d : Call => ExtendsGroups env cfg (defs.reverse ++ c₁.groups) d.groups) hinst .refl
    fun _ hmod _ _ hd hstep => hd.trans (extends_instantiateModule hn hmods hmod hstep)

theorem groups_wirePorts (h : c.wirePorts env cfg = .ok c') : c'.groups = c.groups :=
  (rewired_wirePorts avoids_empty h).groups

end Call

theorem instantiateAll_groups (env : Env) (fuel : ℕ) :
    Call.GroupCalls env (instantiateAll env fuel) := by
  induction fuel with
  | zero =>
    intro cfg w c h
    cases h
  | succ fuel ih =>
    intro cfg w c h
    obtain ⟨final, hload, h⟩ := bind_eq_ok.mp h
    obtain ⟨c₄, hprep, hwire⟩ := bind_eq_ok.mp h
    obtain ⟨defs, hdefs, hext⟩ := Call.extends_prepare ih hprep
    refine ⟨final, defs, hload, hdefs, ?_⟩
    rw [Call.groups_wirePorts hwire]
    exact hext

def outerMembers (defs : List (String × List String)) (w : World) (g : String) : List String :=
  ModuleGroup.getMembers (defs.reverse ++ w.groups) g

theorem getMembers_of_extends {groups groups' : Groups} {g : String}
    (h : ExtendsGroups env cfg groups groups') :
    ModuleGroup.getMembers groups' g = ModuleGroup.getMembers groups g ∨
      NestedDef env cfg g (ModuleGroup.getMembers groups' g) := by
  obtain ⟨inner, rfl, hinner⟩ := h
  unfold ModuleGroup.getMembers
  rw [List.lookup_append]
  cases hg : inner.lookup g with
  | none => exact .inl rfl
  | some members => exact .inr (hinner _ (Assignments.mem_of_lookup hg))

section
variable {env₁ env₂ : Env} {fuel fuel₁ fuel₂ : ℕ} {conns : Json} {w : World}
variable {c c₅ c' a a₅ a' b b₅ b' : Call} {defs : List (String × List String)}

theorem resolve_cases (h : Phases env fuel cfg w conns c c₅ c') (hdefs : groupDefs cfg = .ok defs)
    {spec : String} (hspec : ModuleGroup.isGroupReference spec) :
    ModuleGroup.resolve c₅.groups spec = outerMembers defs w (ModuleGroup.extractGroupName spec) ∨
      NestedDef env cfg (ModuleGroup.extractGroupName spec) (ModuleGroup.resolve c₅.groups spec) := by
  obtain ⟨defs', hdefs', hext⟩ := Call.extends_prepare (instantiateAll_groups env fuel) h.prepare
  obtain rfl := Except.ok.inj (hdefs.symm.trans hdefs')
  rw [h.rewired.groups, ModuleGroup.resolve, if_pos hspec]
  exact getMembers_of_extends hext

/-- Two runs of one outer configuration, whatever their internal configuration files: a
reference to a group that no internal one lists resolves in both to the outer members, and
any other to the outer members or to those that an internal one lists. -/
theorem group_reference_resolves (ha : Phases env₁ fuel₁ cfg w conns a a₅ a')
    (hb : Phases env₂ fuel₂ cfg w conns b b₅ b') (hdefs : groupDefs cfg = .ok defs) {spec : String}
    (hspec : ModuleGroup.isGroupReference spec) :
    ((∀ m, ¬ NestedDef env₁ cfg (ModuleGroup.extractGroupName spec) m) →
      (∀ m, ¬ NestedDef env₂ cfg (ModuleGroup.extractGroupName spec) m) →
      ModuleGroup.resolve a₅.groups spec = ModuleGroup.resolve b₅.groups spec ∧
      ModuleGroup.resolve a₅.groups spec =
        outerMembers defs w (ModuleGroup.extractGroupName spec)) ∧
    (ModuleGroup.resolve a₅.groups spec = outerMembers defs w (ModuleGroup.extractGroupName spec) ∨
      NestedDef env₁ cfg (ModuleGroup.extractGroupName spec) (ModuleGroup.resolve a₅.groups spec)) := by
  have hcases₁ := resolve_cases ha hdefs hspec
  have hcases₂ := resolve_cases hb hdefs hspec
  refine ⟨fun h₁ h₂ => ?_, hcases₁⟩
  have houter₁ := hcases₁.resolve_right (h₁ _)
  have houter₂ := hcases₂.resolve_right (h₂ _)
  exact ⟨houter₁.trans houter₂.symm, houter₁⟩

end
section
open Json

def hierOnly : World where
  registry :=
    { modules := fun t => if t = "HierModule" then some fun _ => none else none
      objects := fun _ => none }

def groupsSection (g member : String) : String × Json :=
  ("groups", object [(g, array [string member])])

def outerConnections : Json := array [object [("dst", string "group:g"), ("src", string "group:g")]]

def outerConfig : Json := object
  [("connections", outerConnections),
   groupsSection "g" "cpu",
   ("modules", array
    [object [("config", string "m.json"), ("name", string "m"), ("type", string "HierModule")]])]

/-- The internal configuration file holds the name of another one. Only such a string passes the
include step of the nested call. -/
def groupFiles (g member : String) : Files := fun file =>
  if file = "m.json" then some (some (string "inner.json"))
  else if file = "inner.json" then some (some (object [groupsSection g member]))
  else none

def groupEnv (g member : String) : Env := (Env.plain (groupFiles g member) dotStarRegex).including 6

theorem includeStep_groupFiles {g : String} (hg : g ≠ "include") (member : String) :
    includeStep (groupFiles g member) 6 (string "inner.json") =
      .ok (object [groupsSection g member]) := by
  have hinner : groupFiles g member "inner.json" = some (some (object [groupsSection g member])) := by
    unfold groupFiles
    rw [if_neg (by decide), if_pos rfl]
  have hlookup : List.lookup "include" [(g, array [string member])] = none := by
    rw [List.lookup_cons, beq_false_of_ne hg.symm]
    rfl
  have htop : List.lookup "include" [groupsSection g member] = none := rfl
  simp only [includeStep, getString, bind, Except.bind, JsonIncluder.loadAndInclude, hinner,
    JsonIncluder.processIncludes, htop, List.mapM_cons, List.mapM_nil, pure, Except.pure]
  simp only [groupsSection, JsonIncluder.processIncludes, hlookup, List.mapM_cons, List.mapM_nil, bind,
    Except.bind, pure, Except.pure]

theorem internal_groupEnv {g member : String} (hg : g ≠ "include") {cfg final : Json}
    (h : Internal (groupEnv g member) cfg final) : final = object [groupsSection g member] := by
  induction h with
  | @direct cfg modules mod file final name _ _ _ _ hfile hload =>
    have hfile : groupFiles g member name = some (some file) := hfile
    have hload : includeStep (groupFiles g member) 6 file = .ok final := hload
    unfold groupFiles at hfile
    split_ifs at hfile
    · obtain rfl : string "inner.json" = file := Option.some.inj (Option.some.inj hfile)
      exact Except.ok.inj (hload.symm.trans (includeStep_groupFiles hg member))
    · obtain rfl : object [groupsSection g member] = file := Option.some.inj (Option.some.inj hfile)
      cases hload
  | trans _ _ _ ih => exact ih

theorem not_nestedDef_groupEnv {g g' member : String} (hg : g ≠ "include") (hne : g' ≠ g)
    (cfg : Json) (m : List String) :
    ¬ NestedDef (groupEnv g member) cfg g' m := by
  rintro ⟨final, defs, hfinal, hdefs, hmem⟩
  rw [internal_groupEnv hg hfinal] at hdefs
  have hdefs : defs = [(g, [member])] := (Except.ok.inj hdefs).symm
  rw [hdefs, List.mem_singleton] at hmem
  exact hne (congrArg Prod.fst hmem)

theorem group_reference_resolves_demo :
    ModuleGroup.resolve (withPorts (groupEnv "h" "x") 1 outerConfig hierOnly outerConnections).groups
        "group:g" =
      ModuleGroup.resolve (withPorts (groupEnv "h" "y") 1 outerConfig hierOnly outerConnections).groups
        "group:g" ∧
    ModuleGroup.resolve (withPorts (groupEnv "h" "x") 1 outerConfig hierOnly outerConnections).groups
        "group:g" = ["cpu"] := by
  have hx := Phases.ofReturns (groupEnv "h" "x") 1 outerConfig outerConnections hierOnly rfl
    (by decide +kernel) (by decide +kernel) (by decide +kernel)
  have hy := Phases.ofReturns (groupEnv "h" "y") 1 outerConfig outerConnections hierOnly rfl
    (by decide +kernel) (by decide +kernel) (by decide +kernel)
  have hdefs : groupDefs outerConfig = .ok [("g", ["cpu"])] := rfl
  have hspec : ModuleGroup.isGroupReference "group:g" := by decide
  exact (group_reference_resolves hx hy hdefs hspec).1
    (not_nestedDef_groupEnv (by decide) (by decide) _)
    (not_nestedDef_groupEnv (by decide) (by decide) _)

/-- Two internal configurations that differ in the members they list for `g`. -/
theorem nested_group_leaks :
    ModuleGroup.resolve (withPorts (groupEnv "g" "x") 1 outerConfig hierOnly outerConnections).groups
      "group:g" = ["x"] ∧
    ModuleGroup.resolve (withPorts (groupEnv "g" "y") 1 outerConfig hierOnly outerConnections).groups
      "group:g" = ["y"] := by
  decide +kernel

end
end GemSc
