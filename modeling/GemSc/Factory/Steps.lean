import GemSc.Factory.Instantiate
import GemSc.Lib.ExceptFold
import GemSc.Lib.Assignments

/-! What each step of a call can do when it succeeds. Later modules use these and do not
unfold the phases again. -/

namespace GemSc
open ExceptFold

structure IsEntry (mod : Json) (name type : String) : Prop where
  hasName : mod.contains "name"
  hasType : mod.contains "type"
  name : mod.index "name" = .ok (.string name)
  type : mod.index "type" = .ok (.string type)

def LayoutAt (mod : Json) (x y : ℤ) : Prop :=
  mod.contains "layout" ∧ 0 ≤ x ∧ 0 ≤ y ∧ ∃ l, mod.index "layout" = .ok l ∧
    l.value Json.getInt "x" (-1) = .ok x ∧ l.value Json.getInt "y" (-1) = .ok y

theorem deref_eq_ok {o : Option ObjPtr} {p : ObjPtr} : deref o = .ok p ↔ o = some p := by
  cases o <;> simp [deref]

theorem IsEntry.unique {mod : Json} {n n' t t' : String} (h : IsEntry mod n t)
    (h' : IsEntry mod n' t') : n = n' ∧ t = t' := by
  have hn := h.name.symm.trans h'.name
  have ht := h.type.symm.trans h'.type
  simp only [Except.ok.injEq, Json.string.injEq] at hn ht
  exact ⟨hn, ht⟩

def groupDefs (cfg : Json) : Except Fault (List (String × List String)) :=
  if cfg.contains "groups" then do
    let groups ← cfg.index "groups"
    groups.items.mapM fun g => do
      let members ← g.2.getStrings
      pure (g.1, members)
  else pure []

def registryFor (env : Env) (cfg : Json) (w : World) : Registry :=
  match Call.loadPlugins env cfg { toWorld := w } with
  | .ok c => c.registry
  | .error _ => w.registry

theorem entries_of_index {key : String} {cfg j : Json} (h : cfg.index key = .ok j) :
    cfg.entries key = j.elements := by
  rw [Json.entries, h]

namespace Call
variable {env : Env} {nested : Nested} {w : World} {c c' : Call} {mod conn : Json}

theorem loadPlugins_ok {cfg : Json} (h : loadPlugins env cfg c = .ok c') :
    ∃ reg, c' = { c with registry := reg } := by
  unfold loadPlugins at h
  split at h
  · obtain ⟨plugins, -, h⟩ := bind_eq_ok.mp h
    apply foldlM_invariant (fun d : Call => ∃ reg, d = { c with registry := reg }) h ⟨_, rfl⟩
    rintro plugin - d e ⟨reg, rfl⟩ hstep
    obtain ⟨path, -, hstep⟩ := bind_eq_ok.mp hstep
    cases hstep
    exact ⟨_, rfl⟩
  · cases h
    exact ⟨c.registry, rfl⟩

theorem loadPlugins_start {cfg : Json} (h : loadPlugins env cfg { toWorld := w } = .ok c) :
    c = { toWorld := { w with registry := registryFor env cfg w } } := by
  obtain ⟨reg, rfl⟩ := loadPlugins_ok h
  rw [registryFor, h]

def withObject (c : Call) (ctor : Constructor) (name : String) : Call :=
  { c with
    toWorld := c.toWorld.construct ctor name
    objectInstances := (name, some c.next) :: c.objectInstances }

def withModule (c : Call) (ctor : Constructor) (name : String) : Call :=
  { c.withObject ctor name with moduleInstances := (name, some c.next) :: c.moduleInstances }

theorem create_cases (c : Call) (name type : String) :
    (∃ ctor, c.registry.modules type = some ctor ∧ c.create name type = c.withModule ctor name) ∨
    (∃ ctor, c.registry.modules type = none ∧ c.registry.objects type = some ctor ∧
      c.create name type = c.withObject ctor name) ∨
    (c.registry.modules type = none ∧ c.registry.objects type = none ∧ c.create name type = c) := by
  cases hm : c.registry.modules type with
  | some ctor => exact .inl ⟨ctor, rfl, by simp [create, hm, withModule, withObject]⟩
  | none =>
    cases ho : c.registry.objects type with
    | some ctor => exact .inr (.inl ⟨ctor, rfl, rfl, by simp [create, hm, ho, withObject]⟩)
    | none => exact .inr (.inr ⟨rfl, rfl, by simp [create, hm, ho]⟩)

theorem placeInstance_ok {name : String} (h : c.placeInstance mod name = .ok c') :
    (c' = c ∧ ∀ x y, ¬ LayoutAt mod x y) ∨ ∃ x y p, LayoutAt mod x y ∧
      c.objectInstances.lookup name = some (some p) ∧
      c' = { c with toWorld := c.toWorld.setLayout p x y } := by
  unfold placeInstance at h
  split at h
  · next hl =>
    obtain ⟨l, hidx, h⟩ := bind_eq_ok.mp h
    obtain ⟨x, hx, h⟩ := bind_eq_ok.mp h
    obtain ⟨y, hy, h⟩ := bind_eq_ok.mp h
    split at h
    · next hxy =>
      obtain ⟨p, hp, h⟩ := bind_eq_ok.mp h
      cases h
      have hlookup := Option.join_eq_some_iff.mp (deref_eq_ok.mp hp)
      exact .inr ⟨x, y, p, ⟨hl, hxy.1, hxy.2, l, hidx, hx, hy⟩, hlookup, rfl⟩
    · next hxy =>
      cases h
      refine .inl ⟨rfl, ?_⟩
      rintro x' y' ⟨-, hx0, hy0, l', hl', hx', hy'⟩
      cases hidx.symm.trans hl'
      cases hx.symm.trans hx'
      cases hy.symm.trans hy'
      exact hxy ⟨hx0, hy0⟩
  · next hl =>
    cases h
    exact .inl ⟨rfl, fun x y hxy => hl hxy.1⟩

theorem createInstance_ok (h : createInstance c mod = .ok c') :
    (c' = c ∧ ∀ name type, ¬ IsEntry mod name type) ∨
    ∃ name type, IsEntry mod name type ∧ (c.create name type).placeInstance mod name = .ok c' := by
  unfold createInstance at h
  split at h
  · next hboth =>
    obtain ⟨hn, ht⟩ := Bool.and_eq_true_iff.mp hboth
    obtain ⟨nameField, hname, h⟩ := bind_eq_ok.mp h
    obtain ⟨name, hnameStr, h⟩ := bind_eq_ok.mp h
    obtain ⟨typeField, htype, h⟩ := bind_eq_ok.mp h
    obtain ⟨type, htypeStr, h⟩ := bind_eq_ok.mp h
    rw [Json.getString_eq_ok] at hnameStr htypeStr
    rw [hnameStr] at hname
    rw [htypeStr] at htype
    exact .inr ⟨name, type, ⟨hn, ht, hname, htype⟩, h⟩
  · next hboth =>
    cases h
    exact .inl ⟨rfl, fun name type he => hboth (by simp [he.hasName, he.hasType])⟩

theorem createInstance_rule (motive : Call → Prop) (h : createInstance c mod = .ok c')
    (hskip : motive c) (hobject : ∀ ctor name, motive (c.withObject ctor name))
    (hmodule : ∀ ctor name, motive (c.withModule ctor name))
    (hplace : ∀ d n p x y, motive d → d.objectInstances.lookup n = some (some p) →
      motive { d with toWorld := d.toWorld.setLayout p x y }) : motive c' := by
  rcases createInstance_ok h with ⟨rfl, -⟩ | ⟨name, type, -, h⟩
  · exact hskip
  have hcreate : motive (c.create name type) := by
    rcases c.create_cases name type with ⟨ctor, -, heq⟩ | ⟨ctor, -, -, heq⟩ | ⟨-, -, heq⟩ <;> rw [heq]
    · exact hmodule ctor name
    · exact hobject ctor name
    · exact hskip
  rcases placeInstance_ok h with ⟨rfl, -⟩ | ⟨x, y, p, -, hp, rfl⟩
  · exact hcreate
  · exact hplace _ name p x y hcreate hp

theorem defineGroup_foldlM {items : List (String × Json)} (h : items.foldlM defineGroup c = .ok c') :
    ∃ defs, items.mapM (fun g => do
        let members ← g.2.getStrings
        pure (g.1, members)) = (.ok defs : Except Fault _) ∧
      c' = { c with groups := defs.reverse ++ c.groups } := by
  induction items generalizing c with
  | nil =>
    cases h
    exact ⟨[], rfl, rfl⟩
  | cons g items ih =>
    obtain ⟨d, hd, hrest⟩ := foldlM_cons_ok.mp h
    obtain ⟨members, hm, hd⟩ := bind_eq_ok.mp hd
    cases hd
    obtain ⟨defs, hdefs, rfl⟩ := ih hrest
    refine ⟨(g.1, members) :: defs, ?_, ?_⟩
    · simp only [List.mapM_cons, hm, hdefs]
      rfl
    · simp [ModuleGroup.define]

theorem defineGroups_ok {cfg : Json} (h : defineGroups cfg c = .ok c') :
    ∃ defs, groupDefs cfg = .ok defs ∧ c' = { c with groups := defs.reverse ++ c.groups } := by
  unfold defineGroups at h
  unfold groupDefs
  split at h
  · next hg =>
    obtain ⟨groups, hidx, h⟩ := bind_eq_ok.mp h
    obtain ⟨defs, hdefs, rfl⟩ := defineGroup_foldlM h
    refine ⟨defs, ?_, rfl⟩
    rw [if_pos hg, hidx]
    exact hdefs
  · next hg =>
    cases h
    exact ⟨[], by rw [if_neg hg]; rfl, rfl⟩

theorem instantiate_ok {m : ObjPtr} {cfg : Json} (h : c.instantiate nested m cfg = .ok c') :
    ∃ inner sm, nested cfg c.toWorld = .ok inner ∧ (inner.simModule m).parsePortConfigs cfg = .ok sm ∧
      c' = { c with toWorld :=
        inner.toWorld.setModule m { sm with internalInstances := inner.objectInstances } } := by
  obtain ⟨inner, hinner, h⟩ := bind_eq_ok.mp h
  obtain ⟨sm, hsm, h⟩ := bind_eq_ok.mp h
  cases h
  exact ⟨inner, sm, mapError_eq_ok.mp hinner, hsm, rfl⟩

def HasConfig (mod : Json) (name : String) : Prop :=
  mod.contains "config" ∧ mod.index "name" = .ok (.string name)

theorem instantiateModule_ok (h : instantiateModule env nested c mod = .ok c') :
    (c' = c ∧ ∀ name, HasConfig mod name → (c.moduleInstances.lookup name).isSome) ∨
    (∃ name, HasConfig mod name ∧ c.moduleInstances.lookup name = none ∧
      c' = { c with moduleInstances := (name, none) :: c.moduleInstances }) ∨
    ∃ name m file cfg, HasConfig mod name ∧ c.moduleInstances.lookup name = some (some m) ∧
      mod.index "config" = .ok (.string file) ∧ env.files file = some (some cfg) ∧
      c.instantiate nested m cfg = .ok c' := by
  unfold instantiateModule at h
  split at h
  · next hc =>
    obtain ⟨nameField, hname, h⟩ := bind_eq_ok.mp h
    obtain ⟨name, hstr, h⟩ := bind_eq_ok.mp h
    rw [Json.getString_eq_ok] at hstr
    rw [hstr] at hname
    have hhas : HasConfig mod name := ⟨hc, hname⟩
    have hunique : ∀ name', HasConfig mod name' → name' = name := by
      intro name' h'
      simpa using h'.2.symm.trans hname
    split at h
    · next hnone =>
      cases h
      exact .inr (.inl ⟨name, hhas, hnone, rfl⟩)
    · next hnull =>
      cases h
      refine .inl ⟨rfl, fun name' h' => ?_⟩
      rw [hunique name' h', hnull]
      rfl
    · next m hm =>
      obtain ⟨field, hfield, h⟩ := bind_eq_ok.mp h
      obtain ⟨file, hfile, h⟩ := bind_eq_ok.mp h
      rw [Json.getString_eq_ok.mp hfile] at hfield
      split at h
      · cases h
        refine .inl ⟨rfl, fun name' h' => ?_⟩
        rw [hunique name' h', hm]
        rfl
      · cases h
      · next cfg hcfg => exact .inr (.inr ⟨name, m, file, cfg, hhas, hm, hfield, hcfg, h⟩)
  · next hc =>
    cases h
    exact .inl ⟨rfl, fun name h' => absurd h'.1 hc⟩

theorem prepare_ok {cfg : Json} (h : prepare env nested cfg w = .ok c') :
    ∃ modules c₁ defs, cfg.index "modules" = .ok modules ∧
      modules.elements.foldlM createInstance
        { toWorld := { w with registry := registryFor env cfg w } } = .ok c₁ ∧
      groupDefs cfg = .ok defs ∧
      modules.elements.foldlM (instantiateModule env nested)
        { c₁ with groups := defs.reverse ++ c₁.groups } = .ok c' := by
  obtain ⟨c₀, hplug, h⟩ := bind_eq_ok.mp h
  obtain rfl := loadPlugins_start hplug
  obtain ⟨modules, hmod, h⟩ := bind_eq_ok.mp h
  obtain ⟨c₁, hcreate, h⟩ := bind_eq_ok.mp h
  obtain ⟨c₂, hgroups, h⟩ := bind_eq_ok.mp h
  obtain ⟨defs, hdefs, rfl⟩ := defineGroups_ok hgroups
  exact ⟨modules, c₁, defs, hmod, hcreate, hdefs, h⟩

theorem createPort_ok {info : PortCreationInfo} (h : createPort c info = .ok c') :
    (c' = c ∧ ∀ p, c.objectInstances.lookup info.ownerName = some (some p) →
      (c.object p).portManager = none) ∨
    ∃ p pm, c.objectInstances.lookup info.ownerName = some (some p) ∧
      (c.object p).portManager = some pm ∧
      c' = { c with
        toWorld := c.toWorld.addPort p pm info.isUpstream info.bufferSizes info.priorities
          info.portName } := by
  unfold createPort at h
  split at h
  · next hnone =>
    cases h
    exact .inl ⟨rfl, fun p hp => by rw [hnone] at hp; cases hp⟩
  · next o ho =>
    obtain ⟨p, hp, h⟩ := bind_eq_ok.mp h
    rw [deref_eq_ok.mp hp] at ho
    split at h
    · next hnone =>
      cases h
      refine .inl ⟨rfl, fun q hq => ?_⟩
      obtain rfl : p = q := Option.some.inj (Option.some.inj (ho.symm.trans hq))
      exact hnone
    · next pm hpm =>
      cases h
      exact .inr ⟨p, pm, ho, hpm, rfl⟩

end Call
end GemSc
