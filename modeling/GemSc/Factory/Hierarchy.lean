import GemSc.Factory.PlainConnection

/-! Exposed ports of modules. The internal path of a label names an object of the internal
factory; phases 5 and 6 look that name up among the objects of the outer one. -/

namespace GemSc
open ExceptFold

namespace Call
variable {env : Env} {nested : Nested} {fuel : ℕ} {w : World} {c c' : Call} {mod : Json}

def Blank (c : Call) : Prop :=
  ∀ n m, c.moduleInstances.lookup n = some (some m) → c.simModule m = {}

theorem Blank.withObject (h : c.Blank) (hl : c.Local w) (ctor : Constructor) (name : String) :
    (c.withObject ctor name).Blank := by
  intro n m hm
  have hne : m ≠ c.next := (hl.modules n m hm).2.ne
  exact (Function.update_of_ne hne ..).trans (h n m hm)

theorem Blank.withModule (h : c.Blank) (hl : c.Local w) (ctor : Constructor) (name : String) :
    (c.withModule ctor name).Blank := by
  intro n m hm
  rcases Assignments.lookup_cons_some.mp hm with ⟨-, hm⟩ | ⟨-, hm⟩
  · obtain rfl := Option.some.inj hm
    exact Function.update_self ..
  · exact h.withObject hl ctor name n m hm

theorem Blank.createInstance (h : c.Blank) (hl : c.Local w)
    (hstep : Call.createInstance c mod = .ok c') : c'.Blank := by
  apply createInstance_rule Blank hstep h
  · exact h.withObject hl
  · exact h.withModule hl
  · intro d n p x y hd _
    exact hd

/-- The objects of the call lie below `k`, those of its internal factories from `k` on. -/
structure Layered (k : ObjPtr) (c : Call) : Prop where
  le_next : k ≤ c.next
  outer : ∀ n p, c.objectInstances.lookup n = some (some p) → p < k
  inner : ∀ n m, c.moduleInstances.lookup n = some (some m) →
    ∀ i p, (c.simModule m).internalInstances.lookup i = some (some p) → k ≤ p

theorem Layered.instantiateModule {k : ObjPtr} (h : c.Layered k) (hl : c.Local w)
    (hn : LocalCalls nested) (hstep : Call.instantiateModule env nested c mod = .ok c') :
    c'.Layered k := by
  rcases instantiateModule_ok hstep with ⟨rfl, -⟩ | ⟨name, -, -, rfl⟩ | ⟨name, m, -, cfg, -, hm, -, -, hinst⟩
  · exact h
  · refine ⟨h.le_next, h.outer, fun n m hm => ?_⟩
    rcases Assignments.lookup_cons_some.mp hm with ⟨-, hnull⟩ | ⟨-, hm⟩
    · cases hnull
    · exact h.inner n m hm
  · obtain ⟨inner, sm, hinner, -, rfl⟩ := instantiate_ok hinst
    have hin := hn _ _ _ hinner
    refine ⟨h.le_next.trans hin.next_le, h.outer, fun n m' hm' i p hp => ?_⟩
    by_cases heq : m' = m
    · -- the module just instantiated: its internal objects are the nested call's
      subst heq
      have hp : inner.objectInstances.lookup i = some (some p) := by
        simpa [World.setModule] using hp
      exact h.le_next.trans (hin.instances i p hp).1
    · have hlt : m' ∈ Set.Iio c.next := (hl.modules n m' hm').2
      have hsame : inner.simModule m' = c.simModule m' := hin.agree.simModule m' hlt
      have hp : (c.simModule m').internalInstances.lookup i = some (some p) := by
        rw [← hsame]
        simpa [World.setModule, heq] using hp
      exact h.inner n m' hm' i p hp

theorem layered_prepare {cfg : Json} (hn : LocalCalls nested)
    (h : prepare env nested cfg w = .ok c) : ∃ k, c.Layered k := by
  obtain ⟨modules, c₁, defs, -, hcreate, -, hinst⟩ := prepare_ok h
  have hlocal : c₁.Local w := Local.createInstances hcreate
  have hblank : c₁.Blank :=
    createInstances_rule Blank hcreate (fun _ _ hp => nomatch hp)
      fun _ _ _ hl hd hstep => hd.createInstance hl hstep
  -- phase 4 begins with every object below `next` and every module empty
  have hstart : c₁.Layered c₁.next := by
    refine ⟨le_rfl, fun n p hp => (hlocal.instances n p hp).2, fun n m hm i p hp => ?_⟩
    rw [hblank n m hm] at hp
    cases hp
  refine ⟨c₁.next, instantiateModules_rule (Layered c₁.next) hn hinst (hlocal.withGroups _) ?_ ?_⟩
  · exact ⟨hstart.le_next, hstart.outer, hstart.inner⟩
  · exact fun _ _ _ hl hd hstep => hd.instantiateModule hl hn hstep

end Call

structure ExposedEnd (c : Call) (spec : String) (m : ObjPtr) (path : String) : Prop where
  module_eq : c.moduleInstances.lookup (parsePortSpec spec).1 = some (some m)
  label_ne : (parsePortSpec spec).2 ≠ ""
  path_eq : (c.simModule m).findInternalPath (parsePortSpec spec).2 = path
  path_ne : path ≠ ""

/-- Between the two states a port was created on the object that the path names inside the
module, under the label the path gives, and it is bound. -/
def BoundInside (c c' : Call) (m : ObjPtr) (up : Bool) (path : String) : Prop :=
  ∃ p i, (c.simModule m).internalInstances.lookup (parsePortSpec path).1 = some (some p) ∧
    (c.labels p up).length ≤ i ∧ (c'.labels p up)[i]? = some (parsePortSpec path).2 ∧
    (c'.wires ⟨p, up, i⟩).pair.isSome

/-- Each exposed end of the connection reaches inside its module. -/
def ReachesInside (c c' : Call) (s : Connection) : Prop :=
  (∀ m path, ExposedEnd c s.src m path → BoundInside c c' m false path) ∧
  ∀ m path, ExposedEnd c s.dst m path → BoundInside c c' m true path

section
variable {env : Env} {fuel : ℕ} {cfg conns : Json} {w : World} {c c₅ c' : Call}

theorem inside_untouched (h : Phases env fuel cfg w conns c c₅ c') {spec path : String} {m : ObjPtr}
    (hend : ExposedEnd c spec m path) {i : String} {p : ObjPtr}
    (hp : (c.simModule m).internalInstances.lookup i = some (some p)) :
    AgreeOn {p} c.toWorld c'.toWorld := by
  obtain ⟨k, hk⟩ := Call.layered_prepare (instantiateAll_local env fuel) h.prepare
  have havoid : Call.Avoids {p} c := by
    rintro n q hq rfl
    exact absurd (hk.outer n q hq) (not_lt.mpr (hk.inner _ m hend.module_eq i q hp))
  have hrun := h.run
  rw [instantiateFinal, h.prepare] at hrun
  exact (Call.rewired_wirePorts havoid hrun).agree

theorem not_boundInside (h : Phases env fuel cfg w conns c c₅ c') {spec path : String} {m : ObjPtr}
    {up : Bool} (hend : ExposedEnd c spec m path) : ¬ BoundInside c c' m up path := by
  rintro ⟨p, i, hp, hlen, hlabel, -⟩
  rw [(inside_untouched h hend hp).labels rfl] at hlabel
  exact absurd (List.getElem?_eq_some_iff.mp hlabel).1 (not_lt.mpr hlen)

/-- No connection with an exposed end reaches inside. -/
theorem exposed_end_stays_outside (h : Phases env fuel cfg w conns c c₅ c') {s : Connection}
    (hend : (∃ m path, ExposedEnd c s.src m path) ∨ ∃ m path, ExposedEnd c s.dst m path) :
    ¬ ReachesInside c c' s := by
  rintro ⟨hsrc, hdst⟩
  rcases hend with ⟨m, path, hend⟩ | ⟨m, path, hend⟩
  · exact not_boundInside h hend (hsrc m path hend)
  · exact not_boundInside h hend (hdst m path hend)

theorem exposed_end_finds_outer {spec path : String} {m : ObjPtr} {up : Bool} {r : PortRef}
    (hend : ExposedEnd c spec m path) (hfound : c.findPort up spec = .ok (some r)) :
    c.objectInstances.lookup (parsePortSpec path).1 = some (some r.owner) := by
  obtain ⟨owner, port, pm, ⟨exposed, he⟩, howner, -⟩ := Call.findPort_ok hfound
  have hpath := hend.path_eq
  simp only [Call.findEndpoint, hend.module_eq, if_neg hend.label_ne] at he
  obtain ⟨m', hm', he⟩ := bind_eq_ok.mp he
  obtain rfl := Option.some.inj (deref_eq_ok.mp hm')
  rw [hpath, if_neg hend.path_ne] at he
  have he := Option.some.inj (Except.ok.inj he)
  rw [Endpoint.mk.injEq] at he
  rw [he.1]
  exact howner

end
section
open Json

def nodeTypes : World where
  registry :=
    { modules := fun t => if t = "HierModule" then some fun _ => none else none
      objects := fun t => if t = "Node" then some fun _ => some {} else none }

def hierFile : Json := object
  [("modules", array [object [("name", string "core"), ("type", string "Node")]]),
   ("outputs", array [object [("external", string "o"), ("internal", string "core.out")]])]

def hierConnections : Json :=
  array [object [("dst", string "mem.in"), ("latency", int 2), ("src", string "hier.o")]]

def hierConfig : Json := object
  [("connections", hierConnections),
   ("modules", array
    [object [("config", string "hier.json"), ("name", string "hier"), ("type", string "HierModule")],
     object [("name", string "core"), ("type", string "Node")],
     object [("name", string "mem"), ("type", string "Node")]])]

/-- The include step of the nested call is the identity. -/
def hierEnv : Env :=
  .plain (fun file => if file = "hier.json" then some (some hierFile) else none) dotStarRegex

theorem hierPhases : Phases hierEnv 1 hierConfig nodeTypes hierConnections
    (prepared hierEnv 1 hierConfig nodeTypes)
    (withPorts hierEnv 1 hierConfig nodeTypes hierConnections)
    (finished hierEnv 1 hierConfig nodeTypes) :=
  .ofReturns hierEnv 1 hierConfig hierConnections nodeTypes rfl (by decide +kernel)
    (by decide +kernel) (by decide +kernel)

theorem hierExposed : ExposedEnd (prepared hierEnv 1 hierConfig nodeTypes) "hier.o" 0 "core.out" :=
  ⟨by decide +kernel, by decide, by decide +kernel, by decide⟩

theorem exposed_end_stays_outside_demo : ¬ ReachesInside (prepared hierEnv 1 hierConfig nodeTypes)
    (finished hierEnv 1 hierConfig nodeTypes) ⟨"hier.o", "mem.in", 2⟩ :=
  exposed_end_stays_outside hierPhases (.inl ⟨0, "core.out", hierExposed⟩)

/-- The port asked for `core.out` inside `hier` is made on the outer `core`. -/
theorem outer_core_gets_the_port :
    ExposedEnd (prepared hierEnv 1 hierConfig nodeTypes) "hier.o" 0 "core.out" ∧
    ((prepared hierEnv 1 hierConfig nodeTypes).simModule 0).internalInstances.lookup "core" =
      some (some 3) ∧
    (finished hierEnv 1 hierConfig nodeTypes).labels 3 false = [] ∧
    (finished hierEnv 1 hierConfig nodeTypes).objectInstances.lookup "core" = some (some 1) ∧
    (finished hierEnv 1 hierConfig nodeTypes).labels 1 false = ["out"] ∧
    ¬ ReachesInside (prepared hierEnv 1 hierConfig nodeTypes)
      (finished hierEnv 1 hierConfig nodeTypes) ⟨"hier.o", "mem.in", 2⟩ :=
  ⟨hierExposed, by decide +kernel, by decide +kernel, by decide +kernel, by decide +kernel,
    fun h => not_boundInside hierPhases hierExposed (h.1 0 "core.out" hierExposed)⟩

end
end GemSc
