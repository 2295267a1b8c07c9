import GemSc.Factory.PlainConnection
import GemSc.Config.JsonIncluder
import GemSc.Core.Ticks

/-! `ModuleFactory`: its table `instances`, the include step at the entry of
`instantiateAll`, and the start of the ticks. -/

namespace GemSc
open ExceptFold

/-- `JsonIncluder::loadAndInclude(config)`, with the conversion of its argument to a string. -/
def includeStep (files : Files) (fuel : ℕ) (config : Json) : Except Fault Json := do
  let filename ← config.getString
  JsonIncluder.loadAndInclude files fuel filename

def Env.including (env : Env) (fuel : ℕ) : Env :=
  { env with loadAndInclude := includeStep env.files fuel }

/-- `instances` is a map: no name occurs twice. -/
structure ModuleFactory (L : Type) where
  eventQueue : EventQueue (SimEvent ObjPtr L)
  instances : List (String × ObjPtr)
  nodup : (instances.map (·.1)).Nodup

namespace ModuleFactory
variable {L : Type}

def new (eq : EventQueue (SimEvent ObjPtr L)) : ModuleFactory L := ⟨eq, [], List.nodup_nil⟩

def instantiateAll (env : Env) (fuel : ℕ) (config : Json) (f : ModuleFactory L) (w : World) :
    Except Fault (ModuleFactory L × World) := do
  let c ← GemSc.instantiateAll env fuel config w
  -- the tables of the call are its own, and `instances` is not among them
  pure (f, c.toWorld)

def getInstance (f : ModuleFactory L) (name : String) : Option ObjPtr := f.instances.lookup name

def getAllInstances (f : ModuleFactory L) : List (String × ObjPtr) := f.instances

def startAllTicks (f : ModuleFactory L) : ModuleFactory L :=
  { f with eventQueue := (f.instances.map (·.2)).foldl EventQueue.initiateTick f.eventQueue }

end ModuleFactory

def configuredNames (config : Json) : List String :=
  (config.entries "modules").filterMap fun mod =>
    match mod.index "name" with
    | .ok (.string name) => some name
    | _ => none

section
variable {L σ : Type} {env : Env} {config : Json} {w : World}

/-- The factory holds exactly the configured objects, all of them new, and a run ticks each
once a cycle. -/
structure RegisteredAndTicking (b : Bodies ObjPtr L σ) (config : Json) (w : World)
    (f : ModuleFactory L) (w' : World) : Prop where
  registered : ∀ name ∈ configuredNames config, ∃ p, f.getInstance name = some p ∧
    w.next ≤ p ∧ (w'.object p).name = name
  exact_names : ∀ name, name ∈ f.getAllInstances.map (·.1) ↔ name ∈ configuredNames config
  ticking : ∀ name ∈ configuredNames config, ∀ p, f.getInstance name = some p →
    ∀ n fuel s t trace, Sim.run b.process n fuel ⟨f.startAllTicks.eventQueue, s⟩ = some (t, trace) →
      (∀ x ∈ trace, x.NoWrap) → tickCycles p trace = List.range' 1 (n.toNat - 1)

/-- The chain of calls of a simulation: a factory on an empty queue takes the configuration. -/
def Works (env : Env) (b : Bodies ObjPtr L σ) (config : Json) (w : World) : Prop :=
  ∃ fuel f' w', (ModuleFactory.new .new).instantiateAll env fuel config w = .ok (f', w') ∧
    RegisteredAndTicking b config w f' w'

theorem instantiateAll_not_string (env : Env) (includes fuel : ℕ) (hconfig : ∀ s, config ≠ .string s)
    (f : ModuleFactory L) (w : World) :
    f.instantiateAll (env.including includes) (fuel + 1) config w = .error (.typeError 302) := by
  cases config with
  | string s => exact absurd rfl (hconfig s)
  | _ => rfl

theorem not_works_object (env : Env) (includes : ℕ) (b : Bodies ObjPtr L σ)
    (members : List (String × Json)) (w : World) :
    ¬ Works (env.including includes) b (.object members) w := by
  rintro ⟨fuel, f', w', h, -⟩
  cases fuel with
  | zero => cases h
  | succ fuel =>
    rw [instantiateAll_not_string env includes fuel (fun s => by simp)] at h
    cases h

theorem not_registered_of_returns {final : Json} {fuel : ℕ} {f' : ModuleFactory L} {w' : World}
    (b : Bodies ObjPtr L σ) (h : (ModuleFactory.new .new).instantiateAll env fuel config w = .ok (f', w'))
    (hnames : configuredNames final ≠ []) : ¬ RegisteredAndTicking b final w f' w' := by
  intro hworks
  obtain ⟨c, -, h⟩ := bind_eq_ok.mp h
  cases h
  obtain ⟨name, hname⟩ := List.exists_mem_of_ne_nil _ hnames
  obtain ⟨p, hp, -⟩ := hworks.registered name hname
  cases hp

theorem instances_tick {f : ModuleFactory L} (b : Bodies ObjPtr L σ) (hqueue : f.eventQueue = .new)
    (hobjects : (f.instances.map (·.2)).Nodup) {name : String} {p : ObjPtr}
    (hp : f.getInstance name = some p) {n : UInt64} {fuel : ℕ} {s : σ}
    {t : Sim (SimEvent ObjPtr L) σ} {trace : List (Processed (SimEvent ObjPtr L))}
    (hrun : Sim.run b.process n fuel ⟨f.startAllTicks.eventQueue, s⟩ = some (t, trace)) :
    tickCycles p trace = List.range' 1 (n.toNat - 1) := by
  have hmem : p ∈ f.instances.map (·.2) :=
    List.mem_map.mpr ⟨_, Assignments.mem_of_lookup hp, rfl⟩
  rw [ModuleFactory.startAllTicks, hqueue] at hrun
  exact ticks_every_cycle hobjects hmem hrun

/-- No call with a configuration that is an object returns; and a call that does return, for a
configuration that names a file, has registered none of the modules of that file. -/
theorem never_registered (env : Env) (includes : ℕ) (b : Bodies ObjPtr L σ) (config : Json) (w : World) :
    (config.isObject → ¬ Works (env.including includes) b config w) ∧
    ∀ fuel final f' w', (ModuleFactory.new .new).instantiateAll env fuel config w = .ok (f', w') →
      configuredNames final ≠ [] → ¬ RegisteredAndTicking b final w f' w' := by
  refine ⟨fun hobject => ?_, fun fuel final f' w' h hnames => not_registered_of_returns b h hnames⟩
  cases config with
  | object members => exact not_works_object env includes b members w
  | _ => cases hobject

end
section
open Json

def inst0Config : Json := object
  [("connections", array []),
   ("modules", array [object [("name", string "inst0"), ("type", string "CPUSim")]])]

def inst0File : Env :=
  .plain (fun file => if file = "inst0.json" then some (some inst0Config) else none) dotStarRegex

def silent : Bodies ObjPtr Unit Unit := ⟨fun _ _ s => (s, []), fun _ _ s => (s, [])⟩

/-- By its file name the configuration passes the include step. -/
theorem never_registered_demo : ∃ f' w', (ModuleFactory.new .new).instantiateAll
      (inst0File.including 6) 1 (string "inst0.json") (typesWith none) = .ok (f', w') ∧
    ¬ RegisteredAndTicking silent inst0Config (typesWith none) f' w' := by
  have hok : ((ModuleFactory.new (L := Unit) .new).instantiateAll (inst0File.including 6) 1
      (string "inst0.json") (typesWith none)).isOk := by decide +kernel
  obtain ⟨⟨f', w'⟩, hr⟩ : ∃ r, (ModuleFactory.new (L := Unit) .new).instantiateAll
      (inst0File.including 6) 1 (string "inst0.json") (typesWith none) = .ok r :=
    ⟨_, eq_ok_valueOr (d := (ModuleFactory.new .new, (typesWith none))) hok⟩
  refine ⟨f', w', hr, ?_⟩
  exact (never_registered (inst0File.including 6) 6 silent (string "inst0.json") (typesWith none)).2 1
    inst0Config f' w' hr (by decide)

theorem inst0_not_registered :
    configuredNames inst0Config = ["inst0"] ∧ ((typesWith none).registry.objects "CPUSim").isSome ∧
    (ModuleFactory.new (L := Unit) .new).instantiateAll (inst0File.including 6) 1 inst0Config (typesWith none) =
      .error (.typeError 302) ∧
    ¬ Works (inst0File.including 6) silent inst0Config (typesWith none) :=
  ⟨by decide, by decide, rfl, not_works_object inst0File 6 silent _ (typesWith none)⟩

end
end GemSc
