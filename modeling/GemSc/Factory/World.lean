import GemSc.Config.Names
import GemSc.Core.PortManager

/-! What the factories work on: the heap of `SimObject`s with the part that a `SimModule`
adds, the `SimplePort` part of every port, the `PortPair`s allocated, and the process-wide
registries and group table. -/

namespace GemSc

abbrev ObjPtr := ℕ

structure LayoutInfo where
  x : ℤ := -1
  y : ℤ := -1

structure SimObject where
  name : String
  portManager : Option PortManager := none
  layout : LayoutInfo := {}

/-- An `unordered_map<string, SimObject*>` as the assignments made to it, the newest
first. `operator[]` on a missing key assigns null. -/
abbrev Instances := List (String × Option ObjPtr)

structure ExposedPortConfig where
  internalPath : String
  externalLabel : String

/-- `internalInstances` are the objects that the internal factory created in its last run,
by name; the program itself drops that table when `instantiateAll` returns. -/
structure SimModule where
  outputConfigs : List ExposedPortConfig := []
  inputConfigs : List ExposedPortConfig := []
  internalToExternalMap : List (String × String) := []
  internalInstances : Instances := []

namespace SimModule

def findIn (configs : List ExposedPortConfig) (label : String) : Option String :=
  (configs.find? (·.externalLabel == label)).map (·.internalPath)

def findInternalPath (m : SimModule) (externalLabel : String) : String :=
  match findIn m.outputConfigs externalLabel with
  | some path => path
  | none => (findIn m.inputConfigs externalLabel).getD ""

def isExposedPort (m : SimModule) (externalLabel : String) : Bool :=
  (m.internalToExternalMap.lookup externalLabel).isSome

/-- One loop of `parsePortConfigs`: the entries of a list with both fields non-empty. -/
def parsePorts (key : String) (cfg : Json) : Except Fault (List ExposedPortConfig) :=
  if cfg.contains key then do
    let list ← cfg.index key
    let configs ← list.elements.mapM fun item => do
      let internalPath ← item.value Json.getString "internal" ""
      let externalLabel ← item.value Json.getString "external" ""
      pure (⟨internalPath, externalLabel⟩ : ExposedPortConfig)
    pure (configs.filter fun c => c.internalPath != "" && c.externalLabel != "")
  else pure []

def exposeAll (map : List (String × String)) (configs : List ExposedPortConfig) :
    List (String × String) :=
  configs.foldl (fun map c => (c.externalLabel, c.internalPath) :: map) map

def parsePortConfigs (cfg : Json) (m : SimModule) : Except Fault SimModule := do
  let outputs ← parsePorts "outputs" cfg
  let inputs ← parsePorts "inputs" cfg
  pure { m with
    outputConfigs := m.outputConfigs ++ outputs
    inputConfigs := m.inputConfigs ++ inputs
    internalToExternalMap := exposeAll (exposeAll m.internalToExternalMap outputs) inputs }

end SimModule

structure PortRef where
  owner : ObjPtr
  isUpstream : Bool
  id : ℕ
  deriving DecidableEq

/-- What the constructor of a registered type leaves as the port manager of the new
object of the given name: none, unless the constructor asks for it. -/
abbrev Constructor := String → Option PortManager

structure Registry where
  modules : String → Option Constructor
  objects : String → Option Constructor

/-- Objects are allocated at `next` on. -/
structure World where
  registry : Registry
  groups : Groups := []
  next : ObjPtr := 0
  object : ObjPtr → SimObject := fun _ => { name := "" }
  simModule : ObjPtr → SimModule := fun _ => {}
  wires : PortRef → SimplePort PortRef := fun _ => {}
  pairs : List (PortPair PortRef) := []

namespace World

/-- `new T(name, eq)` -/
def construct (create : Constructor) (name : String) (w : World) : World :=
  { w with
    next := w.next + 1
    object := Function.update w.object w.next { name := name, portManager := create name }
    simModule := Function.update w.simModule w.next {}
    wires := fun r => if r.owner = w.next then {} else w.wires r }

def setLayout (p : ObjPtr) (x y : ℤ) (w : World) : World :=
  { w with object := Function.update w.object p { w.object p with layout := ⟨x, y⟩ } }

def setModule (p : ObjPtr) (m : SimModule) (w : World) : World :=
  { w with simModule := Function.update w.simModule p m }

/-- `new UpstreamPort(..)` or `new DownstreamPort(..)` in the manager of an object. -/
def addPort (p : ObjPtr) (pm : PortManager) (isUpstream : Bool) (sizes priorities : List ℕ)
    (label : String) (w : World) : World :=
  { w with
    object := Function.update w.object p
      { w.object p with portManager := some (pm.addPort isUpstream sizes priorities label) }
    wires := Function.update w.wires ⟨p, isUpstream, (pm.labels isUpstream).length⟩ {} }

/-- `new PortPair(src, dst)` and `src->setDelay(latency)` -/
def link (src dst : PortRef) (latency : ℤ) (w : World) : World :=
  let wires := PortPair.construct w.wires src dst
  { w with
    wires := Function.update wires src ((wires src).setDelay latency)
    pairs := w.pairs ++ [⟨src, dst⟩] }

def labels (w : World) (p : ObjPtr) (isUpstream : Bool) : List String :=
  match (w.object p).portManager with
  | some pm => pm.labels isUpstream
  | none => []

@[simp] theorem portManager_addPort (w : World) (p : ObjPtr) (pm : PortManager) (up : Bool)
    (sizes pri : List ℕ) (l : String) :
    ((w.addPort p pm up sizes pri l).object p).portManager = some (pm.addPort up sizes pri l) := by
  simp [addPort]

end World
end GemSc
