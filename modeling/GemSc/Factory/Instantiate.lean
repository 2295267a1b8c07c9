import GemSc.Factory.World

/-! `ModuleFactory::instantiateAll`, phase by phase. One call carries the world and its two
local instance tables; the calls it makes to the internal factories of its modules go
through the parameter `nested`. -/

namespace GemSc

/-- What is not under the factory's control: the files, `std::regex`, the include step at
the entry of `instantiateAll`, what loading a plugin registers, and the iteration order of
an `unordered_map` whose keys were assigned in the given order. -/
structure Env where
  files : String → Option (Option Json)
  regexMatch : RegexMatch
  loadAndInclude : Json → Except Fault Json
  loadPlugin : String → Registry → Registry
  order : List String → List String
  order_perm : ∀ keys, (order keys).Perm keys.dedup

/-- No plugins, and maps visited in the order they are listed. The include step takes a configuration
as it is, also that of a nested call, which the step of the source refuses when it is an object. -/
def Env.plain (files : String → Option (Option Json)) (regexMatch : RegexMatch) : Env where
  files := files
  regexMatch := regexMatch
  loadAndInclude := .ok
  loadPlugin _ reg := reg
  order := List.dedup
  order_perm _ := .rfl

structure Call extends World where
  objectInstances : Instances := []
  moduleInstances : Instances := []

abbrev Nested := Json → World → Except Fault Call

def deref : Option ObjPtr → Except Fault ObjPtr
  | some p => .ok p
  | none => .error .nullDeref

namespace Call

def loadPlugin (env : Env) (c : Call) (plugin : Json) : Except Fault Call := do
  let path ← plugin.getString
  pure { c with registry := env.loadPlugin path c.registry }

/-- Phase 1. -/
def loadPlugins (env : Env) (cfg : Json) (c : Call) : Except Fault Call :=
  if cfg.contains "plugin" then do
    let plugins ← cfg.index "plugin"
    plugins.elements.foldlM (loadPlugin env) c
  else pure c

def create (name type : String) (c : Call) : Call :=
  match c.registry.modules type with
  | some ctor =>
    { c with
      toWorld := c.toWorld.construct ctor name
      objectInstances := (name, some c.next) :: c.objectInstances
      moduleInstances := (name, some c.next) :: c.moduleInstances }
  | none => match c.registry.objects type with
    | some ctor =>
      { c with
        toWorld := c.toWorld.construct ctor name
        objectInstances := (name, some c.next) :: c.objectInstances }
    -- an unknown type is reported and leaves everything as it is
    | none => c

/-- `object_instances[name]->setLayout(x, y)` -/
def setLayout (name : String) (x y : ℤ) (c : Call) : Except Fault Call := do
  -- the null that `operator[]` inserts for a missing name is dereferenced at once
  let p ← deref (c.objectInstances.lookup name).join
  pure { c with toWorld := c.toWorld.setLayout p x y }

def placeInstance (mod : Json) (name : String) (c : Call) : Except Fault Call :=
  if mod.contains "layout" then do
    let l ← mod.index "layout"
    let x ← l.value Json.getInt "x" (-1)
    let y ← l.value Json.getInt "y" (-1)
    if 0 ≤ x ∧ 0 ≤ y then c.setLayout name x y else pure c
  else pure c

/-- Phase 2, for one entry of `modules`. -/
def createInstance (c : Call) (mod : Json) : Except Fault Call :=
  if mod.contains "name" && mod.contains "type" then do
    let nameField ← mod.index "name"
    let name ← nameField.getString
    let typeField ← mod.index "type"
    let type ← typeField.getString
    (c.create name type).placeInstance mod name
  else pure c

def defineGroup (c : Call) (group : String × Json) : Except Fault Call := do
  let members ← group.2.getStrings
  pure { c with groups := ModuleGroup.define group.1 members c.groups }

/-- Phase 3. -/
def defineGroups (cfg : Json) (c : Call) : Except Fault Call :=
  if cfg.contains "groups" then do
    let groups ← cfg.index "groups"
    groups.items.foldlM defineGroup c
  else pure c

/-- `SimModule::instantiate`; what the call of the internal factory ends with is marked as
the nested call's. -/
def instantiate (nested : Nested) (m : ObjPtr) (cfg : Json) (c : Call) : Except Fault Call := do
  let inner ← (nested cfg c.toWorld).mapError Fault.nested
  let sm ← (inner.simModule m).parsePortConfigs cfg
  pure { c with
    toWorld := inner.toWorld.setModule m { sm with internalInstances := inner.objectInstances } }

/-- Phase 4, for one entry of `modules`. -/
def instantiateModule (env : Env) (nested : Nested) (c : Call) (mod : Json) : Except Fault Call :=
  if mod.contains "config" then do
    let nameField ← mod.index "name"
    let name ← nameField.getString
    match c.moduleInstances.lookup name with
    -- `module_instances[name]` inserts null for a name that is not there
    | none => pure { c with moduleInstances := (name, none) :: c.moduleInstances }
    | some none => pure c
    | some (some m) => do
      let configField ← mod.index "config"
      let configFile ← configField.getString
      match env.files configFile with
      | none => pure c
      | some none => .error .parseError
      | some (some cfg) => c.instantiate nested m cfg
  else pure c

def prepare (env : Env) (nested : Nested) (cfg : Json) (w : World) : Except Fault Call := do
  let c ← loadPlugins env cfg { toWorld := w }
  let modules ← cfg.index "modules"
  let c ← modules.elements.foldlM createInstance c
  let c ← defineGroups cfg c
  modules.elements.foldlM (instantiateModule env nested) c

end Call

structure Connection where
  src : String
  dst : String
  latency : ℤ

def readConnection (conn : Json) : Except Fault (Option Connection) :=
  if conn.contains "src" && conn.contains "dst" then do
    let srcField ← conn.index "src"
    let src ← srcField.getString
    let dstField ← conn.index "dst"
    let dst ← dstField.getString
    let latency ← conn.value Json.getInt "latency" 0
    pure (some ⟨src, dst, latency⟩)
  else pure none

structure Endpoint where
  owner : String
  port : String
  exposed : Bool

structure PortCreationInfo where
  ownerName : String
  portName : String
  bufferSizes : List ℕ
  priorities : List ℕ
  isUpstream : Bool

def readSizes (conn : Json) (key : String) : Except Fault (List ℕ) :=
  if conn.contains key then do
    let sizes ← conn.index key
    sizes.getSizes
  else pure []

def readPriorities (wanted : Bool) (conn : Json) : Except Fault (List ℕ) :=
  if wanted then readSizes conn "vc_priorities" else pure []

namespace Call

/-- The first lines of each of the four endpoint blocks: where a specification leads, by
the exposed ports of a module, or as it stands. -/
def findEndpoint (c : Call) (spec : String) : Except Fault (Option Endpoint) :=
  let (moduleName, portName) := parsePortSpec spec
  match c.moduleInstances.lookup moduleName with
  -- the key is there, whatever pointer it holds
  | some m =>
    if portName = "" then pure none
    else do
      let m ← deref m
      let internalPath := (c.simModule m).findInternalPath portName
      if internalPath = "" then pure none
      else
        let (internalOwner, internalPort) := parsePortSpec internalPath
        pure (some ⟨internalOwner, internalPort, true⟩)
  | none => pure (if portName = "" then none else some ⟨moduleName, portName, false⟩)

/-- A source or destination block of phase 5. -/
def endpointCreation (sizesKey : String) (isUpstream plainPriorities : Bool) (c : Call)
    (conn : Json) (spec : String) : Except Fault (List PortCreationInfo) := do
  match ← c.findEndpoint spec with
  | none => pure []
  | some e =>
    let sizes ← readSizes conn sizesKey
    let priorities ← readPriorities (e.exposed || plainPriorities) conn
    pure [⟨e.owner, e.port, 4 :: sizes, priorities, isUpstream⟩]

def srcCreation : Call → Json → String → Except Fault (List PortCreationInfo) :=
  endpointCreation "output_buffer_sizes" false true

/-- Unlike the other blocks, that of a plain destination reads no `vc_priorities`. -/
def dstCreation : Call → Json → String → Except Fault (List PortCreationInfo) :=
  endpointCreation "input_buffer_sizes" true false

/-- Phase 5, for one connection. -/
def portCreations (c : Call) (conn : Json) : Except Fault (List PortCreationInfo) := do
  match ← readConnection conn with
  | none => pure []
  | some s =>
    let src ← c.srcCreation conn s.src
    let dst ← c.dstCreation conn s.dst
    pure (src ++ dst)

def createPort (c : Call) (info : PortCreationInfo) : Except Fault Call :=
  match c.objectInstances.lookup info.ownerName with
  | none => pure c
  | some o => do
    let p ← deref o
    match (c.object p).portManager with
    -- `hasPortManager()` is asked, and no manager is made
    | none => pure c
    | some pm => pure { c with
        toWorld := c.toWorld.addPort p pm info.isUpstream info.bufferSizes info.priorities info.portName }

def createPorts (connections : List Json) (c : Call) : Except Fault Call := do
  let creations ← connections.mapM c.portCreations
  creations.flatten.foldlM createPort c

def resolveNames (env : Env) (c : Call) (spec : String) : List String :=
  if ModuleGroup.isGroupReference spec then ModuleGroup.resolve c.groups spec
  -- `Wildcard::match("*", spec)` has the specification where the text goes
  else if RegexMatcher.isRegexPattern spec || Wildcard.isMatch env.regexMatch "*" spec then
    (env.order (c.objectInstances.map (·.1))).filter (RegexMatcher.isMatch env.regexMatch spec)
  else [spec]

/-- A source or destination lookup of phase 6. -/
def findPort (isUpstream : Bool) (c : Call) (name : String) : Except Fault (Option PortRef) := do
  match ← c.findEndpoint name with
  | none => pure none
  | some e => match c.objectInstances.lookup e.owner with
    | none => pure none
    | some o => do
      let p ← deref o
      pure ((c.object p).portManager.bind fun pm =>
        (pm.getPort isUpstream e.port).map fun i => ⟨p, isUpstream, i⟩)

def findSrcPort : Call → String → Except Fault (Option PortRef) := findPort false

def findDstPort : Call → String → Except Fault (Option PortRef) := findPort true

def linkFound (c : Call) (latency : ℤ) (src dst : Option PortRef) : Call :=
  match src, dst with
  | some s, some d => { c with toWorld := c.toWorld.link s d latency }
  | _, _ => c

def linkNames (latency : ℤ) (srcNames dstNames : List String) (c : Call) : Except Fault Call :=
  srcNames.foldlM (fun c srcFull => do
    let src ← c.findSrcPort srcFull
    dstNames.foldlM (fun c dstFull => do
      let dst ← c.findDstPort dstFull
      pure (c.linkFound latency src dst)) c) c

/-- Phase 6, for one connection. -/
def connect (env : Env) (c : Call) (conn : Json) : Except Fault Call := do
  match ← readConnection conn with
  | none => pure c
  | some s =>
    let excludeList ← conn.value .ok "exclude" (.array [])
    let srcNames ← filterExcluded env.regexMatch excludeList (c.resolveNames env s.src)
    let dstNames ← filterExcluded env.regexMatch excludeList (c.resolveNames env s.dst)
    c.linkNames s.latency srcNames dstNames

def wirePorts (env : Env) (cfg : Json) (c : Call) : Except Fault Call := do
  let connections ← cfg.index "connections"
  let c ← c.createPorts connections.elements
  connections.elements.foldlM (connect env) c

end Call

/-- `instantiateAll` once `final_config` is there. -/
def instantiateFinal (env : Env) (nested : Nested) (finalConfig : Json) (w : World) :
    Except Fault Call := do
  let c ← Call.prepare env nested finalConfig w
  c.wirePorts env finalConfig

/-- The fuel bounds the depth of nested modules. -/
def instantiateAll (env : Env) : ℕ → Nested
  | 0, _, _ => .error .outOfFuel
  | fuel + 1, config, w => do
    let finalConfig ← env.loadAndInclude config
    instantiateFinal env (instantiateAll env fuel) finalConfig w

end GemSc
