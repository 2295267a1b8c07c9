import GemSc.Factory.Registration
import GemSc.Layout.PinnedNodes

/-! `TopologyDumper::dumpToDot`: the instances of a factory with their places, the groups and the links
between instances, as the statements of the graph that it writes. -/

namespace GemSc

/-- The `pos` of a node: its own place, pinned with an exclamation mark, or that of the layout. -/
inductive DotPos (K : Type)
  | pinned (x y : ℤ)
  | placed (x y : K)
  deriving DecidableEq

structure DotNode (K : Type) where
  name : String
  pos : Option (DotPos K)
  deriving DecidableEq

structure DotEdge where
  src : String
  dst : String
  delay : ℤ
  deriving DecidableEq

structure DotGraph (K : Type) where
  nodes : List (DotNode K)
  clusters : List (String × List String)
  edges : List DotEdge
  deriving DecidableEq

inductive DumpFault
  | json (fault : Fault)
  | arith (fault : ArithFault)
  | outOfRange
  deriving DecidableEq

/-- `LayoutInfo::valid` -/
def LayoutInfo.valid (l : LayoutInfo) : Bool := 0 ≤ l.x && 0 ≤ l.y

namespace TopologyDumper

def getGroupPlacement (config : Json) (groupName defaultVal : String) : Except Fault String :=
  if config.contains "groups" then do
    let groups ← config.index "groups"
    -- `find` on anything but an object ends at the end
    if groups.contains groupName then do
      let it ← groups.index groupName
      if it.isObject && it.contains "placement" then do
        let placement ← it.index "placement"
        placement.getString
      else pure defaultVal
    else pure defaultVal
  else pure defaultVal

/-- The object that a port belongs to; null for what is no `SlavePort`. -/
def findOwner (w : World) (port : PortRef) (instances : List (String × ObjPtr)) : Option ObjPtr :=
  (instances.find? fun e =>
    port.isUpstream && port.owner == e.2 && decide (port.id < (w.labels e.2 true).length)).map (·.2)

def downstreamPorts (w : World) (obj : ObjPtr) : List PortRef :=
  (List.range (w.labels obj false).length).map (⟨obj, false, ·⟩)

def links (w : World) (instances : List (String × ObjPtr)) : List (String × String) :=
  instances.flatMap fun e => (downstreamPorts w e.2).filterMap fun port => do
    let peer ← (w.wires port).sendTarget
    let dst ← findOwner w peer instances
    pure (e.1, (w.object dst).name)

/-- `src_name + "->" + dst_name` -/
def edgeKey (e : String × String) : String := e.1 ++ "->" ++ e.2

/-- `edge_set` holds the keys of the edges so far. -/
def addEdge (edges : List (String × String)) (e : String × String) : List (String × String) :=
  if edgeKey e ∈ edges.map edgeKey then edges else edges ++ [e]

def allEdges (w : World) (instances : List (String × ObjPtr)) : List (String × String) :=
  (links w instances).foldl addEdge []

/-- The delay of the first port of `src` that is bound to a port of an object of that name. -/
def edgeDelay (w : World) (src : ObjPtr) (dst : String) : ℤ :=
  match (downstreamPorts w src).find? fun port =>
    (w.wires port).sendTarget.any fun peer => (w.object peer.owner).name == dst with
  | some port => (w.wires port).delayCycles
  | none => 0

/-- `factory.getInstance(name)->..` -/
def derefInstance {L : Type} (f : ModuleFactory L) (name : String) : Except Fault ObjPtr :=
  deref (f.getInstance name)

variable {K L : Type} [Field K] (f : ModuleFactory L) (w : World) (config : Json)

def addInstance (e : String × ObjPtr) : LayoutCall K :=
  let l := (w.object e.2).layout
  if l.valid then .addNode e.1 l.x l.y else .addNode e.1 (-1) (-1)

/-- Members with a place of their own are not clustered. -/
def groupMember (groupName member : String) : Except Fault (List (LayoutCall K)) := do
  let obj ← derefInstance f member
  pure (if (w.object obj).layout.valid then [] else [.setGroup member groupName])

def placeGroup (groupName : String) : Except Fault (List (LayoutCall K)) := do
  let members := ModuleGroup.getMembers w.groups groupName
  let placement ← getGroupPlacement config groupName "circle"
  let placed : List (LayoutCall K) :=
    if placement ∈ ["grid", "linear", "radial", "circle"] then
      [.setGroupPlacement groupName members placement ((800 / 2 : ℕ) : K) ((600 / 2 : ℕ) : K) 120]
    else []
  let grouped ← members.mapM (groupMember f w groupName)
  pure (placed ++ grouped.flatten)

/-- The calls to the layout engine, in order. -/
def layoutCalls (style : String) (groupNames : List String) : Except Fault (List (LayoutCall K)) := do
  let added := f.getAllInstances.map (addInstance w)
  -- no number is drawn for a grid
  let initial : List (LayoutCall K) :=
    if style = "auto" then [.setInitialPlacement "grid" 800 600 fun _ => (0, 0)] else []
  let groups ← groupNames.mapM (placeGroup f w config)
  let final : List (LayoutCall K) := if style = "auto" then [.run 800 600] else []
  pure (added ++ initial ++ groups.flatten ++ final)

def printNode (style : String) (positions : String → Option (Point K)) (e : String × ObjPtr) :
    Except DumpFault (DotNode K) :=
  match positions e.1 with
  | none => .error .outOfRange
  | some pos =>
    let l := (w.object e.2).layout
    if style = "manual" then .ok ⟨e.1, if l.valid then some (.pinned l.x l.y) else none⟩
    else .ok ⟨e.1, some (.placed pos.x pos.y)⟩

def printEdge (e : String × String) : DotEdge :=
  ⟨e.1, e.2, ((f.getInstance e.1).map fun src => edgeDelay w src e.2).getD 0⟩

variable [LinearOrder K] (params : LayoutParams K) (order : HashOrder String)

/-- `order` is that of the group table. -/
def dumpToDot : Except DumpFault (DotGraph K) := do
  let style ← (config.value Json.getString "layout.style" "auto").mapError .json
  let groupNames := order.visit (w.groups.map (·.1)).dedup
  let calls ← (layoutCalls f w config style groupNames).mapError .json
  let layout ← (LayoutCall.applyAll params calls).mapError .arith
  let nodes ← f.getAllInstances.mapM (printNode w style layout.positions)
  pure
    { nodes := nodes
      clusters := groupNames.map fun name => (name, ModuleGroup.getMembers w.groups name)
      edges := (allEdges w f.getAllInstances).map (printEdge f w) }

end TopologyDumper
end GemSc
