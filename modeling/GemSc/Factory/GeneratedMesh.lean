import GemSc.Config.WildcardGlob
import GemSc.Factory.PlainConnection
import GemSc.Noc.MeshTopology

/-! The configuration that the mesh generator builds, in the hands of the factory. Its connections name
ports of routers, and phase 6 takes such a name for a pattern of object names. -/

namespace GemSc
open ExceptFold

namespace Call
variable {env : Env} {nested : Nested} {w : World} {c c' : Call} {cfg conns : Json}

def NamesEntry (mods : List Json) (name : String) : Prop :=
  ∃ mod ∈ mods, mod.index "name" = .ok (.string name)

theorem objectInstances_createInstance {mods : List Json} {mod : Json} (hmod : mod ∈ mods)
    (hnames : ∀ n ∈ c.objectInstances.map (·.1), NamesEntry mods n)
    (h : createInstance c mod = .ok c') :
    ∀ n ∈ c'.objectInstances.map (·.1), NamesEntry mods n := by
  rcases createInstance_ok h with ⟨rfl, -⟩ | ⟨name, type, hentry, hplace⟩
  · exact hnames
  have hmore : ∀ o, ∀ n ∈ ((name, o) :: c.objectInstances).map (·.1), NamesEntry mods n := by
    intro o n hn
    rcases List.mem_cons.mp hn with rfl | hn
    · exact ⟨mod, hmod, hentry.name⟩
    · exact hnames n hn
  have hcreated : ∀ n ∈ (c.create name type).objectInstances.map (·.1), NamesEntry mods n := by
    rcases c.create_cases name type with ⟨ctor, -, heq⟩ | ⟨ctor, -, -, heq⟩ | ⟨-, -, heq⟩
    · rw [heq]
      exact hmore _
    · rw [heq]
      exact hmore _
    · rw [heq]
      exact hnames
  rcases placeInstance_ok hplace with ⟨rfl, -⟩ | ⟨x, y, p, -, -, rfl⟩
  · exact hcreated
  · exact hcreated

theorem objectInstances_prepare {mods : Json} (hmods : cfg.index "modules" = .ok mods)
    (h : prepare env nested cfg w = .ok c) :
    ∀ n ∈ c.objectInstances.map (·.1), NamesEntry mods.elements n := by
  obtain ⟨mods', c₁, defs, hmods', hcreate, -, hinst⟩ := prepare_ok h
  obtain rfl := Except.ok.inj (hmods.symm.trans hmods')
  have hcreated : ∀ n ∈ c₁.objectInstances.map (·.1), NamesEntry mods.elements n :=
    foldlM_invariant (fun d : Call => ∀ n ∈ d.objectInstances.map (·.1), NamesEntry mods.elements n)
      hcreate (fun _ hn => absurd hn List.not_mem_nil)
      fun mod hmod d e hd hstep => objectInstances_createInstance hmod hd hstep
  refine foldlM_invariant
    (fun d : Call => ∀ n ∈ d.objectInstances.map (·.1), NamesEntry mods.elements n) hinst hcreated ?_
  intro mod _ d e hd hstep
  rcases instantiateModule_ok hstep with ⟨rfl, -⟩ | ⟨name, -, -, rfl⟩ |
    ⟨name, m, -, cfg', -, -, -, -, hmodule⟩
  · exact hd
  · exact hd
  · obtain ⟨inner, sm, -, -, rfl⟩ := instantiate_ok hmodule
    exact hd

/-- Where no source is a group and a star matches every one of them, nothing is wired. -/
theorem unwired_of_noGroups {fuel : ℕ}
    (h : instantiateFinal env (instantiateAll env fuel) cfg w = .ok c')
    {mods : Json} (hmods : cfg.index "modules" = .ok mods)
    (hdots : ∀ n, NamesEntry mods.elements n → '.' ∉ n.toList)
    (hconns : cfg.index "connections" = .ok conns)
    (hsources : ∀ conn ∈ conns.elements, ∀ s, readConnection conn = .ok (some s) →
      ModuleGroup.isGroupReference s.src = false ∧
        Wildcard.isMatch env.regexMatch "*" s.src = true) : c'.Unwired := by
  obtain ⟨c, hprepare, hwire⟩ := bind_eq_ok.mp h
  obtain ⟨conns', c₅, hconns', hports, -⟩ := wirePorts_ok hwire
  obtain rfl := Except.ok.inj (hconns.symm.trans hconns')
  have hphases : Phases env fuel cfg w conns c c₅ c' := ⟨h, hprepare, hconns, hports⟩
  have hnames : ∀ n ∈ c₅.objectInstances.map (·.1), '.' ∉ n.toList := by
    intro n hn
    rw [hphases.rewired.objectInstances] at hn
    exact hdots n (objectInstances_prepare hmods hprepare n hn)
  have hnone : conns.elements.flatMap (c₅.wirings env) = [] := by
    rw [List.flatMap_eq_nil_iff]
    intro conn hconn
    rw [List.eq_nil_iff_forall_not_mem]
    intro x hx
    obtain ⟨s, hs, -, hsrc, -⟩ := mem_wirings hx
    obtain ⟨hgroup, hstar⟩ := hsources conn hconn s hs
    rw [reached_eq_nil hgroup hstar hnames] at hsrc
    exact absurd hsrc List.not_mem_nil
  rw [hphases.wired, hnone, withWirings_nil]
  exact hphases.unwired

end Call

namespace NodeDict

def toJson (n : NodeDict) : Json := .object [("name", .string n.name), ("type", .string n.type)]

end NodeDict

namespace ConnectionDict

def toJson (e : ConnectionDict) : Json := .object [("dst", .string e.dst), ("src", .string e.src)]

end ConnectionDict

def buildGemscConfig (topology : MeshTopology) (terminalNodes : List Json) (pluginList : List String) :
    Json :=
  .object
    [("connections", .array (topology.generateConnections.map ConnectionDict.toJson)),
     ("modules", .array (topology.generateNodes.map NodeDict.toJson ++ terminalNodes)),
     ("plugin", .array (pluginList.map .string))]

namespace MeshTopology
variable {t : MeshTopology} {terminals : List Json} {plugins : List String}

theorem oneLine_append {l l' : List Char} (h : OneLine l) (h' : OneLine l') : OneLine (l ++ l') := by
  intro c hc
  rcases List.mem_append.mp hc with hc | hc
  · exact h c hc
  · exact h' c hc

theorem oneLine_digits (n : ℕ) : OneLine (toString n).toList := by
  intro c hc hline
  have hdigit : c.isDigit = false := by
    simp only [lineTerminators, List.mem_cons, List.not_mem_nil, or_false] at hline
    rcases hline with rfl | rfl | rfl | rfl <;> rfl
  exact notMem_digits hdigit n hc

theorem toList_src (l : MeshLink) : l.connection.src.toList =
    (nodeId l.src.1 l.src.2).toList ++ '.' :: l.side.outPort.toList := by
  simp [MeshLink.connection]

theorem oneLine_src (l : MeshLink) : OneLine l.connection.src.toList := by
  have hstart : OneLine ['r'] := by simp [OneLine, lineTerminators]
  have hmiddle : OneLine ['_'] := by simp [OneLine, lineTerminators]
  have hport : OneLine ('.' :: l.side.outPort.toList) := by
    cases l.side with
    | east => simp [OneLine, lineTerminators, Side.outPort]
    | west => simp [OneLine, lineTerminators, Side.outPort]
    | south => simp [OneLine, lineTerminators, Side.outPort]
    | north => simp [OneLine, lineTerminators, Side.outPort]
  have hrow := oneLine_append hstart (oneLine_digits l.src.1)
  have hcol := oneLine_append hmiddle (oneLine_digits l.src.2)
  rw [toList_src, toList_nodeId]
  exact oneLine_append (oneLine_append hrow hcol) hport

theorem isGroupReference_src (l : MeshLink) :
    ModuleGroup.isGroupReference l.connection.src = false := by
  unfold ModuleGroup.isGroupReference startsWith
  rw [toList_src, toList_nodeId]
  rfl

theorem readConnection_toJson (e : ConnectionDict) :
    readConnection e.toJson = .ok (some ⟨e.src, e.dst, 0⟩) := rfl

/-- The mesh that the generator describes is never wired. Where a star matches every text of one line,
whatever the plugins register, a factory that returns leaves all ports of its objects unbound. -/
theorem generated_mesh_unwired {env : Env} {fuel : ℕ} {w : World} {c' : Call} (t : MeshTopology)
    (terminals : List Json) (plugins : List String)
    (hstar : ∀ str, OneLine str.toList → Wildcard.isMatch env.regexMatch "*" str = true)
    (hterminals : ∀ name, Call.NamesEntry terminals name → '.' ∉ name.toList)
    (h : instantiateFinal env (instantiateAll env fuel) (buildGemscConfig t terminals plugins) w =
      .ok c') : c'.Unwired := by
  refine Call.unwired_of_noGroups h rfl ?_ rfl ?_
  · rintro name ⟨mod, hmod, hname⟩
    rcases List.mem_append.mp hmod with hnode | hterminal
    · rw [t.generateNodes_eq, List.map_map] at hnode
      obtain ⟨p, -, rfl⟩ := List.mem_map.mp hnode
      cases hname
      exact dot_notMem_nodeId p.1 p.2
    · exact hterminals name ⟨mod, hterminal, hname⟩
  · intro conn hconn s hs
    rw [t.generateConnections_eq] at hconn
    obtain ⟨e, he, rfl⟩ := List.mem_map.mp hconn
    obtain ⟨l, -, rfl⟩ := List.mem_map.mp he
    rw [readConnection_toJson] at hs
    cases hs
    exact ⟨isGroupReference_src l, hstar _ (oneLine_src l)⟩

def routerTypes : World where
  registry :=
    { modules := fun _ => none
      objects := fun t => if t = "Router" then some fun _ => some .empty else none }

def pairConfig : Json := buildGemscConfig ⟨1, 2⟩ [] []

theorem dotStarRegex_star (str : String) : Wildcard.isMatch dotStarRegex "*" str = true := by
  have hregex : Wildcard.regexStr "*" = "^.*$" := by decide +kernel
  have hany : str.toList.tails.any (dotStarMatch []) = true :=
    List.any_eq_true.mpr ⟨[], (List.mem_tails _ _).mpr (List.nil_suffix ..), rfl⟩
  unfold Wildcard.isMatch
  rw [hregex]
  exact hany

theorem generated_mesh_unwired_pair : (finished oneLine 0 pairConfig routerTypes).Unwired := by
  have hreturns : (instantiateFinal oneLine (instantiateAll oneLine 0) pairConfig routerTypes).isOk := by
    decide +kernel
  have hrun : instantiateFinal oneLine (instantiateAll oneLine 0) pairConfig routerTypes =
      .ok (finished oneLine 0 pairConfig routerTypes) := eq_ok_valueOr hreturns
  refine generated_mesh_unwired ⟨1, 2⟩ [] [] (fun str _ => dotStarRegex_star str) ?_ hrun
  rintro name ⟨mod, hmod, -⟩
  exact absurd hmod List.not_mem_nil

end MeshTopology
end GemSc
