import GemSc.Factory.PlainConnection
import GemSc.Lib.Glob

/-! Connections between sets of objects. What a specification denotes is stated here from
its purpose: a group, a regular expression, or a glob pattern over names. Phase 5 makes no
port for it, and phase 6 looks for none under a name alone. -/

namespace GemSc
open ExceptFold

/-- A name pattern: a regular expression behind `regex:`, else a glob. -/
def patternDenotes (regexMatch : RegexMatch) (pattern name : String) : Bool :=
  if RegexMatcher.isRegexPattern pattern then
    regexMatch (RegexMatcher.extractRegex pattern) name == some true
  else Glob.isMatch pattern.toList name.toList

def specDenotes (env : Env) (groups : Groups) (spec name : String) : Bool :=
  if ModuleGroup.isGroupReference spec then (ModuleGroup.resolve groups spec).contains name
  else patternDenotes env.regexMatch spec name

theorem specDenotes_name {env : Env} {groups : Groups} {spec name : String}
    (hgroup : ModuleGroup.isGroupReference spec = false)
    (hregex : RegexMatcher.isRegexPattern spec = false)
    (hliteral : ∀ ch ∈ spec.toList, ch ≠ '*' ∧ ch ≠ '?') :
    specDenotes env groups spec name = true ↔ name = spec := by
  rw [specDenotes, patternDenotes, hgroup, hregex, if_neg Bool.false_ne_true,
    if_neg Bool.false_ne_true, Glob.isMatch_iff, Glob.matches_literal hliteral]
  exact String.toList_inj

/-- Some entry of the exclusion list of the connection denotes the name. -/
def excludes (env : Env) (conn : Json) (name : String) : Bool :=
  match conn.value .ok "exclude" (.array []) with
  | .ok excl => excl.elements.any fun e => match e with
    | .string pattern => patternDenotes env.regexMatch pattern name
    | _ => false
  | .error _ => false

namespace Call

def isPlain (c : Call) (name : String) : Bool :=
  (c.objectInstances.lookup name).isSome && (c.moduleInstances.lookup name).join.isNone

def denoted (env : Env) (c : Call) (conn : Json) (spec : String) : Finset String :=
  (c.objectInstances.map (·.1)).toFinset.filter fun name =>
    c.isPlain name && specDenotes env c.groups spec name && !excludes env conn name

end Call

section
variable {env : Env} {fuel : ℕ} {cfg conns conn : Json} {pre post : List Json} {w : World}
variable {c c₅ c' e e' d d' : Call}

structure Passes (env : Env) (c c₅ : Call) (conns : Json) (pre : List Json) (conn : Json)
    (post : List Json) (e e' d d' : Call) : Prop where
  split : conns.elements = pre ++ conn :: post
  created : ∃ before own, pre.mapM c.portCreations = .ok before ∧ c.portCreations conn = .ok own ∧
    before.flatten.foldlM Call.createPort c = .ok e ∧ own.foldlM Call.createPort e = .ok e'
  connected : pre.foldlM (Call.connect env) c₅ = .ok d ∧ d.connect env conn = .ok d'

def CreatedBetween (e e' : Call) (r : PortRef) : Prop :=
  (e.labels r.owner r.isUpstream).length ≤ r.id ∧ r.id < (e'.labels r.owner r.isUpstream).length

/-- The pair joins a downstream port and an upstream port made for it, and lasts. -/
structure OwnLink (e e' c' : Call) (latency : ℤ) (x : PortPair PortRef) : Prop where
  src_created : x.sideA.isUpstream = false ∧ CreatedBetween e e' x.sideA
  dst_created : x.sideB.isUpstream = true ∧ CreatedBetween e e' x.sideB
  bound : (c'.wires x.sideA).sendTarget = some x.sideB ∧ (c'.wires x.sideB).sendTarget = some x.sideA
  delay : (c'.wires x.sideA).delayCycles = latency

/-- The connection has produced one link for each source and each destination. -/
structure Expanded (S D : Finset String) (latency : ℤ) (e e' d d' c' : Call) : Prop where
  links : ∃ links, d'.pairs = d.pairs ++ links ∧ links.length = S.card * D.card ∧
    (links.map PortPair.sideA).Nodup ∧ (links.map PortPair.sideB).Nodup ∧
    (∀ s ∈ S, ∀ t ∈ D, ∃ x ∈ links, c'.objectInstances.lookup s = some (some x.sideA.owner) ∧
      c'.objectInstances.lookup t = some (some x.sideB.owner)) ∧
    ∀ x ∈ links, OwnLink e e' c' latency x
  upstream : ∀ t ∈ D, ∀ p, c'.objectInstances.lookup t = some (some p) →
    (e'.labels p true).length = (e.labels p true).length + S.card

/-- There is nothing to link, no link is made, and no port is made at a destination. -/
structure Idle (env : Env) (c c₅ : Call) (conn : Json) (s : Connection) : Prop where
  empty : c.denoted env conn s.src = ∅ ∨ c.denoted env conn s.dst = ∅
  unreached : c₅.reached env false conn s.src = [] ∨ c₅.reached env true conn s.dst = []
  unasked : ∀ t ∈ c.denoted env conn s.dst, ∀ p, c.objectInstances.lookup t = some (some p) →
    (c.object p).portManager.isSome → ∀ port, ¬ c.LeadsTo s.dst t port

/-- No object is named with a dot, or like a reference to a group. -/
def PlainNames (c : Call) : Prop :=
  ∀ n ∈ c.objectInstances.map (·.1), '.' ∉ n.toList ∧ ModuleGroup.isGroupReference n = false

end

namespace Call
variable {env : Env} {conn : Json} {w : World} {c c' : Call}

def Adds (c : Call) (p : ObjPtr) (up : Bool) (info : PortCreationInfo) : Bool :=
  info.isUpstream == up && c.objectInstances.lookup info.ownerName == some (some p) &&
    (c.object p).portManager.isSome

theorem adds_createPort {info : PortCreationInfo} (h : createPort c info = .ok c') (p : ObjPtr)
    (up : Bool) : c'.Adds p up = c.Adds p up := by
  have hr : Rewired ∅ c c' := rewired_createPort avoids_empty h
  funext info'
  rw [Adds, Adds, hr.objectInstances, manager_createPort h]

theorem labels_createPort {info : PortCreationInfo} (h : createPort c info = .ok c') (p : ObjPtr)
    (up : Bool) : (c'.labels p up).length =
      (c.labels p up).length + if c.Adds p up info then 1 else 0 := by
  rcases createPort_ok h with ⟨rfl, hnone⟩ | ⟨q, pm, hq, hpm, rfl⟩
  · rw [if_neg]
    · rfl
    intro hadds
    simp only [Adds, Bool.and_eq_true, beq_iff_eq] at hadds
    rw [hnone p hadds.1.2] at hadds
    exact absurd hadds.2 (by simp)
  · by_cases hqp : p = q
    · subst hqp
      have hlabels : c.labels p up = pm.labels up := by rw [World.labels, hpm]
      have hlabels' : (c.toWorld.addPort p pm info.isUpstream info.bufferSizes info.priorities
          info.portName).labels p up =
          (pm.addPort info.isUpstream info.bufferSizes info.priorities info.portName).labels up := by
        rw [World.labels, World.portManager_addPort]
      change ((c.toWorld.addPort _ _ _ _ _ _).labels p up).length = _
      rw [hlabels, hlabels']
      by_cases hup : info.isUpstream = up
      · subst hup
        have hadds : c.Adds p info.isUpstream info = true := by simp [Adds, hq, hpm]
        rw [PortManager.labels_addPort_self, if_pos hadds]
        simp
      · have hadds : ¬ c.Adds p up info = true := by simp [Adds, hup]
        rw [PortManager.labels_addPort_other (Ne.symm hup), if_neg hadds]
        rfl
    · have hsame : (c.toWorld.addPort q pm info.isUpstream info.bufferSizes info.priorities
          info.portName).labels p up = c.labels p up := by
        simp [World.labels, World.addPort, hqp]
      change ((c.toWorld.addPort _ _ _ _ _ _).labels p up).length = _
      rw [hsame, if_neg]
      · rfl
      intro hadds
      simp only [Adds, Bool.and_eq_true, beq_iff_eq, hq, Option.some.injEq] at hadds
      exact hqp hadds.1.2.symm

theorem labels_createPort_foldlM {infos : List PortCreationInfo}
    (h : infos.foldlM createPort c = .ok c') (p : ObjPtr) (up : Bool) :
    (c'.labels p up).length = (c.labels p up).length + infos.countP (c.Adds p up) := by
  induction infos generalizing c with
  | nil =>
    cases h
    rfl
  | cons info infos ih =>
    obtain ⟨d, hd, hrest⟩ := foldlM_cons_ok.mp h
    rw [ih hrest, labels_createPort hd, adds_createPort hd, List.countP_cons]
    omega

theorem countP_src {key spec : String} {plain : Bool} {infos : List PortCreationInfo}
    (h : endpointCreation key false plain c conn spec = .ok infos) (p : ObjPtr) :
    infos.countP (c.Adds p true) = 0 := by
  rcases endpointCreation_ok h with ⟨-, rfl⟩ | ⟨e, sizes, pri, -, rfl⟩
  · rfl
  · simp [Adds]

theorem countP_dst {key spec t : String} {plain : Bool} {infos : List PortCreationInfo} {p : ObjPtr}
    (h : endpointCreation key true plain c conn spec = .ok infos) (hl : c.Local w)
    (ht : c.objectInstances.lookup t = some (some p)) : infos.countP (c.Adds p true) = 0 ↔
      ((c.object p).portManager.isSome → ∀ port, ¬ c.LeadsTo spec t port) := by
  rcases endpointCreation_ok h with ⟨hnone, rfl⟩ | ⟨e, sizes, pri, he, rfl⟩
  · refine iff_of_true rfl ?_
    rintro - port ⟨exposed, hlead⟩
    cases hlead.symm.trans hnone
  · rw [List.countP_eq_zero]
    constructor
    · rintro hno hm port ⟨exposed, hlead⟩
      obtain rfl := Option.some.inj (Except.ok.inj (hlead.symm.trans he))
      have hadds : c.Adds p true ⟨t, port, 4 :: sizes, pri, true⟩ = true := by simp [Adds, ht, hm]
      exact hno _ (List.mem_singleton_self _) hadds
    · intro hno info hinfo hadds
      obtain rfl := List.mem_singleton.mp hinfo
      simp only [Adds, Bool.and_eq_true, beq_iff_eq] at hadds
      obtain rfl := hl.injective _ _ _ hadds.1.2 ht
      exact hno hadds.2 e.port ⟨e.exposed, he⟩

theorem countP_portCreations {own : List PortCreationInfo} {s : Connection} {t : String} {p : ObjPtr}
    (h : c.portCreations conn = .ok own) (hs : readConnection conn = .ok (some s)) (hl : c.Local w)
    (ht : c.objectInstances.lookup t = some (some p)) : own.countP (c.Adds p true) = 0 ↔
      ((c.object p).portManager.isSome → ∀ port, ¬ c.LeadsTo s.dst t port) := by
  obtain ⟨src, dst, hsrc, hdst, rfl⟩ := portCreations_of_read h hs
  rw [List.countP_append, countP_src hsrc, zero_add]
  exact countP_dst hdst hl ht

theorem wirings_eq_nil {s : Connection} (hs : readConnection conn = .ok (some s)) :
    c.wirings env conn = [] ↔ c.reached env false conn s.src = [] ∨ c.reached env true conn s.dst = [] := by
  simp only [wirings, hs, wiringsOf, List.map_eq_nil_iff]
  constructor
  · intro h
    by_contra hne
    obtain ⟨hsrc, hdst⟩ := not_or.mp hne
    obtain ⟨u, hu⟩ := List.exists_mem_of_ne_nil _ hsrc
    obtain ⟨v, hv⟩ := List.exists_mem_of_ne_nil _ hdst
    exact List.ne_nil_of_mem (List.mem_product.mpr ⟨hu, hv⟩) h
  · rintro (h | h)
    · rw [h]
      rfl
    · rw [h, List.product_nil]

/-- Where names have no dots, a specification of objects that reaches ports is a group. -/
theorem isGroupReference_of_reached {up : Bool} {c₅ : Call} {spec : String}
    (hr : Rewired (Set.Iio w.next) c c₅) (hnames : ∀ n ∈ c.objectInstances.map (·.1), '.' ∉ n.toList)
    (hden : (c.denoted env conn spec).Nonempty) (hreached : c₅.reached env up conn spec ≠ []) :
    ModuleGroup.isGroupReference spec = true := by
  by_contra hgroup
  rw [Bool.not_eq_true] at hgroup
  obtain ⟨r, hr'⟩ := List.exists_mem_of_ne_nil _ hreached
  obtain ⟨n, hn, hfound⟩ := mem_reached.mp hr'
  have hdot := dot_of_findPort hfound
  rcases resolved_cases hn hgroup with hkey | ⟨rfl, hregex, -⟩
  · rw [hr.objectInstances] at hkey
    exact hnames n hkey hdot
  · -- the name is the pattern itself, whose dot every text that matches it shares
    obtain ⟨t, ht⟩ := hden
    obtain ⟨hkey, hsel⟩ := Finset.mem_filter.mp ht
    simp only [specDenotes, patternDenotes, hgroup, hregex, Bool.false_eq_true, if_false,
      Bool.and_eq_true] at hsel
    have hmatch := Glob.isMatch_iff.mp hsel.1.2
    exact hnames t (List.mem_toFinset.mp hkey) (hmatch.mem hdot (by decide) (by decide))

theorem isGroupReference_module {spec : String} (h : ModuleGroup.isGroupReference spec = true) :
    ModuleGroup.isGroupReference (parsePortSpec spec).1 = true := by
  obtain ⟨rest, hrest⟩ := List.isPrefixOf_iff_prefix.mp h
  have hpre : ∀ ch ∈ "group:".toList, (ch != '.') = true := by simp
  simp only [ModuleGroup.isGroupReference, startsWith, parsePortSpec, String.toList_ofList]
  rw [← hrest, List.takeWhile_append_of_pos hpre]
  exact List.isPrefixOf_iff_prefix.mpr (List.prefix_append ..)

theorem mem_keys_of_leadsTo {spec owner port : String} (hl : c.Local w) (h : c.LeadsTo spec owner port)
    (howner : owner ∈ c.objectInstances.map (·.1)) :
    (parsePortSpec spec).1 ∈ c.objectInstances.map (·.1) := by
  obtain ⟨exposed, he⟩ := h
  cases hm : c.moduleInstances.lookup (parsePortSpec spec).1 with
  | none =>
    simp only [findEndpoint, hm] at he
    split at he
    · cases he
    · cases he
      exact howner
  | some m =>
    have hsome : ∃ q, m = some q := by
      by_contra hnone
      obtain rfl := Option.not_isSome_iff_eq_none.mp (fun h => hnone (Option.isSome_iff_exists.mp h))
      simp only [findEndpoint, hm] at he
      split at he <;> cases he
    obtain ⟨q, rfl⟩ := hsome
    obtain ⟨o, ho⟩ := Option.isSome_iff_exists.mp (hl.named _ q hm)
    exact List.mem_map.mpr ⟨_, Assignments.mem_of_lookup ho, rfl⟩

end Call

section
variable {env : Env} {fuel : ℕ} {cfg conns conn : Json} {pre post : List Json} {w : World}
variable {c c₅ c' e e' d d' : Call} {s : Connection}

theorem Phases.objects (h : Phases env fuel cfg w conns c c₅ c') :
    c'.objectInstances = c.objectInstances := by
  rw [h.wired]
  exact h.rewired.objectInstances

namespace Passes
variable (hp : Passes env c c₅ conns pre conn post e e' d d')
include hp

theorem pairs : d'.pairs = d.pairs ++ (c₅.wirings env conn).map fun x => ⟨x.src, x.dst⟩ := by
  obtain ⟨hpre, hconn⟩ := hp.connected
  obtain rfl := Call.connects_eq hpre
  obtain rfl := Call.connect_eq hconn
  rfl

theorem upstream (h : Phases env fuel cfg w conns c c₅ c') (hs : readConnection conn = .ok (some s))
    {t : String} {p : ObjPtr} (ht : c.objectInstances.lookup t = some (some p)) :
    ∃ n, (e'.labels p true).length = (e.labels p true).length + n ∧
      (n = 0 ↔ ((c.object p).portManager.isSome → ∀ port, ¬ c.LeadsTo s.dst t port)) := by
  obtain ⟨before, own, -, hown, hbefore, hcreate⟩ := hp.created
  have hadds : e.Adds p true = c.Adds p true :=
    foldlM_invariant (fun d : Call => d.Adds p true = c.Adds p true) hbefore rfl
      fun _ _ _ _ hd hstep => (Call.adds_createPort hstep p true).trans hd
  refine ⟨own.countP (c.Adds p true), ?_, Call.countP_portCreations hown hs h.localBefore ht⟩
  rw [← hadds]
  exact Call.labels_createPort_foldlM hcreate p true

end Passes

theorem mem_denoted {spec t : String} (ht : t ∈ c.denoted env conn spec) (hl : c.Local w) :
    t ∈ c.objectInstances.map (·.1) ∧ ∃ p, c.objectInstances.lookup t = some (some p) := by
  obtain ⟨hkey, hsel⟩ := Finset.mem_filter.mp ht
  refine ⟨List.mem_toFinset.mp hkey, ?_⟩
  simp only [Call.isPlain, Bool.and_eq_true] at hsel
  obtain ⟨o, ho⟩ := Option.isSome_iff_exists.mp hsel.1.1.1
  cases o with
  | none => exact absurd ho (hl.not_null t)
  | some p => exact ⟨p, ho⟩

theorem expanded_of_idle (h : Phases env fuel cfg w conns c c₅ c')
    (hp : Passes env c c₅ conns pre conn post e e' d d') (hs : readConnection conn = .ok (some s))
    (hidle : Idle env c c₅ conn s) :
    Expanded (c.denoted env conn s.src) (c.denoted env conn s.dst) s.latency e e' d d' c' := by
  have hnolink := (Call.wirings_eq_nil hs).mpr hidle.unreached
  refine ⟨⟨[], ?_, ?_, List.nodup_nil, List.nodup_nil, ?_, fun _ hx => nomatch hx⟩, ?_⟩
  · rw [hp.pairs, hnolink]
    rfl
  · rcases hidle.empty with hempty | hempty <;> simp [hempty]
  · intro a ha t ht
    rcases hidle.empty with hempty | hempty
    · simp [hempty] at ha
    · simp [hempty] at ht
  · intro t ht p hlookup
    rw [h.objects] at hlookup
    obtain ⟨n, hn, hzero⟩ := hp.upstream h hs hlookup
    rw [hn, hzero.mpr (hidle.unasked t ht p hlookup)]
    rcases hidle.empty with hempty | hempty
    · simp [hempty]
    · simp [hempty] at ht

/-- Two ends that denote something make the connection a pair of groups, which makes no ports. -/
theorem not_expanded (h : Phases env fuel cfg w conns c c₅ c')
    (hp : Passes env c c₅ conns pre conn post e e' d d') (hs : readConnection conn = .ok (some s))
    (hnames : PlainNames c) (hsrc : (c.denoted env conn s.src).Nonempty)
    (hdst : (c.denoted env conn s.dst).Nonempty) :
    ¬ Expanded (c.denoted env conn s.src) (c.denoted env conn s.dst) s.latency e e' d d' c' := by
  rintro ⟨⟨links, hpairs, hcount, -⟩, hupstream⟩
  have hlinks := List.append_cancel_left (hpairs.symm.trans hp.pairs)
  have hwired : c₅.wirings env conn ≠ [] := by
    intro hnil
    rw [hlinks, hnil] at hcount
    have hpos := Nat.mul_pos hsrc.card_pos hdst.card_pos
    rw [← hcount] at hpos
    exact lt_irrefl _ hpos
  rw [Ne, Call.wirings_eq_nil hs, not_or] at hwired
  have hgroup := Call.isGroupReference_of_reached h.rewired (fun n hn => (hnames n hn).1) hdst hwired.2
  obtain ⟨t, ht⟩ := hdst
  obtain ⟨hkey, p, hlookup⟩ := mem_denoted ht h.localBefore
  obtain ⟨n, hn, hzero⟩ := hp.upstream h hs hlookup
  -- so the destination gets a port, and the specification leads there as a path
  have hne : n ≠ 0 := by
    have hcard := hupstream t ht p (h.objects ▸ hlookup)
    have hpos := hsrc.card_pos
    omega
  rw [Ne, hzero] at hne
  push Not at hne
  obtain ⟨-, port, hlead⟩ := hne
  have hmodule := Call.mem_keys_of_leadsTo h.localBefore hlead hkey
  cases (Call.isGroupReference_module hgroup).symm.trans (hnames _ hmodule).2

/-- A connection between sets of objects has its links exactly where there are none to make:
whenever it is idle, and, with plain names, only then. -/
theorem expanded_iff_idle (h : Phases env fuel cfg w conns c c₅ c')
    (hp : Passes env c c₅ conns pre conn post e e' d d')
    (hs : readConnection conn = .ok (some s)) :
    (Idle env c c₅ conn s → Expanded (c.denoted env conn s.src) (c.denoted env conn s.dst) s.latency
      e e' d d' c') ∧
    (PlainNames c → Expanded (c.denoted env conn s.src) (c.denoted env conn s.dst) s.latency
      e e' d d' c' → Idle env c c₅ conn s) := by
  refine ⟨expanded_of_idle h hp hs, fun hnames hexp => ?_⟩
  have hempty : c.denoted env conn s.src = ∅ ∨ c.denoted env conn s.dst = ∅ := by
    by_contra hne
    obtain ⟨hsrc, hdst⟩ := not_or.mp hne
    exact not_expanded h hp hs hnames (Finset.nonempty_iff_ne_empty.mpr hsrc)
      (Finset.nonempty_iff_ne_empty.mpr hdst) hexp
  obtain ⟨⟨links, hpairs, hcount, -⟩, hupstream⟩ := hexp
  refine ⟨hempty, (Call.wirings_eq_nil hs).mp ?_, ?_⟩
  · have hlinks := List.append_cancel_left (hpairs.symm.trans hp.pairs)
    have hzero : links.length = 0 := by
      rcases hempty with hempty | hempty <;> simp [hcount, hempty]
    rw [hlinks, List.length_map] at hzero
    exact List.length_eq_zero_iff.mp hzero
  · intro t ht p hlookup
    obtain ⟨n, hn, hzero⟩ := hp.upstream h hs hlookup
    apply hzero.mp
    have hcard := hupstream t ht p (h.objects ▸ hlookup)
    rcases hempty with hempty | hempty
    · rw [hempty, Finset.card_empty] at hcard
      omega
    · simp [hempty] at ht

theorem Phases.passes (h : Phases env fuel cfg w conns c c₅ c')
    (hsplit : conns.elements = pre ++ conn :: post) :
    ∃ e e' d d', Passes env c c₅ conns pre conn post e e' d d' := by
  obtain ⟨infos, hmapM, hcreate⟩ := h.creations
  have hconnect := h.connect
  rw [hsplit] at hmapM hconnect
  obtain ⟨before, own, rest, hbefore, hown, rfl⟩ := mapM_split hmapM
  rw [List.flatten_append, List.flatten_cons] at hcreate
  obtain ⟨e, he, hcreate⟩ := foldlM_append_ok.mp hcreate
  obtain ⟨e', he', -⟩ := foldlM_append_ok.mp hcreate
  obtain ⟨d, hd, hconnect⟩ := foldlM_append_ok.mp hconnect
  obtain ⟨d', hd', -⟩ := foldlM_cons_ok.mp hconnect
  exact ⟨e, e', d, d', hsplit, ⟨before, own, hbefore, hown, he, he'⟩, hd, hd'⟩

end
section
open Json

def mockTypes : World where
  registry :=
    { modules := fun _ => none
      objects := fun t => if t = "MockSim" then some fun _ => none else none }

def toL1 (src : String) : Json :=
  object [("dst", string "l1"), ("latency", int 2), ("src", string src)]

def l1Config (src : String) : Json := object
  [("connections", array [toL1 src]),
   ("modules", array (["cpu0", "cpu1", "l1"].map fun name =>
     object [("name", string name), ("type", string "MockSim")]))]

theorem toL1_split {src : String} : (array [toL1 src]).elements = [] ++ toL1 src :: [] := rfl

theorem l1Phases (src : String)
    (hc : (Call.prepare oneLine (instantiateAll oneLine 0) (l1Config src) mockTypes).isOk)
    (hc₅ : ((prepared oneLine 0 (l1Config src) mockTypes).createPorts [toL1 src]).isOk)
    (hc' : (instantiateFinal oneLine (instantiateAll oneLine 0) (l1Config src) mockTypes).isOk) :
    Phases oneLine 0 (l1Config src) mockTypes (array [toL1 src])
      (prepared oneLine 0 (l1Config src) mockTypes)
      (withPorts oneLine 0 (l1Config src) mockTypes (array [toL1 src]))
      (finished oneLine 0 (l1Config src) mockTypes) :=
  .ofReturns oneLine 0 (l1Config src) (array [toL1 src]) mockTypes rfl hc hc₅ hc'

theorem expanded_iff_idle_demo : ∃ e e' d d',
    Passes oneLine (prepared oneLine 0 (l1Config "gpu*") mockTypes)
      (withPorts oneLine 0 (l1Config "gpu*") mockTypes (array [toL1 "gpu*"]))
      (array [toL1 "gpu*"]) [] (toL1 "gpu*") [] e e' d d' ∧
    Expanded ∅ {"l1"} 2 e e' d d' (finished oneLine 0 (l1Config "gpu*") mockTypes) := by
  have h := l1Phases "gpu*" (by decide +kernel) (by decide +kernel) (by decide +kernel)
  obtain ⟨e, e', d, d', hp⟩ := h.passes toL1_split
  have hsrc : (prepared oneLine 0 (l1Config "gpu*") mockTypes).denoted oneLine (toL1 "gpu*") "gpu*" =
      ∅ := by decide +kernel
  have hdst : (prepared oneLine 0 (l1Config "gpu*") mockTypes).denoted oneLine (toL1 "gpu*") "l1" =
      {"l1"} := by decide +kernel
  have hreached : (withPorts oneLine 0 (l1Config "gpu*") mockTypes (array [toL1 "gpu*"])).reached
      oneLine false (toL1 "gpu*") "gpu*" = [] := by decide +kernel
  have hdot : '.' ∉ "l1".toList := by decide
  have hexp := (expanded_iff_idle (s := ⟨"gpu*", "l1", 2⟩) h hp rfl).1
    ⟨.inl hsrc, .inl hreached, fun t _ p _ _ port hlead => hdot (Call.dot_of_leadsTo hlead)⟩
  rw [hsrc, hdst] at hexp
  exact ⟨e, e', d, d', hp, hexp⟩

/-- Two sources and one destination, and nothing is linked. -/
theorem wildcard_not_expanded : ∃ e e' d d',
    Passes oneLine (prepared oneLine 0 (l1Config "cpu*") mockTypes)
      (withPorts oneLine 0 (l1Config "cpu*") mockTypes (array [toL1 "cpu*"]))
      (array [toL1 "cpu*"]) [] (toL1 "cpu*") [] e e' d d' ∧
    (prepared oneLine 0 (l1Config "cpu*") mockTypes).denoted oneLine (toL1 "cpu*") "cpu*" =
      {"cpu0", "cpu1"} ∧
    (prepared oneLine 0 (l1Config "cpu*") mockTypes).denoted oneLine (toL1 "cpu*") "l1" = {"l1"} ∧
    ¬ Expanded {"cpu0", "cpu1"} {"l1"} 2 e e' d d' (finished oneLine 0 (l1Config "cpu*") mockTypes) := by
  have h := l1Phases "cpu*" (by decide +kernel) (by decide +kernel) (by decide +kernel)
  obtain ⟨e, e', d, d', hp⟩ := h.passes toL1_split
  have hsrc : (prepared oneLine 0 (l1Config "cpu*") mockTypes).denoted oneLine (toL1 "cpu*") "cpu*" =
      {"cpu0", "cpu1"} := by decide +kernel
  have hdst : (prepared oneLine 0 (l1Config "cpu*") mockTypes).denoted oneLine (toL1 "cpu*") "l1" =
      {"l1"} := by decide +kernel
  have hnames : PlainNames (prepared oneLine 0 (l1Config "cpu*") mockTypes) := by
    unfold PlainNames
    decide +kernel
  have hnot := not_expanded (s := ⟨"cpu*", "l1", 2⟩) h hp rfl hnames (by rw [hsrc]; simp)
    (by rw [hdst]; simp)
  rw [hsrc, hdst] at hnot
  exact ⟨e, e', d, d', hp, hsrc, hdst, hnot⟩

end
end GemSc
