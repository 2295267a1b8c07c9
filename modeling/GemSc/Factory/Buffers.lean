import GemSc.Factory.PlainConnection

/-! The VCs of the ports that phase 5 makes for a connection, against the lists that the
connection gives for them. -/

namespace GemSc
open ExceptFold

def listUnder (key : String) (conn : Json) : Option (List ℕ) :=
  if conn.contains key then (readSizes conn key).toOption else none

def wantedSizes (key : String) (conn : Json) : List ℕ := (listUnder key conn).getD [4]

def wantedPriorities (conn : Json) : List ℕ := (listUnder "vc_priorities" conn).getD []

structure AsConfigured (conn : Json) (out : DownstreamPort) (inp : UpstreamPort) : Prop where
  outSizes : out.outputVcs.map (·.capacity) = wantedSizes "output_buffer_sizes" conn
  inSizes : inp.inputVcs.map (·.capacity) = wantedSizes "input_buffer_sizes" conn
  outPriorities : ∀ (i : ℕ) vc, out.outputVcs[i]? = some vc →
    vc.priority = vcPriority (wantedPriorities conn) i
  inPriorities : ∀ (i : ℕ) vc, inp.inputVcs[i]? = some vc →
    vc.priority = vcPriority (wantedPriorities conn) i

theorem listUnder_of_readSizes {key : String} {conn : Json} {sizes : List ℕ}
    (h : readSizes conn key = .ok sizes) :
    listUnder key conn = if conn.contains key then some sizes else none := by
  rw [listUnder, h]
  rfl

theorem wantedPriorities_of_readSizes {conn : Json} {pri : List ℕ}
    (h : readSizes conn "vc_priorities" = .ok pri) : wantedPriorities conn = pri := by
  rw [wantedPriorities, listUnder_of_readSizes h]
  split_ifs with hkey
  · rfl
  · rw [readSizes, if_neg hkey] at h
    exact Except.ok.inj h

/-- A size list is built behind the default, so only a list that is not given is met. -/
theorem default_sizes_iff {key : String} {conn : Json} {sizes : List ℕ}
    (h : readSizes conn key = .ok sizes) :
    4 :: sizes = wantedSizes key conn ↔ conn.contains key = false := by
  rw [wantedSizes, listUnder_of_readSizes h]
  split_ifs with hkey
  · exact ⟨fun heq => absurd heq (List.cons_ne_self 4 sizes),
      fun hno => absurd (hkey.symm.trans hno) (by decide)⟩
  · rw [readSizes, if_neg hkey] at h
    obtain rfl := Except.ok.inj h
    exact ⟨fun _ => Bool.eq_false_iff.mpr hkey, fun _ => rfl⟩

theorem vcPriority_zero (pri : List ℕ) : vcPriority pri 0 = pri.headD 0 := by
  cases pri <;> rfl

section Vcs
variable (i : ℕ) (sizes pri : List ℕ) (label : String)

theorem DownstreamPort.capacities_new :
    (DownstreamPort.new i sizes pri label).outputVcs.map (·.capacity) = sizes := by
  apply List.ext_getElem?
  intro k
  simp [DownstreamPort.new, Function.comp_def]

theorem UpstreamPort.capacities_new :
    (UpstreamPort.new i sizes pri label).inputVcs.map (·.capacity) = sizes := by
  apply List.ext_getElem?
  intro k
  simp [UpstreamPort.new, Function.comp_def]

variable {i sizes pri label}

theorem DownstreamPort.priority_new {k : ℕ} {vc : OutputVC}
    (h : (DownstreamPort.new i sizes pri label).outputVcs[k]? = some vc) :
    vc.priority = vcPriority pri k := by
  simp only [DownstreamPort.new, List.getElem?_mapIdx, Option.map_eq_some_iff] at h
  obtain ⟨size, -, rfl⟩ := h
  rfl

theorem UpstreamPort.priority_new {k : ℕ} {vc : InputVC}
    (h : (UpstreamPort.new i sizes pri label).inputVcs[k]? = some vc) :
    vc.priority = vcPriority pri k := by
  simp only [UpstreamPort.new, List.getElem?_mapIdx, Option.map_eq_some_iff] at h
  obtain ⟨size, -, rfl⟩ := h
  rfl

end Vcs

theorem asConfigured_iff {conn : Json} {outs ins pri : List ℕ} {i j : ℕ} {p q : String}
    (houts : readSizes conn "output_buffer_sizes" = .ok outs)
    (hins : readSizes conn "input_buffer_sizes" = .ok ins)
    (hpri : readSizes conn "vc_priorities" = .ok pri) :
    AsConfigured conn (DownstreamPort.new i (4 :: outs) pri p) (UpstreamPort.new j (4 :: ins) [] q) ↔
      conn.contains "output_buffer_sizes" = false ∧ conn.contains "input_buffer_sizes" = false ∧
        (wantedPriorities conn).headD 0 = 0 := by
  have hwanted := wantedPriorities_of_readSizes hpri
  constructor
  · intro h
    have hfirst := h.inPriorities 0 { id := 0, priority := 0, capacity := 4 }
      (by simp [UpstreamPort.new, vcPriority])
    rw [← default_sizes_iff houts, ← default_sizes_iff hins]
    refine ⟨?_, ?_, ?_⟩
    · rw [← h.outSizes, DownstreamPort.capacities_new]
    · rw [← h.inSizes, UpstreamPort.capacities_new]
    · rw [← vcPriority_zero]
      exact hfirst.symm
  · rintro ⟨hout, hin, hzero⟩
    -- without sizes of its own the upstream port has one VC, of the default priority
    have hone : ins = [] := by
      rw [readSizes, if_neg (Bool.not_eq_true _ ▸ hin)] at hins
      exact (Except.ok.inj hins).symm
    refine ⟨?_, ?_, ?_, ?_⟩
    · rw [DownstreamPort.capacities_new, (default_sizes_iff houts).mpr hout]
    · rw [UpstreamPort.capacities_new, (default_sizes_iff hins).mpr hin]
    · intro k vc hvc
      rw [DownstreamPort.priority_new hvc, hwanted]
    · intro k vc hvc
      have hk : k = 0 := by
        have hlen := (List.getElem?_eq_some_iff.mp hvc).1
        simpa [UpstreamPort.new, hone] using hlen
      rw [UpstreamPort.priority_new hvc, hk, vcPriority_zero, vcPriority_zero, hzero]
      rfl

namespace World

def upstreamPorts (w : World) (p : ObjPtr) : List UpstreamPort :=
  ((w.object p).portManager.map (·.upstream.ports)).getD []

def downstreamPorts (w : World) (p : ObjPtr) : List DownstreamPort :=
  ((w.object p).portManager.map (·.downstream.ports)).getD []

end World

namespace World
variable {w : World} {p : ObjPtr} {pm : PortManager} {sizes pri : List ℕ} {l : String}

theorem downstreamPorts_addPort (hpm : (w.object p).portManager = some pm) (up : Bool)
    (q : ObjPtr) : (w.addPort p pm up sizes pri l).downstreamPorts q = w.downstreamPorts q ++
      if q = p ∧ up = false then [DownstreamPort.new (w.downstreamPorts q).length sizes pri l]
      else [] := by
  by_cases hq : q = p
  · subst hq
    cases up <;> simp [downstreamPorts, hpm, PortManager.addPort, PortManager.addUpstreamPort,
      PortManager.addDownstreamPort, PortTable.ports_push]
  · simp [downstreamPorts, addPort, hq]

theorem upstreamPorts_addPort (hpm : (w.object p).portManager = some pm) (up : Bool)
    (q : ObjPtr) : (w.addPort p pm up sizes pri l).upstreamPorts q = w.upstreamPorts q ++
      if q = p ∧ up = true then [UpstreamPort.new (w.upstreamPorts q).length sizes pri l]
      else [] := by
  by_cases hq : q = p
  · subst hq
    cases up <;> simp [upstreamPorts, hpm, PortManager.addPort, PortManager.addUpstreamPort,
      PortManager.addDownstreamPort, PortTable.ports_push]
  · simp [upstreamPorts, addPort, hq]

end World

theorem getElem?_of_concat_prefix {α : Type*} {l l' : List α} {x : α} (h : l ++ [x] <+: l') :
    l'[l.length]? = some x := by
  obtain ⟨t, rfl⟩ := h
  simp

namespace Call
variable {c c' : Call} {conn : Json}

/-- The ports that phase 5 makes for the entry of `connections` that comes after `pre`: those
that follow the ports their owners have when the entries of `pre` are done. -/
structure MadeFor (c c₅ : Call) (pre : List Json) (pa pb : ObjPtr) (out : DownstreamPort)
    (inp : UpstreamPort) : Prop where
  made : ∃ d, c.createPorts pre = .ok d ∧
    (c₅.downstreamPorts pa)[(d.downstreamPorts pa).length]? = some out ∧
    (c₅.upstreamPorts pb)[(d.upstreamPorts pb).length]? = some inp

def Extends (c c' : Call) : Prop :=
  ∀ q, c.downstreamPorts q <+: c'.downstreamPorts q ∧ c.upstreamPorts q <+: c'.upstreamPorts q

theorem Extends.refl : Extends c c := fun _ => ⟨List.prefix_rfl, List.prefix_rfl⟩

theorem Extends.createPort {d : Call} {info : PortCreationInfo} (h : Extends d c)
    (hstep : createPort c info = .ok c') : Extends d c' := by
  rcases createPort_ok hstep with ⟨rfl, -⟩ | ⟨p, pm, -, hpm, rfl⟩
  · exact h
  · intro q
    obtain ⟨hdown, hup⟩ := h q
    constructor
    · exact hdown.trans ⟨_, (World.downstreamPorts_addPort hpm _ q).symm⟩
    · exact hup.trans ⟨_, (World.upstreamPorts_addPort hpm _ q).symm⟩

theorem extends_createPort_foldlM {infos : List PortCreationInfo}
    (h : infos.foldlM createPort c = .ok c') : Extends c c' :=
  foldlM_invariant (Extends c) h .refl fun _ _ _ _ hd hstep => hd.createPort hstep

theorem createPort_eq {info : PortCreationInfo} {p : ObjPtr}
    (h : createPort c info = .ok c') (hp : c.objectInstances.lookup info.ownerName = some (some p))
    (hm : (c.object p).portManager.isSome) (q : ObjPtr) :
    c'.downstreamPorts q = c.downstreamPorts q ++ (if q = p ∧ info.isUpstream = false then
      [DownstreamPort.new (c.downstreamPorts q).length info.bufferSizes info.priorities info.portName]
      else []) ∧
    c'.upstreamPorts q = c.upstreamPorts q ++ (if q = p ∧ info.isUpstream = true then
      [UpstreamPort.new (c.upstreamPorts q).length info.bufferSizes info.priorities info.portName]
      else []) := by
  rcases createPort_ok h with ⟨-, hnone⟩ | ⟨p', pm, hp', hpm, rfl⟩
  · rw [hnone p hp] at hm
    cases hm
  · obtain rfl := Option.some.inj (Option.some.inj (hp.symm.trans hp'))
    exact ⟨World.downstreamPorts_addPort hpm _ q, World.upstreamPorts_addPort hpm _ q⟩

theorem creation_of_plainEnd {key : String} {up plain : Bool} {spec a p : String} {pa : ObjPtr}
    {infos : List PortCreationInfo} (h : endpointCreation key up plain c conn spec = .ok infos)
    (hend : PlainEnd c spec a p pa) : ∃ sizes pri, readSizes conn key = .ok sizes ∧
      readPriorities plain conn = .ok pri ∧ infos = [⟨a, p, 4 :: sizes, pri, up⟩] := by
  obtain ⟨e, he, h⟩ := bind_eq_ok.mp h
  obtain ⟨hspec, hne, -, hplain⟩ := hend
  have hfound : e = some ⟨a, p, false⟩ := by
    cases hm : c.moduleInstances.lookup a with
    | none =>
      simp only [findEndpoint, hspec, hm, if_neg hne] at he
      exact (Except.ok.inj he).symm
    | some m =>
      obtain rfl : m = none := by simpa [hm] using hplain
      simp only [findEndpoint, hspec, hm, if_neg hne] at he
      cases he
  subst hfound
  obtain ⟨sizes, hsizes, h⟩ := bind_eq_ok.mp h
  obtain ⟨pri, hpri, h⟩ := bind_eq_ok.mp h
  exact ⟨sizes, pri, hsizes, hpri, (Except.ok.inj h).symm⟩

end Call

/-- Phase 5 makes both ports of a connection between plain objects that have a port manager.
They are as configured exactly when the connection gives no buffer sizes, and no priority other
than 0 for the first VC. -/
theorem ports_as_configured_iff {c c₅ : Call} {pre post : List Json} {conn : Json} {s : Connection}
    {a p b q : String} {pa pb : ObjPtr} (h : c.createPorts (pre ++ conn :: post) = .ok c₅)
    (hread : readConnection conn = .ok (some s)) (ha : PlainEnd c s.src a p pa)
    (hb : PlainEnd c s.dst b q pb) (hma : (c.object pa).portManager.isSome)
    (hmb : (c.object pb).portManager.isSome) :
    ∃ out inp, c.MadeFor c₅ pre pa pb out inp ∧ out.label = p ∧ inp.label = q ∧
      (AsConfigured conn out inp ↔ conn.contains "output_buffer_sizes" = false ∧
        conn.contains "input_buffer_sizes" = false ∧ (wantedPriorities conn).headD 0 = 0) := by
  obtain ⟨infoss, hcreations, hports⟩ := Call.createPorts_ok h
  obtain ⟨before, infos, after, hbefore, hinfos, rfl⟩ := mapM_split hcreations
  obtain ⟨srcs, dsts, hsrcs, hdsts, rfl⟩ := Call.portCreations_of_read hinfos hread
  obtain ⟨outs, pri, houts, hpri, rfl⟩ := Call.creation_of_plainEnd hsrcs ha
  obtain ⟨ins, none', hins, hnone, rfl⟩ := Call.creation_of_plainEnd hdsts hb
  obtain rfl := Except.ok.inj hnone
  rw [List.flatten_append, List.flatten_cons] at hports
  -- `d` is the call before this connection, `e` and `f` the one after its first and second port
  obtain ⟨d, hd, hports⟩ := foldlM_append_ok.mp hports
  obtain ⟨e, he, hports⟩ := foldlM_cons_ok.mp hports
  obtain ⟨f, hf, hports⟩ := foldlM_cons_ok.mp hports
  have hrd : Call.Rewired ∅ c d := Call.rewired_createPort_foldlM Call.avoids_empty hd
  have hre : Call.Rewired ∅ d e := Call.rewired_createPort Call.avoids_empty he
  have hobjd : d.objectInstances.lookup a = some (some pa) := by
    rw [hrd.objectInstances]
    exact ha.object
  have hobje : e.objectInstances.lookup b = some (some pb) := by
    rw [hre.objectInstances, hrd.objectInstances]
    exact hb.object
  rw [← Call.manager_createPort_foldlM hd] at hma hmb
  rw [← Call.manager_createPort he] at hmb
  have hde := Call.createPort_eq he hobjd hma
  have hef := Call.createPort_eq hf hobje hmb
  have hend : Call.Extends f c₅ := Call.extends_createPort_foldlM hports
  -- later ports of the same object come behind these
  have hout := (hef pa).1.trans (congrArg (· ++ _) (hde pa).1)
  have hin := (hef pb).2.trans (congrArg (· ++ _) (hde pb).2)
  simp only [and_self, if_true, Bool.true_eq_false, Bool.false_eq_true, and_false, if_false,
    List.append_nil] at hout hin
  refine ⟨DownstreamPort.new (d.downstreamPorts pa).length (4 :: outs) pri p,
    UpstreamPort.new (d.upstreamPorts pb).length (4 :: ins) [] q, ⟨d, ?_, ?_, ?_⟩, rfl, rfl,
    asConfigured_iff houts hins hpri⟩
  · exact bind_eq_ok.mpr ⟨before, hbefore, hd⟩
  · exact getElem?_of_concat_prefix (hout ▸ (hend pa).1)
  · have hlen : e.upstreamPorts pb = d.upstreamPorts pb := by simpa using (hde pb).2
    rw [hlen] at hin
    exact getElem?_of_concat_prefix (hin ▸ (hend pb).2)

section
open Json

def sizedConnection (fields : List (String × Json)) : Json :=
  object (fields ++ [("dst", string "cache.cpu"), ("src", string "cpu.mem")])

def sizedConfig (fields : List (String × Json)) : Json := object
  [("connections", array [sizedConnection fields]),
   ("modules", array (twoNames.map fun e => object [("name", string e.1), ("type", string e.2)]))]

def sizedCall (fields : List (String × Json)) : Call :=
  prepared oneLine 0 (sizedConfig fields) (typesWith (some .empty))

def sizedPorts (fields : List (String × Json)) : Call :=
  withPorts oneLine 0 (sizedConfig fields) (typesWith (some .empty)) (array [sizedConnection fields])

def defaultFields : List (String × Json) := [("latency", int 3), ("vc_priorities", array [int 0])]

theorem ports_as_configured_iff_default : ∃ out inp,
    (sizedCall defaultFields).MadeFor (sizedPorts defaultFields) [] 0 1 out inp ∧
      AsConfigured (sizedConnection defaultFields) out inp := by
  have hports : (sizedCall defaultFields).createPorts ([] ++ sizedConnection defaultFields :: []) =
      .ok (sizedPorts defaultFields) :=
    eq_ok_valueOr (d := { toWorld := typesWith (some .empty) }) (by decide +kernel)
  have hsrc : PlainEnd (sizedCall defaultFields) "cpu.mem" "cpu" "mem" 0 :=
    ⟨by decide, by decide, by decide +kernel, by decide +kernel⟩
  have hdst : PlainEnd (sizedCall defaultFields) "cache.cpu" "cache" "cpu" 1 :=
    ⟨by decide, by decide, by decide +kernel, by decide +kernel⟩
  obtain ⟨out, inp, hmade, -, -, hiff⟩ := ports_as_configured_iff (s := ⟨"cpu.mem", "cache.cpu", 3⟩)
    hports rfl hsrc hdst (by decide +kernel) (by decide +kernel)
  exact ⟨out, inp, hmade, hiff.mpr ⟨rfl, rfl, rfl⟩⟩

def twoVcFields : List (String × Json) :=
  [("input_buffer_sizes", array [int 8, int 4]), ("output_buffer_sizes", array [int 8, int 4]),
   ("vc_priorities", array [int 2, int 5])]

/-- Two VCs asked for, three built; those of the destination without the priorities. -/
theorem two_vcs_become_three : ∃ out inp,
    (sizedCall twoVcFields).MadeFor (sizedPorts twoVcFields) [] 0 1 out inp ∧
      out.outputVcs.map (·.capacity) = [4, 8, 4] ∧ inp.inputVcs.map (·.capacity) = [4, 8, 4] ∧
      out.outputVcs.map (·.priority) = [2, 5, 2] ∧ inp.inputVcs.map (·.priority) = [0, 1, 2] ∧
      ¬ AsConfigured (sizedConnection twoVcFields) out inp := by
  refine ⟨DownstreamPort.new 0 [4, 8, 4] [2, 5] "mem", UpstreamPort.new 0 [4, 8, 4] [] "cpu",
    ⟨sizedCall twoVcFields, rfl, by decide +kernel, by decide +kernel⟩, by decide, by decide,
    by decide, by decide, ?_⟩
  intro h
  have hsizes : [4, 8, 4] = [8, 4] := h.outSizes
  cases hsizes

end
end GemSc
