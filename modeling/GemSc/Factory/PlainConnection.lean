import GemSc.Factory.Ports

/-! Connections between ports of plain objects: phase 5 asks for the two ports as they are
written, phase 6 looks for them under the names that the specifications resolve to. -/

namespace GemSc
open ExceptFold

/-- The connection `a.p` to `b.q` is there, with its delay. -/
def Realised (w : World) (a : ObjPtr) (p : String) (b : ObjPtr) (q : String) (latency : ℤ) : Prop :=
  ∃ i j, (w.labels a false)[i]? = some p ∧ (w.labels b true)[j]? = some q ∧
    (w.wires ⟨a, false, i⟩).sendTarget = some ⟨b, true, j⟩ ∧
    (w.wires ⟨b, true, j⟩).sendTarget = some ⟨a, false, i⟩ ∧
    (w.wires ⟨a, false, i⟩).delayCycles = latency

theorem getLast?_filterMap {α β : Type*} {f : α → Option β} {l : List α} {b : β} :
    (l.filterMap f).getLast? = some b ↔
      ∃ pre a post, l = pre ++ a :: post ∧ f a = some b ∧ ∀ x ∈ post, f x = none := by
  constructor
  · intro h
    obtain ⟨front, hfront⟩ := List.getLast?_eq_some_iff.mp h
    obtain ⟨pre, rest, rfl, hpre, hrest⟩ := List.filterMap_eq_append_iff.mp hfront
    obtain ⟨skip, a, post, rfl, hskip, ha, hpost⟩ := List.filterMap_eq_cons_iff.mp hrest
    exact ⟨pre ++ skip, a, post, by simp, ha, List.filterMap_eq_nil_iff.mp hpost⟩
  · rintro ⟨pre, a, post, rfl, ha, hpost⟩
    simp [ha, List.filterMap_eq_nil_iff.mpr hpost]

namespace Call
variable {env : Env} {fuel : ℕ} {cfg conn : Json} {w : World} {c c₅ c' : Call}

def LastReaching (c : Call) (up : Bool) (names : List String) (owner port : String) : Prop :=
  ∃ pre name post, names = pre ++ name :: post ∧ c.LeadsTo name owner port ∧
    ∀ n ∈ post, c.portOf up n = none

def Apart (u v : PortRef) (l : List Wiring) : Prop :=
  ∀ x ∈ l, x.src.isUpstream = false ∧ x.dst.isUpstream = true ∧ x.src ≠ u ∧ x.dst ≠ v

theorem Apart.not_touches {u v : PortRef} {l : List Wiring} (h : Apart u v l)
    (hu : u.isUpstream = false) (hv : v.isUpstream = true) :
    ¬ Pairing.Touches (l.map Wiring.pair) u ∧ ¬ Pairing.Touches (l.map Wiring.pair) v := by
  constructor
  · rintro ⟨e, he, hue⟩
    obtain ⟨x, hx, rfl⟩ := List.mem_map.mp he
    obtain ⟨-, hd, hsu, -⟩ := h x hx
    rcases hue with rfl | rfl
    · exact hsu rfl
    · exact absurd (hu.symm.trans hd) (by decide)
  · rintro ⟨e, he, hve⟩
    obtain ⟨x, hx, rfl⟩ := List.mem_map.mp he
    obtain ⟨hs, -, -, hdv⟩ := h x hx
    rcases hve with rfl | rfl
    · exact absurd (hv.symm.trans hs) (by decide)
    · exact hdv rfl

/-- Two ports that no other wiring meets end up bound to each other exactly when they come
last among those that the one connection reaches. -/
theorem bound_iff {before after : List Wiring} {latency : ℤ} {ss ds : List PortRef} {u v : PortRef}
    (hfree : (c.wires u).sendTarget = none) (hu : u.isUpstream = false) (hv : v.isUpstream = true)
    (hss : ∀ r ∈ ss, r.isUpstream = false) (hds : ∀ r ∈ ds, r.isUpstream = true)
    (hbefore : Apart u v before) (hafter : Apart u v after)
    (hc' : c' = c.withWirings (before ++ (wiringsOf latency ss ds ++ after))) :
    (c'.wires u).sendTarget = some v ∧ (c'.wires v).sendTarget = some u ↔
      ss.getLast? = some u ∧ ds.getLast? = some v := by
  have htarget : ∀ r, (c'.wires r).sendTarget = Pairing.connectAll
      (fun r => (c.wires r).sendTarget) ((before ++ (wiringsOf latency ss ds ++ after)).map Wiring.pair) r :=
    fun r => by rw [hc']; exact congrFun (Wiring.sendTarget_foldl c.wires _) r
  obtain ⟨hbu, -⟩ := hbefore.not_touches hu hv
  obtain ⟨hau, hav⟩ := hafter.not_touches hu hv
  have hstart : Pairing.connectAll (fun r => (c.wires r).sendTarget) (before.map Wiring.pair) u = none :=
    (Pairing.connectAll_untouched _ hbu).trans hfree
  have hud : u ∉ ds := fun h => Bool.false_ne_true (hu.symm.trans (hds u h))
  have hvs : v ∉ ss := fun h => Bool.false_ne_true ((hss v h).symm.trans hv)
  rw [htarget u, htarget v, List.map_append, List.map_append, Pairing.connectAll_append,
    Pairing.connectAll_append, Pairing.connectAll_untouched _ hau,
    Pairing.connectAll_untouched _ hav, map_pair_wiringsOf]
  exact Pairing.product_partners_iff _ hstart hud hvs

theorem delay_of_reached {before after : List Wiring} {latency : ℤ} {ss ds : List PortRef}
    {u v : PortRef} (hbefore : Apart u v before) (hafter : Apart u v after) (hu : u ∈ ss)
    (hv : v ∈ ds) :
    ((c.withWirings (before ++ (wiringsOf latency ss ds ++ after))).wires u).delayCycles = latency := by
  apply Wiring.delayCycles_foldl
  · intro x hx hxu
    rcases List.mem_append.mp hx with hx | hx
    · exact absurd hxu (hbefore x hx).2.2.1
    rcases List.mem_append.mp hx with hx | hx
    · obtain ⟨e, -, rfl⟩ := List.mem_map.mp hx
      rfl
    · exact absurd hxu (hafter x hx).2.2.1
  · have hmem : (⟨u, v, latency⟩ : Wiring) ∈ wiringsOf latency ss ds :=
      List.mem_map.mpr ⟨(u, v), List.mem_product.mpr ⟨hu, hv⟩, rfl⟩
    exact .inr ⟨_, List.mem_append_right _ (List.mem_append_left _ hmem), rfl⟩

theorem apart_wirings {u v : PortRef} {a p b q : String} (hl : c.Local w)
    (ha : c.objectInstances.lookup a = some (some u.owner))
    (hb : c.objectInstances.lookup b = some (some v.owner))
    (hu : (c.labels u.owner false)[u.id]? = some p) (hv : (c.labels v.owner true)[v.id]? = some q)
    (hsrc : ∀ s, readConnection conn = .ok (some s) →
      ∀ n ∈ c.resolved env conn s.src, ¬ c.LeadsTo n a p)
    (hdst : ∀ s, readConnection conn = .ok (some s) →
      ∀ n ∈ c.resolved env conn s.dst, ¬ c.LeadsTo n b q) :
    Apart u v (c.wirings env conn) := by
  intro x hx
  obtain ⟨s, hs, -, hxs, hxd⟩ := mem_wirings hx
  refine ⟨isUpstream_of_mem_reached hxs, isUpstream_of_mem_reached hxd, ?_, ?_⟩
  · rintro rfl
    obtain ⟨n, hn, hfound⟩ := mem_reached.mp hxs
    obtain ⟨owner, port, hlead, howner, hlabel⟩ := label_of_findPort hfound
    obtain rfl := hl.injective _ _ _ howner ha
    obtain rfl := Option.some.inj (hlabel.symm.trans hu)
    exact hsrc s hs n hn hlead
  · rintro rfl
    obtain ⟨n, hn, hfound⟩ := mem_reached.mp hxd
    obtain ⟨owner, port, hlead, howner, hlabel⟩ := label_of_findPort hfound
    obtain rfl := hl.injective _ _ _ howner hb
    obtain rfl := Option.some.inj (hlabel.symm.trans hv)
    exact hdst s hs n hn hlead

theorem lastReaching_of_getLast? {up : Bool} {spec a p : String} {r : PortRef} (hl : c.Local w)
    (ha : c.objectInstances.lookup a = some (some r.owner))
    (hlabel : (c.labels r.owner up)[r.id]? = some p)
    (h : (c.reached env up conn spec).getLast? = some r) :
    c.LastReaching up (c.resolved env conn spec) a p := by
  obtain ⟨pre, name, post, hnames, hname, hpost⟩ := getLast?_filterMap.mp h
  refine ⟨pre, name, post, hnames, ?_, hpost⟩
  have hfound : c.findPort up name = .ok (some r) := by
    unfold portOf at hname
    split at hname
    · next hr => rw [hr, hname]
    · cases hname
  obtain ⟨owner, port, hlead, howner, hport⟩ := label_of_findPort hfound
  obtain rfl := hl.injective _ _ _ howner ha
  obtain rfl := Option.some.inj (hport.symm.trans hlabel)
  exact hlead

theorem getLast?_of_lastReaching {up : Bool} {spec a p : String} {pa : ObjPtr} {i : ℕ}
    {pm : PortManager} (ha : c.objectInstances.lookup a = some (some pa))
    (hpm : (c.object pa).portManager = some pm) (hi : pm.getPort up p = some i)
    (h : c.LastReaching up (c.resolved env conn spec) a p) :
    (c.reached env up conn spec).getLast? = some ⟨pa, up, i⟩ := by
  obtain ⟨pre, name, post, hnames, hlead, hpost⟩ := h
  refine getLast?_filterMap.mpr ⟨pre, name, post, hnames, ?_, hpost⟩
  rw [portOf_of_ok (findPort_of_leadsTo hlead ha hpm), hi]
  rfl

theorem leadsTo_of_findEndpoint {spec a p : String} {e : Option Endpoint}
    (h : c.findEndpoint spec = .ok e) (hspec : parsePortSpec spec = (a, p)) (hp : p ≠ "")
    (ha : (c.moduleInstances.lookup a).join = none) : c.LeadsTo spec a p := by
  cases hm : c.moduleInstances.lookup a with
  | none => exact leadsTo_plain hspec hp hm
  | some m =>
    obtain rfl : m = none := by simpa [hm] using ha
    simp only [findEndpoint, hspec, hm, if_neg hp] at h
    cases h

theorem endpointCreation_ok {key : String} {up plain : Bool} {spec : String}
    {infos : List PortCreationInfo} (h : endpointCreation key up plain c conn spec = .ok infos) :
    (c.findEndpoint spec = .ok none ∧ infos = []) ∨ ∃ e sizes pri, c.findEndpoint spec = .ok (some e) ∧
      infos = [⟨e.owner, e.port, 4 :: sizes, pri, up⟩] := by
  obtain ⟨e, he, h⟩ := bind_eq_ok.mp h
  cases e with
  | none =>
    cases h
    exact .inl ⟨he, rfl⟩
  | some e =>
    obtain ⟨sizes, -, h⟩ := bind_eq_ok.mp h
    obtain ⟨pri, -, h⟩ := bind_eq_ok.mp h
    cases h
    exact .inr ⟨e, sizes, pri, he, rfl⟩

theorem portCreations_ok {infos : List PortCreationInfo} (h : c.portCreations conn = .ok infos) :
    (readConnection conn = .ok none ∧ infos = []) ∨ ∃ s src dst, readConnection conn = .ok (some s) ∧
      c.srcCreation conn s.src = .ok src ∧ c.dstCreation conn s.dst = .ok dst ∧ infos = src ++ dst := by
  obtain ⟨s, hs, h⟩ := bind_eq_ok.mp h
  cases s with
  | none =>
    cases h
    exact .inl ⟨hs, rfl⟩
  | some s =>
    obtain ⟨src, hsrc, h⟩ := bind_eq_ok.mp h
    obtain ⟨dst, hdst, h⟩ := bind_eq_ok.mp h
    cases h
    exact .inr ⟨s, src, dst, hs, hsrc, hdst, rfl⟩

theorem portCreations_of_read {infos : List PortCreationInfo} {s : Connection}
    (h : c.portCreations conn = .ok infos) (hs : readConnection conn = .ok (some s)) :
    ∃ src dst, c.srcCreation conn s.src = .ok src ∧ c.dstCreation conn s.dst = .ok dst ∧
      infos = src ++ dst := by
  rcases portCreations_ok h with ⟨hnone, -⟩ | ⟨s', src, dst, hs', hsrc, hdst, rfl⟩
  · cases hs.symm.trans hnone
  · obtain rfl := Option.some.inj (Except.ok.inj (hs.symm.trans hs'))
    exact ⟨src, dst, hsrc, hdst, rfl⟩

theorem info_of_endpointCreation {key : String} {up plain : Bool} {spec a p : String}
    {infos : List PortCreationInfo} (h : endpointCreation key up plain c conn spec = .ok infos)
    (hspec : parsePortSpec spec = (a, p)) (hp : p ≠ "") (ha : (c.moduleInstances.lookup a).join = none) :
    ∃ info ∈ infos, info.ownerName = a ∧ info.portName = p ∧ info.isUpstream = up := by
  rcases endpointCreation_ok h with ⟨he, -⟩ | ⟨e, sizes, pri, he, rfl⟩
  · obtain ⟨exposed, hlead⟩ := leadsTo_of_findEndpoint he hspec hp ha
    cases hlead.symm.trans he
  · obtain ⟨exposed, hlead⟩ := leadsTo_of_findEndpoint he hspec hp ha
    obtain rfl := Option.some.inj (Except.ok.inj (hlead.symm.trans he))
    exact ⟨_, List.mem_singleton_self _, rfl, rfl, rfl⟩

theorem hasPort_of_creation {infoss : List (List PortCreationInfo)} {infos : List PortCreationInfo}
    {p : ObjPtr} {up : Bool} {a label : String} (hports : infoss.flatten.foldlM createPort c = .ok c₅)
    (hinfos : infos ∈ infoss)
    (hinfo : ∃ info ∈ infos, info.ownerName = a ∧ info.portName = label ∧ info.isUpstream = up)
    (hp : c.objectInstances.lookup a = some (some p)) (hm : (c.object p).portManager.isSome)
    (hlabel : label ≠ "") : c₅.HasPort p up label := by
  obtain ⟨info, hmem, rfl, rfl, rfl⟩ := hinfo
  exact hasPort_createPort_foldlM hports (List.mem_flatten_of_mem hinfos hmem) hp hm hlabel

end Call

section
variable {env : Env} {fuel : ℕ} {cfg conns conn : Json} {pre post : List Json} {w : World}
variable {c c₅ c' : Call}

structure Phases (env : Env) (fuel : ℕ) (cfg : Json) (w : World) (conns : Json) (c c₅ c' : Call) :
    Prop where
  run : instantiateFinal env (instantiateAll env fuel) cfg w = .ok c'
  prepare : Call.prepare env (instantiateAll env fuel) cfg w = .ok c
  connections : cfg.index "connections" = .ok conns
  createPorts : c.createPorts conns.elements = .ok c₅

namespace Phases
variable (h : Phases env fuel cfg w conns c c₅ c')
include h

theorem localBefore : c.Local w := Call.Local.prepare (instantiateAll_local env fuel) h.prepare

theorem connect : conns.elements.foldlM (Call.connect env) c₅ = .ok c' := by
  have hrun := h.run
  rw [instantiateFinal, h.prepare] at hrun
  obtain ⟨conns', c', hconns, hports, hconnect⟩ := Call.wirePorts_ok hrun
  obtain rfl := Except.ok.inj (hconns.symm.trans h.connections)
  obtain rfl := Except.ok.inj (hports.symm.trans h.createPorts)
  exact hconnect

theorem wired : c' = c₅.withWirings (conns.elements.flatMap (c₅.wirings env)) :=
  Call.connects_eq h.connect

theorem creations : ∃ infos, conns.elements.mapM c.portCreations = .ok infos ∧
    infos.flatten.foldlM Call.createPort c = .ok c₅ := Call.createPorts_ok h.createPorts

theorem rewired : Call.Rewired (Set.Iio w.next) c c₅ := by
  obtain ⟨infos, -, hcreate⟩ := h.creations
  exact Call.rewired_createPort_foldlM h.localBefore.avoids hcreate

theorem localBetween : c₅.Local w := h.localBefore.rewired h.rewired

theorem unwired : c₅.Unwired := by
  obtain ⟨infos, -, hcreate⟩ := h.creations
  exact (Call.unwired_prepare (instantiateAll_local env fuel) h.prepare).createPort_foldlM hcreate

theorem manager (p : ObjPtr) :
    (c₅.object p).portManager.isSome = (c.object p).portManager.isSome := by
  obtain ⟨infos, -, hcreate⟩ := h.creations
  exact Call.manager_createPort_foldlM hcreate p

end Phases

structure PlainEnd (c : Call) (spec a p : String) (pa : ObjPtr) : Prop where
  spec : parsePortSpec spec = (a, p)
  port_ne : p ≠ ""
  object : c.objectInstances.lookup a = some (some pa)
  plain : (c.moduleInstances.lookup a).join = none

theorem apart_flatMap (h : Phases env fuel cfg w conns c c₅ c') {u v : PortRef} {a p b q : String}
    (ha : c.objectInstances.lookup a = some (some u.owner))
    (hb : c.objectInstances.lookup b = some (some v.owner))
    (hu : (c₅.labels u.owner false)[u.id]? = some p) (hv : (c₅.labels v.owner true)[v.id]? = some q)
    {ks : List Json} (hother : ∀ k ∈ ks, ∀ s, readConnection k = .ok (some s) →
      (∀ n ∈ c.resolved env k s.src, ¬ c.LeadsTo n a p) ∧
      (∀ n ∈ c.resolved env k s.dst, ¬ c.LeadsTo n b q)) :
    Call.Apart u v (ks.flatMap (c₅.wirings env)) := by
  intro x hx
  obtain ⟨k, hk, hx⟩ := List.mem_flatMap.mp hx
  rw [← h.rewired.objectInstances] at ha hb
  rw [← h.rewired.resolved, ← h.rewired.leadsTo] at hother
  exact Call.apart_wirings h.localBetween ha hb hu hv (fun s hs => (hother k hk s hs).1)
    (fun s hs => (hother k hk s hs).2) x hx

/-- An entry of `connections` between ports of plain objects to which no other resolves. -/
structure PlainConnection (env : Env) (c : Call) (conns : Json) (pre : List Json) (conn : Json)
    (post : List Json) (s : Connection) (a p b q : String) (pa pb : ObjPtr) : Prop where
  split : conns.elements = pre ++ conn :: post
  read : readConnection conn = .ok (some s)
  src : PlainEnd c s.src a p pa
  dst : PlainEnd c s.dst b q pb
  others : ∀ k ∈ pre ++ post, ∀ s', readConnection k = .ok (some s') →
    (∀ n ∈ c.resolved env k s'.src, ¬ c.LeadsTo n a p) ∧
    (∀ n ∈ c.resolved env k s'.dst, ¬ c.LeadsTo n b q)

namespace PlainConnection
variable {s : Connection} {a p b q : String} {pa pb : ObjPtr}
variable (hc : PlainConnection env c conns pre conn post s a p b q pa pb)
variable (h : Phases env fuel cfg w conns c c₅ c')
include hc h

theorem wired : c' = c₅.withWirings (pre.flatMap (c₅.wirings env) ++
    (Call.wiringsOf s.latency (c₅.reached env false conn s.src) (c₅.reached env true conn s.dst) ++
      post.flatMap (c₅.wirings env))) := by
  have hthis : c₅.wirings env conn = Call.wiringsOf s.latency
      (c₅.reached env false conn s.src) (c₅.reached env true conn s.dst) := by
    simp only [Call.wirings, hc.read]
  rw [← hthis, ← List.flatMap_cons, ← List.flatMap_append, ← hc.split]
  exact h.wired

theorem objects : c₅.objectInstances.lookup a = some (some pa) ∧
    c₅.objectInstances.lookup b = some (some pb) := by
  rw [h.rewired.objectInstances]
  exact ⟨hc.src.object, hc.dst.object⟩

variable {i j : ℕ} (hi : (c₅.labels pa false)[i]? = some p) (hj : (c₅.labels pb true)[j]? = some q)
include hi hj

theorem apart : Call.Apart ⟨pa, false, i⟩ ⟨pb, true, j⟩ (pre.flatMap (c₅.wirings env)) ∧
    Call.Apart ⟨pa, false, i⟩ ⟨pb, true, j⟩ (post.flatMap (c₅.wirings env)) :=
  ⟨apart_flatMap h hc.src.object hc.dst.object hi hj
      fun k hk => hc.others k (List.mem_append_left post hk),
    apart_flatMap h hc.src.object hc.dst.object hi hj
      fun k hk => hc.others k (List.mem_append_right pre hk)⟩

theorem bound_iff : (c'.wires ⟨pa, false, i⟩).sendTarget = some ⟨pb, true, j⟩ ∧
    (c'.wires ⟨pb, true, j⟩).sendTarget = some ⟨pa, false, i⟩ ↔
    (c₅.reached env false conn s.src).getLast? = some ⟨pa, false, i⟩ ∧
      (c₅.reached env true conn s.dst).getLast? = some ⟨pb, true, j⟩ := by
  have hfree : (c₅.wires ⟨pa, false, i⟩).sendTarget = none := by
    rw [h.unwired a pa (hc.objects h).1 ⟨pa, false, i⟩ rfl]
    rfl
  exact Call.bound_iff hfree rfl rfl (fun r hr => Call.isUpstream_of_mem_reached hr)
    (fun r hr => Call.isUpstream_of_mem_reached hr) (hc.apart h hi hj).1 (hc.apart h hi hj).2 (hc.wired h)

omit hi hj in
theorem reached_of_realised (hreal : Realised c'.toWorld pa p pb q s.latency) :
    ∃ i j, (c₅.labels pa false)[i]? = some p ∧ (c₅.labels pb true)[j]? = some q ∧
      (c₅.reached env false conn s.src).getLast? = some ⟨pa, false, i⟩ ∧
      (c₅.reached env true conn s.dst).getLast? = some ⟨pb, true, j⟩ := by
  obtain ⟨i, j, hi, hj, huv, hvu, -⟩ := hreal
  rw [hc.wired h] at hi hj
  obtain ⟨hslast, hdlast⟩ := (hc.bound_iff h hi hj).mp ⟨huv, hvu⟩
  exact ⟨i, j, hi, hj, hslast, hdlast⟩

omit hi hj in
theorem hasPorts (hma : (c.object pa).portManager.isSome) (hmb : (c.object pb).portManager.isSome) :
    c₅.HasPort pa false p ∧ c₅.HasPort pb true q := by
  obtain ⟨infoss, hmapM, hcreate⟩ := h.creations
  have hmem : conn ∈ conns.elements := by
    rw [hc.split]
    exact List.mem_append_right _ (List.mem_cons_self ..)
  obtain ⟨infos, hinfos, hcreations⟩ := mem_of_mapM_ok hmapM hmem
  obtain ⟨src, dst, hsrc, hdst, rfl⟩ := Call.portCreations_of_read hcreations hc.read
  obtain ⟨info, hinfo, hfields⟩ :=
    Call.info_of_endpointCreation hsrc hc.src.spec hc.src.port_ne hc.src.plain
  obtain ⟨info', hinfo', hfields'⟩ :=
    Call.info_of_endpointCreation hdst hc.dst.spec hc.dst.port_ne hc.dst.plain
  exact ⟨Call.hasPort_of_creation hcreate hinfos ⟨info, List.mem_append_left _ hinfo, hfields⟩
      hc.src.object hma hc.src.port_ne,
    Call.hasPort_of_creation hcreate hinfos ⟨info', List.mem_append_right _ hinfo', hfields'⟩
      hc.dst.object hmb hc.dst.port_ne⟩

end PlainConnection

theorem isSome_manager_of_label {w : World} {p : ObjPtr} {up : Bool} {i : ℕ} {l : String}
    (h : (w.labels p up)[i]? = some l) : (w.object p).portManager.isSome := by
  by_contra hnone
  simp [World.labels, Option.not_isSome_iff_eq_none.mp hnone] at h

theorem label_of_hasPort {pm : PortManager} {p : ObjPtr} {up : Bool} {i : ℕ} {l : String}
    (hpm : (c.object p).portManager = some pm) (hi : pm.getPort up l = some i) :
    (c.labels p up)[i]? = some l := by
  rw [World.labels, hpm]
  exact (PortManager.label_of_getPort hi).1

/-- A connection between ports of plain objects that no other connection resolves to is
realised exactly when both objects have a port manager before phase 5, and the last of the
names it resolves to that reach a port lead to these two. -/
theorem realised_iff_last_reaching (h : Phases env fuel cfg w conns c c₅ c') {s : Connection}
    {a p b q : String} {pa pb : ObjPtr}
    (hc : PlainConnection env c conns pre conn post s a p b q pa pb) :
    Realised c'.toWorld pa p pb q s.latency ↔
      (c.object pa).portManager.isSome ∧ (c.object pb).portManager.isSome ∧
      c₅.LastReaching false (c₅.resolved env conn s.src) a p ∧
      c₅.LastReaching true (c₅.resolved env conn s.dst) b q := by
  obtain ⟨ha₅, hb₅⟩ := hc.objects h
  constructor
  · intro hreal
    obtain ⟨i, j, hi, hj, hslast, hdlast⟩ := hc.reached_of_realised h hreal
    refine ⟨?_, ?_, Call.lastReaching_of_getLast? h.localBetween ha₅ hi hslast,
      Call.lastReaching_of_getLast? h.localBetween hb₅ hj hdlast⟩
    · exact (h.manager pa).symm.trans (isSome_manager_of_label hi)
    · exact (h.manager pb).symm.trans (isSome_manager_of_label hj)
  · rintro ⟨hma, hmb, hra, hrb⟩
    obtain ⟨⟨pma, i, hpma, hgeti⟩, ⟨pmb, j, hpmb, hgetj⟩⟩ := hc.hasPorts h hma hmb
    have hi := label_of_hasPort hpma hgeti
    have hj := label_of_hasPort hpmb hgetj
    have hslast := Call.getLast?_of_lastReaching ha₅ hpma hgeti hra
    have hdlast := Call.getLast?_of_lastReaching hb₅ hpmb hgetj hrb
    obtain ⟨huv, hvu⟩ := (hc.bound_iff h hi hj).mpr ⟨hslast, hdlast⟩
    obtain ⟨hbefore, hafter⟩ := hc.apart h hi hj
    have hdelay : (c'.wires ⟨pa, false, i⟩).delayCycles = s.latency := by
      rw [hc.wired h]
      exact Call.delay_of_reached hbefore hafter (List.mem_of_getLast? hslast)
        (List.mem_of_getLast? hdlast)
    refine ⟨i, j, ?_, ?_, huv, hvu, hdelay⟩
    · rw [hc.wired h]
      exact hi
    · rw [hc.wired h]
      exact hj

theorem reached_eq_nil {up : Bool} {spec : String}
    (hgroup : ModuleGroup.isGroupReference spec = false)
    (hstar : Wildcard.isMatch env.regexMatch "*" spec = true)
    (hnames : ∀ n ∈ c.objectInstances.map (·.1), '.' ∉ n.toList) :
    c.reached env up conn spec = [] := by
  rw [List.eq_nil_iff_forall_not_mem]
  intro r hr
  obtain ⟨n, hn, hfound⟩ := Call.mem_reached.mp hr
  rcases Call.resolved_cases hn hgroup with hkey | ⟨-, -, hno⟩
  · exact hnames n hkey (Call.dot_of_findPort hfound)
  · cases hstar.symm.trans hno

/-- Since any one-line text matches `*`, no plain connection is realised unless an object is
named like a port. -/
theorem plain_connection_dropped (h : Phases env fuel cfg w conns c c₅ c') {s : Connection}
    {a p b q : String} {pa pb : ObjPtr}
    (hc : PlainConnection env c conns pre conn post s a p b q pa pb)
    (hgroup : ModuleGroup.isGroupReference s.src = false)
    (hstar : Wildcard.isMatch env.regexMatch "*" s.src = true)
    (hnames : ∀ n ∈ c.objectInstances.map (·.1), '.' ∉ n.toList) :
    ¬ Realised c'.toWorld pa p pb q s.latency := by
  intro hreal
  obtain ⟨i, j, -, -, hslast, -⟩ := hc.reached_of_realised h hreal
  rw [← h.rewired.objectInstances] at hnames
  rw [reached_eq_nil hgroup hstar hnames] at hslast
  cases hslast

end

section
open Json

def typesWith (pm : Option PortManager) : World where
  registry :=
    { modules := fun _ => none
      objects := fun t => if t = "CPUSim" ∨ t = "CacheSim" then some fun _ => pm else none }

def cpuCacheConnection : Json :=
  object [("dst", string "cache.cpu"), ("latency", int 5), ("src", string "cpu.mem")]

def cpuCacheConfig (entries : List (String × String)) : Json := object
  [("connections", array [cpuCacheConnection]),
   ("modules", array (entries.map fun e => object [("name", string e.1), ("type", string e.2)]))]

def twoNames : List (String × String) := [("cpu", "CPUSim"), ("cache", "CacheSim")]

def fourNames : List (String × String) :=
  twoNames ++ [("cpu.mem", "CPUSim"), ("cache.cpu", "CacheSim")]

def oneLine : Env := .plain (fun _ => none) dotStarRegex

def prepared (env : Env) (fuel : ℕ) (cfg : Json) (w : World) : Call :=
  valueOr { toWorld := w } (Call.prepare env (instantiateAll env fuel) cfg w)

def withPorts (env : Env) (fuel : ℕ) (cfg : Json) (w : World) (conns : Json) : Call :=
  valueOr { toWorld := w } ((prepared env fuel cfg w).createPorts conns.elements)

def finished (env : Env) (fuel : ℕ) (cfg : Json) (w : World) : Call :=
  valueOr { toWorld := w } (instantiateFinal env (instantiateAll env fuel) cfg w)

theorem Phases.ofReturns (env : Env) (fuel : ℕ) (cfg conns : Json) (w : World)
    (hconns : cfg.index "connections" = .ok conns)
    (hc : (Call.prepare env (instantiateAll env fuel) cfg w).isOk)
    (hc₅ : ((prepared env fuel cfg w).createPorts conns.elements).isOk)
    (hc' : (instantiateFinal env (instantiateAll env fuel) cfg w).isOk) :
    Phases env fuel cfg w conns (prepared env fuel cfg w) (withPorts env fuel cfg w conns)
      (finished env fuel cfg w) :=
  ⟨eq_ok_valueOr hc', eq_ok_valueOr hc, hconns, eq_ok_valueOr hc₅⟩

/-- Here each end has a further object, named like its port, for the names to resolve to. -/
theorem realised_iff_last_reaching_demo :
    Realised (finished oneLine 0 (cpuCacheConfig fourNames) (typesWith (some {}))).toWorld
      0 "mem" 1 "cpu" 5 := by
  have h := Phases.ofReturns oneLine 0 (cpuCacheConfig fourNames) (array [cpuCacheConnection])
    (typesWith (some {})) rfl (by decide +kernel) (by decide +kernel) (by decide +kernel)
  have hc : PlainConnection oneLine (prepared oneLine 0 (cpuCacheConfig fourNames)
      (typesWith (some {}))) (array [cpuCacheConnection]) [] cpuCacheConnection []
      ⟨"cpu.mem", "cache.cpu", 5⟩ "cpu" "mem" "cache" "cpu" 0 1 :=
    ⟨rfl, rfl, ⟨by decide, by decide, by decide +kernel, by decide +kernel⟩,
      ⟨by decide, by decide, by decide +kernel, by decide +kernel⟩, by simp⟩
  have hsrc : (prepared oneLine 0 (cpuCacheConfig fourNames) (typesWith (some {}))).LeadsTo
      "cpu.mem" "cpu" "mem" := Call.leadsTo_plain (by decide) (by decide) (by decide +kernel)
  have hdst : (prepared oneLine 0 (cpuCacheConfig fourNames) (typesWith (some {}))).LeadsTo
      "cache.cpu" "cache" "cpu" := Call.leadsTo_plain (by decide) (by decide) (by decide +kernel)
  rw [← h.rewired.leadsTo] at hsrc hdst
  exact (realised_iff_last_reaching h hc).mpr ⟨by decide +kernel, by decide +kernel,
    ⟨[], "cpu.mem", [], by decide +kernel, hsrc, by simp⟩,
    ⟨[], "cache.cpu", [], by decide +kernel, hdst, by simp⟩⟩

/-- With the two modules alone, as they are shipped, the link is not made. -/
theorem plain_connection_lost :
    PlainConnection oneLine (prepared oneLine 0 (cpuCacheConfig twoNames) (typesWith none))
      (array [cpuCacheConnection]) [] cpuCacheConnection []
      ⟨"cpu.mem", "cache.cpu", 5⟩ "cpu" "mem" "cache" "cpu" 0 1 ∧
    ¬ Realised (finished oneLine 0 (cpuCacheConfig twoNames) (typesWith none)).toWorld
      0 "mem" 1 "cpu" 5 := by
  have h := Phases.ofReturns oneLine 0 (cpuCacheConfig twoNames) (array [cpuCacheConnection])
    (typesWith none) rfl (by decide +kernel) (by decide +kernel) (by decide +kernel)
  have hc : PlainConnection oneLine (prepared oneLine 0 (cpuCacheConfig twoNames)
      (typesWith none)) (array [cpuCacheConnection]) [] cpuCacheConnection []
      ⟨"cpu.mem", "cache.cpu", 5⟩ "cpu" "mem" "cache" "cpu" 0 1 :=
    ⟨rfl, rfl, ⟨by decide, by decide, by decide +kernel, by decide +kernel⟩,
      ⟨by decide, by decide, by decide +kernel, by decide +kernel⟩, by simp⟩
  exact ⟨hc, plain_connection_dropped h hc (by decide) (by decide +kernel) (by decide +kernel)⟩

end
end GemSc
