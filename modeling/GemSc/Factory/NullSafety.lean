import GemSc.Factory.PlainConnection

/-! Null pointers in the two instance tables. `object_instances[name]` inserts null for a
name that is not there and is dereferenced at once; `module_instances[name]` inserts null
for an entry with a configuration and no module, and is dereferenced by later phases. -/

namespace GemSc
open ExceptFold

def NoNull {α : Type*} (x : Except Fault α) : Prop := x ≠ .error .nullDeref

namespace NoNull
variable {α β : Type}

theorem ok (a : α) : NoNull (.ok a : Except Fault α) := fun h => nomatch h

theorem bind {x : Except Fault α} {f : α → Except Fault β} (hx : NoNull x)
    (hf : ∀ a, x = .ok a → NoNull (f a)) : NoNull (x >>= f) := by
  intro h
  rcases bind_eq_error.mp h with h | ⟨a, ha, h⟩
  · exact hx h
  · exact hf a ha h

theorem mapM {f : α → Except Fault β} {l : List α} (hf : ∀ a ∈ l, NoNull (f a)) :
    NoNull (l.mapM f) := by
  induction l with
  | nil => exact ok []
  | cons a l ih =>
    rw [List.mapM_cons]
    apply bind (hf a (List.mem_cons_self ..))
    intro b _
    apply bind (ih fun a ha => hf a (List.mem_cons_of_mem _ ha))
    intro bs _
    exact ok _

theorem foldlM {f : β → α → Except Fault β} {l : List α} {b : β}
    (hf : ∀ c, ∀ a ∈ l, NoNull (f c a)) : NoNull (l.foldlM f b) := by
  intro h
  obtain ⟨pre, a, post, c, rfl, -, ha⟩ := foldlM_eq_error.mp h
  exact hf c a (by simp) ha

theorem index (key : String) (j : Json) : NoNull (j.index key) := by
  cases j <;> simp [NoNull, Json.index]

theorem getString (j : Json) : NoNull j.getString := by
  cases j <;> simp [NoNull, Json.getString]

theorem getInt (j : Json) : NoNull j.getInt := by
  cases j <;> simp [NoNull, Json.getInt]

theorem getSize (j : Json) : NoNull j.getSize := by
  cases j <;> simp [NoNull, Json.getSize]

theorem value {get : Json → Except Fault α} (hget : ∀ j, NoNull (get j)) (key : String) (d : α)
    (j : Json) : NoNull (j.value get key d) := by
  unfold Json.value
  split
  · split
    · exact hget _
    · exact ok d
  · exact fun h => nomatch h

theorem readConnection (conn : Json) : NoNull (readConnection conn) := by
  unfold GemSc.readConnection
  split
  · refine bind (index _ _) fun _ _ => bind (getString _) fun _ _ => bind (index _ _) fun _ _ =>
      bind (getString _) fun _ _ => bind (value getInt _ _ _) fun _ _ => ok _
  · exact ok _

theorem readSizes (conn : Json) (key : String) : NoNull (readSizes conn key) := by
  unfold GemSc.readSizes
  split
  · exact bind (index _ _) fun _ _ => mapM fun _ _ => getSize _
  · exact ok _

theorem readPriorities (wanted : Bool) (conn : Json) : NoNull (readPriorities wanted conn) := by
  unfold GemSc.readPriorities
  split
  · exact readSizes _ _
  · exact ok _

theorem parsePorts (key : String) (cfg : Json) : NoNull (SimModule.parsePorts key cfg) := by
  unfold SimModule.parsePorts
  split
  · refine bind (index _ _) fun _ _ => bind (mapM fun item _ => ?_) fun _ _ => ok _
    exact bind (value getString _ _ _) fun _ _ => bind (value getString _ _ _) fun _ _ => ok _
  · exact ok _

theorem isExcluded (r : RegexMatch) (name : String) (excl : List Json) :
    NoNull (isExcluded r name excl) := by
  induction excl with
  | nil => exact ok _
  | cons e rest ih =>
    refine bind (getString e) fun pattern _ => ?_
    split
    · exact ok _
    · exact ih

theorem filterExcluded (r : RegexMatch) (excl : Json) (names : List String) :
    NoNull (filterExcluded r excl names) := by
  induction names with
  | nil => exact ok _
  | cons name rest ih =>
    exact bind (isExcluded _ _ _) fun _ _ => bind ih fun _ _ => ok _

end NoNull

def Registered (reg : Registry) (type : String) : Prop :=
  (reg.modules type).isSome ∨ (reg.objects type).isSome

namespace Call
variable {env : Env} {nested : Nested} {w : World} {c c' : Call} {mod : Json}

/-- The table read at this specification holds null, and the port makes phase 5 or 6 read it. -/
def NullEnd (c : Call) (spec : String) : Prop :=
  (parsePortSpec spec).2 ≠ "" ∧ c.moduleInstances.lookup (parsePortSpec spec).1 = some none

theorem findEndpoint_error {spec : String} {f : Fault} :
    c.findEndpoint spec = .error f ↔ f = .nullDeref ∧ c.NullEnd spec := by
  unfold Call.findEndpoint NullEnd
  obtain ⟨moduleName, portName⟩ := parsePortSpec spec
  dsimp only
  cases c.moduleInstances.lookup moduleName with
  | none => exact ⟨fun h => (nomatch h), fun h => (nomatch h.2.2)⟩
  | some m =>
    by_cases hport : portName = ""
    · simp [hport, pure, Except.pure]
    · cases m with
      | none =>
        simp only [if_neg hport]
        constructor
        · intro h
          cases h
          exact ⟨rfl, hport, trivial⟩
        · rintro ⟨rfl, -⟩
          rfl
      | some m =>
        simp only [if_neg hport]
        constructor
        · intro h
          rcases bind_eq_error.mp h with h | ⟨m', -, h⟩
          · cases h
          · split at h <;> cases h
        · rintro ⟨-, -, h⟩
          cases h

theorem findPort_error (hnull : ∀ n, c.objectInstances.lookup n ≠ some none) {up : Bool}
    {name : String} {f : Fault} :
    c.findPort up name = .error f ↔ f = .nullDeref ∧ c.NullEnd name := by
  constructor
  · intro h
    rcases bind_eq_error.mp h with h | ⟨e, he, h⟩
    · exact findEndpoint_error.mp h
    · exfalso
      split at h
      · cases h
      · next e =>
        split at h
        · cases h
        · next o ho =>
          cases o with
          | none => exact hnull _ ho
          | some p => cases h
  · intro h
    exact bind_eq_error.mpr (.inl (findEndpoint_error.mpr h))

def Reads (env : Env) (c : Call) (conn : Json) (name : String) : Prop :=
  ∃ s, readConnection conn = .ok (some s) ∧ (name = s.src ∨ name = s.dst ∨
    name ∈ c.resolved env conn s.src ∨
    (c.resolved env conn s.src ≠ [] ∧ name ∈ c.resolved env conn s.dst))

theorem NoNull.endpointCreation {key spec : String} {up plain : Bool} {conn : Json}
    (h : ¬ c.NullEnd spec) : NoNull (endpointCreation key up plain c conn spec) := by
  refine NoNull.bind (fun he => h (findEndpoint_error.mp he).2) fun e _ => ?_
  cases e with
  | none => exact NoNull.ok _
  | some e =>
    exact NoNull.bind (NoNull.readSizes _ _) fun _ _ =>
      NoNull.bind (NoNull.readPriorities _ _) fun _ _ => NoNull.ok _

theorem noNull_portCreations {conn : Json} (h : ∀ name, c.Reads env conn name → ¬ c.NullEnd name) :
    NoNull (c.portCreations conn) := by
  refine NoNull.bind (NoNull.readConnection conn) fun s hs => ?_
  cases s with
  | none => exact NoNull.ok _
  | some s =>
    exact NoNull.bind (NoNull.endpointCreation (h s.src ⟨s, hs, .inl rfl⟩)) fun _ _ =>
      NoNull.bind (NoNull.endpointCreation (h s.dst ⟨s, hs, .inr (.inl rfl)⟩)) fun _ _ => NoNull.ok _

theorem noNull_createPort (hnull : ∀ n, c.objectInstances.lookup n ≠ some none)
    (info : PortCreationInfo) : NoNull (c.createPort info) := by
  intro h
  unfold createPort at h
  split at h
  · cases h
  · next o ho =>
    cases o with
    | none => exact hnull _ ho
    | some p =>
      simp only [deref, bind, Except.bind] at h
      split at h <;> cases h

theorem noNull_linkNames (hnull : ∀ n, c.objectInstances.lookup n ≠ some none) {latency : ℤ}
    {srcs dsts : List String} (hsrc : ∀ n ∈ srcs, ¬ c.NullEnd n)
    (hdst : srcs ≠ [] → ∀ n ∈ dsts, ¬ c.NullEnd n) : NoNull (c.linkNames latency srcs dsts) := by
  intro h
  obtain ⟨pre, src, post, d, rfl, hpre, h⟩ := foldlM_eq_error.mp h
  obtain rfl := linkNames_ok hpre
  rcases bind_eq_error.mp h with h | ⟨r, -, h⟩
  · exact hsrc src (by simp) ((findPort_error hnull).mp h).2
  · obtain ⟨pre', dst, post', d', rfl, hpre', h⟩ := foldlM_eq_error.mp h
    obtain rfl := linkDsts_ok hpre'
    rcases bind_eq_error.mp h with h | ⟨r', -, h⟩
    · exact hdst (by simp) dst (by simp) ((findPort_error hnull).mp h).2
    · cases h

theorem noNull_connect (hnull : ∀ n, c.objectInstances.lookup n ≠ some none) {conn : Json}
    (h : ∀ name, c.Reads env conn name → ¬ c.NullEnd name) : NoNull (c.connect env conn) := by
  refine NoNull.bind (NoNull.readConnection conn) fun s hs => ?_
  cases s with
  | none => exact NoNull.ok _
  | some s =>
    refine NoNull.bind (NoNull.value (fun j => NoNull.ok j) _ _ _) fun excl hexcl =>
      NoNull.bind (NoNull.filterExcluded _ _ _) fun srcs hsrcs =>
      NoNull.bind (NoNull.filterExcluded _ _ _) fun dsts hdsts => ?_
    have hs₁ : c.resolved env conn s.src = srcs := resolved_of_ok hexcl hsrcs
    have hs₂ : c.resolved env conn s.dst = dsts := resolved_of_ok hexcl hdsts
    refine noNull_linkNames hnull (fun n hn => h n ⟨s, hs, ?_⟩) fun hne n hn => h n ⟨s, hs, ?_⟩
    · exact .inr (.inr (.inl (hs₁ ▸ hn)))
    · exact .inr (.inr (.inr ⟨hs₁ ▸ hne, hs₂ ▸ hn⟩))

theorem noNull_loadPlugins (cfg : Json) : NoNull (loadPlugins env cfg c) := by
  unfold loadPlugins
  split
  · exact NoNull.bind (NoNull.index _ _) fun _ _ => NoNull.foldlM fun _ _ _ =>
      NoNull.bind (NoNull.getString _) fun _ _ => NoNull.ok _
  · exact NoNull.ok _

theorem noNull_defineGroups (cfg : Json) : NoNull (defineGroups cfg c) := by
  unfold defineGroups
  split
  · exact NoNull.bind (NoNull.index _ _) fun _ _ => NoNull.foldlM fun _ _ _ =>
      NoNull.bind (NoNull.mapM fun _ _ => NoNull.getString _) fun _ _ => NoNull.ok _
  · exact NoNull.ok _

theorem noNull_instantiateModule : NoNull (instantiateModule env nested c mod) := by
  unfold instantiateModule
  split
  · refine NoNull.bind (NoNull.index _ _) fun _ _ => NoNull.bind (NoNull.getString _) fun name _ => ?_
    split
    · exact NoNull.ok _
    · exact NoNull.ok _
    · refine NoNull.bind (NoNull.index _ _) fun _ _ => NoNull.bind (NoNull.getString _) fun file _ => ?_
      split
      · exact NoNull.ok _
      · exact fun h => nomatch h
      · refine NoNull.bind ?_ fun _ _ => NoNull.bind ?_ fun _ _ => NoNull.ok _
        · -- a fault of the nested call is not one of this call's own
          intro h
          cases hn : nested _ c.toWorld with
          | error f => rw [hn] at h; cases h
          | ok r => rw [hn] at h; cases h
        · exact NoNull.bind (NoNull.parsePorts _ _) fun _ _ =>
            NoNull.bind (NoNull.parsePorts _ _) fun _ _ => NoNull.ok _
  · exact NoNull.ok _

theorem createInstance_null (h : createInstance c mod = .error .nullDeref) :
    ∃ name type x y, IsEntry mod name type ∧ LayoutAt mod x y ∧
      ((c.create name type).objectInstances.lookup name).join = none := by
  unfold createInstance at h
  split at h
  · next hboth =>
    obtain ⟨hn, ht⟩ := Bool.and_eq_true_iff.mp hboth
    rcases bind_eq_error.mp h with h | ⟨nameField, hname, h⟩
    · exact absurd h (NoNull.index _ _)
    rcases bind_eq_error.mp h with h | ⟨name, hnameStr, h⟩
    · exact absurd h (NoNull.getString _)
    rcases bind_eq_error.mp h with h | ⟨typeField, htype, h⟩
    · exact absurd h (NoNull.index _ _)
    rcases bind_eq_error.mp h with h | ⟨type, htypeStr, h⟩
    · exact absurd h (NoNull.getString _)
    rw [Json.getString_eq_ok.mp hnameStr] at hname
    rw [Json.getString_eq_ok.mp htypeStr] at htype
    refine ⟨name, type, ?_⟩
    unfold placeInstance at h
    split at h
    · next hl =>
      rcases bind_eq_error.mp h with h | ⟨l, hidx, h⟩
      · exact absurd h (NoNull.index _ _)
      rcases bind_eq_error.mp h with h | ⟨x, hx, h⟩
      · exact absurd h (NoNull.value NoNull.getInt _ _ _)
      rcases bind_eq_error.mp h with h | ⟨y, hy, h⟩
      · exact absurd h (NoNull.value NoNull.getInt _ _ _)
      split at h
      · next hxy =>
        refine ⟨x, y, ⟨hn, ht, hname, htype⟩, ⟨hl, hxy.1, hxy.2, l, hidx, hx, hy⟩, ?_⟩
        rcases bind_eq_error.mp h with h | ⟨p, -, h⟩
        · cases hj : ((c.create name type).objectInstances.lookup name).join with
          | none => rfl
          | some p => rw [hj] at h; cases h
        · cases h
      · cases h
    · cases h
  · cases h

structure Tabled (reg : Registry) (mods : List Json) (c : Call) : Prop where
  registry : c.registry = reg
  object : ∀ name, (c.objectInstances.lookup name).isSome ↔
    ∃ mod ∈ mods, ∃ type, IsEntry mod name type ∧ Registered reg type
  module_iff : ∀ name, (c.moduleInstances.lookup name).isSome ↔
    ∃ mod ∈ mods, ∃ type, IsEntry mod name type ∧ (reg.modules type).isSome
  module_ne : ∀ name, c.moduleInstances.lookup name ≠ some none

theorem exists_mem_concat {α : Type*} {l : List α} {a : α} {P : α → Prop} :
    (∃ x ∈ l ++ [a], P x) ↔ P a ∨ ∃ x ∈ l, P x := by
  simp [or_and_right, exists_or, or_comm]

theorem entry_iff {name type : String} (h : IsEntry mod name type) {Q : String → Prop} (k : String) :
    (∃ type, IsEntry mod k type ∧ Q type) ↔ k = name ∧ Q type := by
  constructor
  · rintro ⟨type', h', hQ⟩
    obtain ⟨rfl, rfl⟩ := h.unique h'
    exact ⟨rfl, hQ⟩
  · rintro ⟨rfl, hQ⟩
    exact ⟨type, h, hQ⟩

theorem Tabled.create {reg : Registry} {mods : List Json} {name type : String}
    (h : c.Tabled reg mods) (he : IsEntry mod name type) :
    (c.create name type).Tabled reg (mods ++ [mod]) := by
  rcases c.create_cases name type with ⟨ctor, hm, heq⟩ | ⟨ctor, hm, ho, heq⟩ | ⟨hm, ho, heq⟩ <;>
    rw [heq] <;> rw [h.registry] at hm <;>
    refine ⟨h.registry, fun k => ?_, fun k => ?_, fun k => ?_⟩ <;>
    try rw [exists_mem_concat, entry_iff he]
  · rw [← h.object]
    exact Assignments.lookup_cons_isSome.trans (by simp [Registered, hm])
  · rw [← h.module_iff]
    exact Assignments.lookup_cons_isSome.trans (by simp [hm])
  · intro hnull
    rcases Assignments.lookup_cons_some.mp hnull with ⟨-, hk⟩ | ⟨-, hk⟩
    · cases hk
    · exact h.module_ne k hk
  · rw [h.registry] at ho
    rw [← h.object]
    exact Assignments.lookup_cons_isSome.trans (by simp [Registered, ho])
  · rw [← h.module_iff]
    exact (or_iff_right (by simp [hm])).symm
  · exact h.module_ne k
  · rw [h.registry] at ho
    rw [← h.object]
    exact (or_iff_right (by simp [Registered, hm, ho])).symm
  · rw [← h.module_iff]
    exact (or_iff_right (by simp [hm])).symm
  · exact h.module_ne k

theorem Tabled.createInstance {reg : Registry} {mods : List Json} (h : c.Tabled reg mods)
    (hstep : Call.createInstance c mod = .ok c') : c'.Tabled reg (mods ++ [mod]) := by
  rcases createInstance_ok hstep with ⟨rfl, hskip⟩ | ⟨name, type, he, hplace⟩
  · refine ⟨h.registry, fun k => ?_, fun k => ?_, h.module_ne⟩
    · rw [exists_mem_concat, h.object]
      exact (or_iff_right fun ⟨type, he, _⟩ => hskip k type he).symm
    · rw [exists_mem_concat, h.module_iff]
      exact (or_iff_right fun ⟨type, he, _⟩ => hskip k type he).symm
  · have hcreate := h.create he
    rcases placeInstance_ok hplace with ⟨rfl, -⟩ | ⟨x, y, p, -, -, rfl⟩
    · exact hcreate
    · exact ⟨hcreate.registry, hcreate.object, hcreate.module_iff, hcreate.module_ne⟩

theorem tabled_createInstances {reg : Registry} {mods : List Json}
    (h : mods.foldlM Call.createInstance { toWorld := { w with registry := reg } } = .ok c) :
    c.Tabled reg mods := by
  apply foldlM_invariant_prefix (fun pre d => Tabled reg pre d) h
  · exact ⟨rfl, fun _ => by simp, fun _ => by simp, fun _ hn => nomatch hn⟩
  · rintro pre mod post d e - hd hstep
    exact hd.createInstance hstep

end Call
end GemSc
