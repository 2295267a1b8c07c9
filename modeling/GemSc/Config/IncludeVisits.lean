import GemSc.Config.Includes

/-! `loadAndInclude` and `processIncludes` as calls bounded by fuel: a call does what visiting
the include directives of its document in their order does, and halts if those visits do. -/

namespace GemSc.JsonIncluder
open Fuel

variable {files : Files} {base : String}

theorem loadAndInclude_succ (fuel : ℕ) {f : String} {root : Json} (h : files f = some (some root)) :
    loadAndInclude files (fuel + 1) f = processIncludes files fuel root f := by
  rw [loadAndInclude, h]

theorem mergedMembers_below {fuel fuel' : ℕ} {members : List (String × Json)}
    (h : ∀ f, Below .outOfFuel (loadAndInclude files fuel f) (loadAndInclude files fuel' f)) :
    Below .outOfFuel (mergedMembers files fuel base members)
      (mergedMembers files fuel' base members) := by
  unfold mergedMembers
  cases members.lookup "include" with
  | none => exact .refl _
  | some path => exact (Below.refl _).bind fun s _ => (h _).bind fun included _ => .refl _

theorem below_succ (fuel : ℕ) :
    (∀ f, Below .outOfFuel (loadAndInclude files fuel f) (loadAndInclude files (fuel + 1) f)) ∧
    ∀ doc base, Below .outOfFuel (processIncludes files fuel doc base)
      (processIncludes files (fuel + 1) doc base) := by
  induction fuel with
  | zero =>
    refine ⟨fun f => ?_, fun doc base => ?_⟩
    · rw [loadAndInclude]
      exact .exhausted _
    · rw [processIncludes]
      exact .exhausted _
  | succ fuel ih =>
    obtain ⟨hload, hprocess⟩ := ih
    refine ⟨fun f => ?_, fun doc base => ?_⟩
    · rw [loadAndInclude, loadAndInclude]
      cases files f with
      | none => exact .refl _
      | some parsed => cases parsed with
        | none => exact .refl _
        | some root => exact hprocess root f
    · cases doc using Json.shape with
      | array xs =>
        rw [processIncludes_array, processIncludes_array]
        have hxs : Below .outOfFuel (xs.mapM fun x => processIncludes files fuel x base)
            (xs.mapM fun x => processIncludes files (fuel + 1) x base) :=
          .mapM fun x _ => hprocess x base
        exact hxs.bind fun ys _ => .refl _
      | object members =>
        rw [processIncludes_object, processIncludes_object]
        refine (mergedMembers_below hload).bind fun ms _ => ?_
        have hms : Below .outOfFuel (ms.mapM (processMember files fuel base))
            (ms.mapM (processMember files (fuel + 1) base)) :=
          .mapM fun m _ => (hprocess m.2 base).bind fun v _ => .refl _
        exact hms.bind fun ms' _ => .refl _
      | other doc harray hobject =>
        rw [processIncludes_other _ harray hobject, processIncludes_other _ harray hobject]
        exact .refl _

theorem loadAndInclude_steady (f : String) :
    Steady .outOfFuel fun fuel => loadAndInclude files fuel f :=
  fun fuel => (below_succ fuel).1 f

theorem processIncludes_steady (doc : Json) (base : String) :
    Steady .outOfFuel fun fuel => processIncludes files fuel doc base :=
  fun fuel => (below_succ fuel).2 doc base

/-! No call leaves a directive behind, and a document without directives stays as it is. -/

theorem mem_mapM_processMember {fuel : ℕ} {ms ms' : List (String × Json)}
    (h : ms.mapM (processMember files fuel base) = .ok ms') {m' : String × Json} (hm' : m' ∈ ms') :
    ∃ m ∈ ms, m'.1 = m.1 ∧ processIncludes files fuel m.2 base = .ok m'.2 := by
  obtain ⟨m, hm, hprocess⟩ := ExceptFold.exists_mem_of_mapM_ok h hm'
  obtain ⟨v, hv, rfl⟩ := ExceptFold.bind_pure_eq_ok.mp hprocess
  exact ⟨m, hm, rfl, hv⟩

theorem mergedMembers_eq_ok {fuel : ℕ} {members ms : List (String × Json)} :
    mergedMembers files fuel base members = .ok ms ↔
      (members.lookup "include" = none ∧ ms = members) ∨
      ∃ s included, members.lookup "include" = some (.string s) ∧
        loadAndInclude files fuel (dirOf base ++ s) = .ok included ∧
        ms = (merge included members).filter fun m => m.1 != "include" := by
  unfold mergedMembers
  cases members.lookup "include" with
  | none =>
    constructor
    · exact fun h => .inl ⟨rfl, (Except.ok.inj h).symm⟩
    · rintro (⟨-, rfl⟩ | ⟨s, included, hpath, -⟩)
      · rfl
      · cases hpath
  | some path =>
    constructor
    · intro h
      obtain ⟨s, hs, h⟩ := ExceptFold.bind_eq_ok.mp h
      obtain ⟨included, hincluded, h⟩ := ExceptFold.bind_pure_eq_ok.mp h
      refine .inr ⟨s, included, ?_, hincluded, h.symm⟩
      rw [Json.getString_eq_ok.mp hs]
    · rintro (⟨hnone, -⟩ | ⟨s, included, hpath, hincluded, rfl⟩)
      · cases hnone
      · obtain rfl := Option.some.inj hpath
        exact ExceptFold.bind_eq_ok.mpr ⟨s, rfl, ExceptFold.bind_eq_ok.mpr ⟨included, hincluded, rfl⟩⟩

theorem ne_include_of_mergedMembers {fuel : ℕ} {members ms : List (String × Json)}
    (h : mergedMembers files fuel base members = .ok ms) : ∀ m ∈ ms, m.1 ≠ "include" := by
  intro m hm
  rcases mergedMembers_eq_ok.mp h with ⟨hnone, rfl⟩ | ⟨s, included, -, -, rfl⟩
  · exact lookup_eq_none_iff_ne.mp hnone m hm
  · simpa using (List.mem_filter.mp hm).2

theorem not_hasKey_of_ok (fuel : ℕ) :
    (∀ f doc, loadAndInclude files fuel f = .ok doc → ¬ doc.HasKey "include") ∧
    ∀ doc base r, processIncludes files fuel doc base = .ok r → ¬ r.HasKey "include" := by
  induction fuel with
  | zero =>
    refine ⟨fun f doc h => ?_, fun doc base r h => ?_⟩
    · rw [loadAndInclude] at h
      cases h
    · rw [processIncludes] at h
      cases h
  | succ fuel ih =>
    obtain ⟨-, hprocess⟩ := ih
    refine ⟨fun f doc h => ?_, fun doc base r h => ?_⟩
    · rw [loadAndInclude] at h
      cases hfile : files f with
      | none =>
        rw [hfile] at h
        cases h
      | some parsed =>
        rw [hfile] at h
        cases parsed with
        | none => cases h
        | some root => exact hprocess root f doc h
    · cases doc using Json.shape with
      | array xs =>
        rw [processIncludes_array] at h
        obtain ⟨ys, hys, rfl⟩ := ExceptFold.bind_pure_eq_ok.mp h
        refine Json.not_hasKey_array.mpr fun y hy => ?_
        obtain ⟨x, -, hx⟩ := ExceptFold.exists_mem_of_mapM_ok hys hy
        exact hprocess x base y hx
      | object members =>
        rw [processIncludes_object] at h
        obtain ⟨ms, hms, h⟩ := ExceptFold.bind_eq_ok.mp h
        obtain ⟨ms', hms', rfl⟩ := ExceptFold.bind_pure_eq_ok.mp h
        refine Json.not_hasKey_object.mpr fun m' hm' => ?_
        obtain ⟨m, hm, hkey, hvalue⟩ := mem_mapM_processMember hms' hm'
        exact ⟨hkey ▸ ne_include_of_mergedMembers hms m hm, hprocess m.2 base m'.2 hvalue⟩
      | other doc harray hobject =>
        rw [processIncludes_other _ harray hobject] at h
        obtain rfl := Except.ok.inj h
        intro hkey
        cases hkey with
        | here => exact hobject _ rfl
        | member => exact hobject _ rfl
        | element => exact harray _ rfl

theorem loadAndInclude_not_hasKey {fuel : ℕ} {f : String} {doc : Json}
    (h : loadAndInclude files fuel f = .ok doc) : ¬ doc.HasKey "include" :=
  (not_hasKey_of_ok fuel).1 f doc h

theorem processMember_steady (base : String) (m : String × Json) :
    Steady .outOfFuel fun fuel => processMember files fuel base m :=
  (processIncludes_steady m.2 base).bind fun _ _ => .refl _

theorem processIncludes_returns_self {doc : Json} (h : ¬ doc.HasKey "include") :
    Returns (fun fuel => processIncludes files fuel doc base) doc := by
  induction doc using Json.induction with
  | array xs ih =>
    have hxs : Returns (fun fuel => xs.mapM fun x => processIncludes files fuel x base) xs := by
      refine Returns.mapM (fun x => processIncludes_steady x base) (List.forall₂_same.mpr ?_)
      exact fun x hx => ih x hx (Json.not_hasKey_array.mp h x hx)
    apply Returns.of_succ
    simp only [processIncludes_array]
    exact hxs.map Json.array
  | object members ih =>
    have hkeys := Json.not_hasKey_object.mp h
    have hmerged (fuel : ℕ) : mergedMembers files fuel base members = .ok members :=
      mergedMembers_eq_ok.mpr (.inl ⟨lookup_eq_none_iff_ne.mpr fun m hm => (hkeys m hm).1, rfl⟩)
    have hmembers : Returns (fun fuel => members.mapM (processMember files fuel base)) members := by
      refine Returns.mapM (processMember_steady base) (List.forall₂_same.mpr ?_)
      exact fun m hm => (ih m hm (hkeys m hm).2).map fun v => (m.1, v)
    apply Returns.of_succ
    simp only [processIncludes_object, hmerged]
    exact hmembers.map Json.object
  | other doc harray hobject => exact ⟨1, processIncludes_other 0 harray hobject⟩

/-! Visits. -/

def visit (files : Files) (base : String) (fuel : ℕ) (path : Json) : Except Fault PUnit := do
  let s ← path.getString
  let _ ← loadAndInclude files fuel (dirOf base ++ s)
  pure ⟨⟩

theorem visit_eq_ok {fuel : ℕ} {path : Json} : visit files base fuel path = .ok ⟨⟩ ↔
    ∃ s doc, path = .string s ∧ loadAndInclude files fuel (dirOf base ++ s) = .ok doc := by
  unfold visit
  rw [ExceptFold.bind_eq_ok]
  constructor
  · rintro ⟨s, hs, h⟩
    obtain ⟨doc, hdoc, -⟩ := ExceptFold.bind_eq_ok.mp h
    exact ⟨s, doc, Json.getString_eq_ok.mp hs, hdoc⟩
  · rintro ⟨s, doc, rfl, hdoc⟩
    exact ⟨s, rfl, ExceptFold.bind_eq_ok.mpr ⟨doc, hdoc, rfl⟩⟩

theorem visit_steady (path : Json) : Steady .outOfFuel fun fuel => visit files base fuel path :=
  fun _ => (Below.refl _).bind fun _ _ => (loadAndInclude_steady _ _).bind fun _ _ => .refl _

theorem forM_visit_steady (paths : List Json) :
    Steady .outOfFuel fun fuel => forM paths (visit files base fuel) := by
  intro fuel
  induction paths with
  | nil => exact .refl _
  | cons path paths ih =>
    simp only [List.forM_cons]
    exact (visit_steady path fuel).bind fun _ _ => ih

theorem processIncludes_below_visits (fuel : ℕ) (doc : Json) :
    Below .outOfFuel (processIncludes files fuel doc base >>= fun _ => pure ⟨⟩)
      (forM (directives doc) (visit files base fuel)) := by
  induction fuel generalizing doc with
  | zero =>
    rw [processIncludes]
    exact .exhausted _
  | succ fuel ih =>
    have hchild (j : Json) : Below .outOfFuel (processIncludes files fuel j base >>= fun _ => pure ⟨⟩)
        (forM (directives j) (visit files base (fuel + 1))) :=
      (ih j).trans (forM_visit_steady _ fuel)
    have hmember (m : String × Json) :
        Below .outOfFuel (processMember files fuel base m >>= fun _ => pure ⟨⟩)
          (forM (directives m.2) (visit files base (fuel + 1))) := by
      have hm := hchild m.2
      simpa only [processMember, bind_assoc, pure_bind] using hm
    cases doc using Json.shape with
    | array xs =>
      rw [processIncludes_array, directives_array]
      have hxs := Below.mapM_forM (l := xs) fun x _ => hchild x
      simpa only [bind_assoc, pure_bind] using hxs
    | object members =>
      have hmembers (ms : List (String × Json)) := Below.mapM_forM (l := ms) fun m _ => hmember m
      rw [processIncludes_object, mergedMembers]
      cases hlookup : members.lookup "include" with
      | none =>
        rw [directives_object_of_none hlookup]
        simpa only [bind_assoc, pure_bind] using hmembers members
      | some path =>
        rw [directives_object_of_some hlookup, List.forM_cons, visit]
        simp only [bind_assoc, pure_bind]
        refine (Below.refl _).bind fun s _ => ?_
        refine (loadAndInclude_steady _ fuel).bind fun included hincluded => ?_
        rw [← directives_merge (loadAndInclude_not_hasKey hincluded)]
        exact hmembers _
    | other doc harray hobject =>
      rw [processIncludes_other _ harray hobject, directives_other harray hobject]
      exact .refl _

theorem visited_of_returns {doc r : Json}
    (h : Returns (fun fuel => processIncludes files fuel doc base) r) :
    ∀ d ∈ directives doc, Returns (fun fuel => visit files base fuel d) ⟨⟩ := by
  obtain ⟨n, hn⟩ := h
  have hvisits : forM (directives doc) (visit files base n) = .ok ⟨⟩ := by
    apply (processIncludes_below_visits n doc).eq_ok
    exact ExceptFold.bind_pure_eq_ok.mpr ⟨r, hn, rfl⟩
  exact fun d hd => ⟨n, ExceptFold.forM_eq_ok.mp hvisits d hd⟩

def VisitsHalt (files : Files) (base : String) (paths : List Json) : Prop :=
  ∀ pre d post, paths = pre ++ d :: post →
    (∀ x ∈ pre, Returns (fun fuel => visit files base fuel x) ⟨⟩) →
    Halts .outOfFuel fun fuel => visit files base fuel d

theorem VisitsHalt.of_append {xs ys zs : List Json} (h : VisitsHalt files base (xs ++ (ys ++ zs)))
    (hxs : ∀ x ∈ xs, Returns (fun fuel => visit files base fuel x) ⟨⟩) :
    VisitsHalt files base ys := by
  rintro pre d post rfl hpre
  refine h (xs ++ pre) d (post ++ zs) (by simp) fun x hx => ?_
  rcases List.mem_append.mp hx with hx | hx
  · exact hxs x hx
  · exact hpre x hx

theorem VisitsHalt.of_flatMap {α : Type} {doc : α → Json} {head : List Json} {pre post : List α}
    {a : α} (h : VisitsHalt files base
      (head ++ (pre ++ a :: post).flatMap fun a => directives (doc a)))
    (hhead : ∀ d ∈ head, Returns (fun fuel => visit files base fuel d) ⟨⟩)
    (hpre : ∀ x ∈ pre, ∃ r, Returns (fun fuel => processIncludes files fuel (doc x) base) r) :
    VisitsHalt files base (directives (doc a)) := by
  rw [List.flatMap_append, List.flatMap_cons, ← List.append_assoc] at h
  refine h.of_append fun d hd => ?_
  rcases List.mem_append.mp hd with hd | hd
  · exact hhead d hd
  · obtain ⟨x, hx, hdx⟩ := List.mem_flatMap.mp hd
    obtain ⟨r, hr⟩ := hpre x hx
    exact visited_of_returns hr d hdx

theorem mergedMembers_steady (members : List (String × Json)) :
    Steady .outOfFuel fun fuel => mergedMembers files fuel base members :=
  fun fuel => mergedMembers_below (below_succ fuel).1

theorem mergedMembers_halts {members : List (String × Json)}
    (h : VisitsHalt files base (directives (.object members))) :
    Halts .outOfFuel fun fuel => mergedMembers files fuel base members := by
  unfold mergedMembers
  cases hlookup : members.lookup "include" with
  | none => exact ⟨0, nofun⟩
  | some path =>
    rw [directives_object_of_some hlookup] at h
    obtain ⟨n, hn⟩ := h [] path _ rfl nofun
    refine ⟨n, fun hout => hn ?_⟩
    show visit files base n path = .error .outOfFuel
    unfold visit
    rcases ExceptFold.bind_eq_error.mp hout with hs | ⟨s, hs, hout⟩
    · rw [hs]
      rfl
    · rcases ExceptFold.bind_eq_error.mp hout with hload | ⟨included, -, hout⟩
      · rw [hs]
        show loadAndInclude files n (dirOf base ++ s) >>= _ = _
        rw [hload]
        rfl
      · cases hout

theorem directives_of_mergedMembers {fuel : ℕ} {members ms : List (String × Json)}
    (h : mergedMembers files fuel base members = .ok ms) :
    ∃ head, directives (.object members) = head ++ ms.flatMap (fun m => directives m.2) ∧
      ∀ d ∈ head, visit files base fuel d = .ok ⟨⟩ := by
  rcases mergedMembers_eq_ok.mp h with ⟨hnone, rfl⟩ | ⟨s, included, hsome, hload, rfl⟩
  · exact ⟨[], directives_object_of_none hnone, nofun⟩
  · refine ⟨[.string s], ?_, ?_⟩
    · rw [directives_object_of_some hsome, directives_merge (loadAndInclude_not_hasKey hload)]
      rfl
    · intro d hd
      obtain rfl := List.mem_singleton.mp hd
      exact visit_eq_ok.mpr ⟨s, included, rfl, hload⟩

theorem mem_of_mergedMembers {fuel : ℕ} {members ms : List (String × Json)}
    (h : mergedMembers files fuel base members = .ok ms) {m : String × Json} (hm : m ∈ ms) :
    m ∈ members ∨ ¬ m.2.HasKey "include" := by
  rcases mergedMembers_eq_ok.mp h with ⟨-, rfl⟩ | ⟨s, included, -, hload, rfl⟩
  · exact .inl hm
  · rcases mem_of_mem_merge (List.mem_filter.mp hm).1 with hm | hm
    · exact .inl hm
    · exact .inr (Json.not_hasKey_items (loadAndInclude_not_hasKey hload) m hm)

theorem processIncludes_halts {doc : Json} (h : VisitsHalt files base (directives doc)) :
    Halts .outOfFuel fun fuel => processIncludes files fuel doc base := by
  apply Halts.of_succ
  induction doc using Json.induction with
  | array xs ih =>
    have hxs : Halts .outOfFuel fun fuel => xs.mapM fun x => processIncludes files fuel x base := by
      refine Halts.mapM (fun x => processIncludes_steady x base) ?_
      rintro pre x post rfl hpre
      rw [directives_array] at h
      have hx : VisitsHalt files base (directives x) := by
        rw [← List.nil_append (List.flatMap _ _)] at h
        exact h.of_flatMap nofun hpre
      exact (ih x (by simp) hx).of_succ
    simp only [processIncludes_array]
    exact hxs.bind (Steady.mapM (fun x => processIncludes_steady x base) xs) (fun _ _ => .refl _)
      fun _ _ => ⟨0, nofun⟩
  | object members ih =>
    have hsteady (ms : List (String × Json)) :
        Steady .outOfFuel fun fuel => ms.mapM (processMember files fuel base) :=
      Steady.mapM (processMember_steady base) ms
    simp only [processIncludes_object]
    refine (mergedMembers_halts h).bind (mergedMembers_steady members)
      (fun ms => (hsteady ms).bind fun _ _ => .refl _) ?_
    rintro ms ⟨n, hms⟩
    obtain ⟨head, hdirectives, hhead⟩ := directives_of_mergedMembers hms
    have hmembers : Halts .outOfFuel fun fuel => ms.mapM (processMember files fuel base) := by
      refine Halts.mapM (processMember_steady base) ?_
      rintro pre m post rfl hpre
      rw [hdirectives] at h
      have hvalues : ∀ x ∈ pre, ∃ r, Returns (fun fuel => processIncludes files fuel x.2 base) r := by
        intro x hx
        obtain ⟨m', k, hk⟩ := hpre x hx
        obtain ⟨v, hv, -⟩ := ExceptFold.bind_pure_eq_ok.mp hk
        exact ⟨v, k, hv⟩
      have hm : Halts .outOfFuel fun fuel => processIncludes files fuel m.2 base := by
        rcases mem_of_mergedMembers hms (by simp : m ∈ pre ++ m :: post) with hm | hclean
        · exact (ih m hm (h.of_flatMap (fun d hd => ⟨n, hhead d hd⟩) hvalues)).of_succ
        · exact (processIncludes_returns_self hclean).halts
      exact hm.bind (processIncludes_steady m.2 base) (fun _ _ => .refl _) fun _ _ => ⟨0, nofun⟩
    exact hmembers.bind (hsteady ms) (fun _ _ => .refl _) fun _ _ => ⟨0, nofun⟩
  | other doc harray hobject =>
    simp only [processIncludes_other _ harray hobject]
    exact ⟨0, nofun⟩

theorem visit_ne_of_processIncludes {fuel : ℕ} {doc : Json}
    (h : processIncludes files fuel doc base ≠ .error .outOfFuel) {pre post : List Json} {d : Json}
    (hd : directives doc = pre ++ d :: post)
    (hpre : ∀ x ∈ pre, Returns (fun fuel => visit files base fuel x) ⟨⟩) :
    visit files base fuel d ≠ .error .outOfFuel := by
  have hne : (processIncludes files fuel doc base >>= fun _ => pure PUnit.unit) ≠ .error .outOfFuel := by
    intro hout
    rcases ExceptFold.bind_eq_error.mp hout with hout | ⟨_, _, hout⟩
    · exact h hout
    · cases hout
  have hvisits : forM (directives doc) (visit files base fuel) ≠ .error .outOfFuel := by
    rw [processIncludes_below_visits fuel doc hne]
    exact hne
  -- a visit before `d` that is not complete would end the whole call
  have hbefore : ∀ x ∈ pre, visit files base fuel x = .ok ⟨⟩ := by
    apply ExceptFold.forM_eq_ok.mp
    cases hpres : forM pre (visit files base fuel) with
    | ok => rfl
    | error e =>
      obtain ⟨xs, x, ys, rfl, hxs, hx⟩ := ExceptFold.forM_eq_error.mp hpres
      refine absurd (ExceptFold.forM_eq_error.mpr ⟨xs, x, ys ++ d :: post, ?_, hxs, ?_⟩) hvisits
      · rw [hd]
        simp
      · by_contra hout
        have hok := (hpre x (by simp)).eq_ok_of_ne (visit_steady x) hout
        simp only [hx] at hok
        cases hok
  intro hout
  exact hvisits (ExceptFold.forM_eq_error.mpr ⟨pre, d, post, hd, hbefore, hout⟩)

end GemSc.JsonIncluder
