import GemSc.Config.IncludeCycles

/-! What `loadAndInclude` returns: an expansion of the document, in which an object with a
directive has its own members and those of the included document, its own ones first. -/

namespace GemSc.JsonIncluder
open Fuel Relation

variable {files : Files}

/-- The documents that resolve the includes of a document written in the file `base`. -/
inductive Expands (files : Files) : String → Json → Json → Prop
  | other {base : String} {doc : Json} : (∀ xs, doc ≠ .array xs) →
      (∀ members, doc ≠ .object members) → Expands files base doc doc
  | array {base : String} {xs ys : List Json} : xs.length = ys.length →
      (∀ i (hx : i < xs.length) (hy : i < ys.length), Expands files base xs[i] ys[i]) →
      Expands files base (.array xs) (.array ys)
  | plain {base : String} {members ms : List (String × Json)} :
      members.lookup "include" = none →
      (∀ key, (ms.lookup key).isSome ↔ (members.lookup key).isSome) →
      (∀ key v v', members.lookup key = some v → ms.lookup key = some v' →
        Expands files base v v') →
      Expands files base (.object members) (.object ms)
  | including {base s : String} {root included : Json} {members ms : List (String × Json)} :
      members.lookup "include" = some (.string s) →
      files (dirOf base ++ s) = some (some root) → Expands files (dirOf base ++ s) root included →
      ms.lookup "include" = none →
      (∀ key, key ≠ "include" → ((ms.lookup key).isSome ↔
        (members.lookup key).isSome ∨ (included.items.lookup key).isSome)) →
      (∀ key v v', key ≠ "include" → members.lookup key = some v → ms.lookup key = some v' →
        Expands files base v v') →
      (∀ key, key ≠ "include" → members.lookup key = none →
        ms.lookup key = included.items.lookup key) →
      Expands files base (.object members) (.object ms)

theorem lookup_member (m : String × Json) (members : List (String × Json)) (key : String) :
    (m :: members).lookup key = if key = m.1 then some m.2 else members.lookup key := by
  rw [List.lookup_cons]
  by_cases hkey : key = m.1
  · rw [if_pos hkey, beq_iff_eq.mpr hkey]
  · rw [if_neg hkey, beq_eq_false_iff_ne.mpr hkey]

theorem lookup_insertMember {key : String} {value : Json} {members : List (String × Json)}
    (h : members.lookup key = none) (key' : String) : (insertMember key value members).lookup key' =
      if key' = key then some value else members.lookup key' := by
  induction members with
  | nil => exact lookup_member (key, value) [] key'
  | cons m members ih =>
    rw [lookup_member] at h
    have hne : key ≠ m.1 := by
      intro hkey
      rw [if_pos hkey] at h
      cases h
    rw [if_neg hne] at h
    rw [insertMember]
    split
    · exact lookup_member _ _ _
    · rw [lookup_member, lookup_member, ih h]
      by_cases hkey : key' = key
      · rw [hkey, if_neg hne, if_pos rfl, if_pos rfl]
      · rw [if_neg hkey, if_neg hkey]

theorem lookup_merge (included : Json) (members : List (String × Json)) (key : String) :
    (merge included members).lookup key =
      (members.lookup key).or (included.items.lookup key) := by
  unfold merge
  induction included.items generalizing members with
  | nil => exact (Option.or_none).symm
  | cons m items ih =>
    rw [List.foldl_cons, ih, lookup_member]
    cases hlookup : members.lookup m.1 with
    | some w =>
      rw [if_pos Option.isSome_some]
      by_cases hkey : key = m.1
      · rw [if_pos hkey, hkey, hlookup]
        rfl
      · rw [if_neg hkey]
    | none =>
      rw [if_neg (by simp), lookup_insertMember hlookup]
      by_cases hkey : key = m.1
      · rw [if_pos hkey, if_pos hkey, hkey, hlookup]
        rfl
      · rw [if_neg hkey, if_neg hkey]

theorem lookup_filter_include (members : List (String × Json)) (key : String) :
    (members.filter fun m => m.1 != "include").lookup key =
      if key = "include" then none else members.lookup key := by
  induction members with
  | nil => exact (ite_self _).symm
  | cons m members ih =>
    rw [lookup_member]
    by_cases hm : m.1 = "include"
    · rw [List.filter_cons_of_neg (by simp [hm]), ih, hm]
      by_cases hkey : key = "include"
      · rw [if_pos hkey, if_pos hkey]
      · rw [if_neg hkey, if_neg hkey, if_neg hkey]
    · rw [List.filter_cons_of_pos (by simp [hm]), lookup_member, ih]
      by_cases hkey : key = "include"
      · rw [if_pos hkey, if_pos hkey, if_neg (by rw [hkey]; exact Ne.symm hm)]
      · rw [if_neg hkey, if_neg hkey]

theorem lookup_mapM_processMember {base : String} {fuel : ℕ} {ms ms' : List (String × Json)}
    (h : ms.mapM (processMember files fuel base) = .ok ms') (key : String) :
    (ms.lookup key = none ∧ ms'.lookup key = none) ∨
      ∃ v v', ms.lookup key = some v ∧ ms'.lookup key = some v' ∧
        processIncludes files fuel v base = .ok v' := by
  induction ms generalizing ms' with
  | nil =>
    cases h
    exact .inl ⟨rfl, rfl⟩
  | cons m ms ih =>
    obtain ⟨m', rest, hm', hrest, rfl⟩ := ExceptFold.mapM_cons_ok.mp h
    obtain ⟨v', hv', rfl⟩ := ExceptFold.bind_pure_eq_ok.mp hm'
    rw [lookup_member, lookup_member]
    by_cases hkey : key = m.1
    · rw [if_pos hkey, if_pos hkey]
      exact .inr ⟨m.2, v', rfl, rfl, hv'⟩
    · rw [if_neg hkey, if_neg hkey]
      exact ih hrest

theorem isSome_lookup_mapM_processMember {base : String} {fuel : ℕ} {ms ms' : List (String × Json)}
    (h : ms.mapM (processMember files fuel base) = .ok ms') (key : String) :
    (ms'.lookup key).isSome = (ms.lookup key).isSome := by
  rcases lookup_mapM_processMember h key with ⟨h₁, h₂⟩ | ⟨v, v', h₁, h₂, -⟩
  · rw [h₁, h₂]
  · rw [h₁, h₂, Option.isSome_some, Option.isSome_some]

theorem processIncludes_of_lookup {base : String} {fuel : ℕ} {ms ms' : List (String × Json)}
    (h : ms.mapM (processMember files fuel base) = .ok ms') {key : String} {v v' : Json}
    (hv : ms.lookup key = some v) (hv' : ms'.lookup key = some v') :
    processIncludes files fuel v base = .ok v' := by
  rcases lookup_mapM_processMember h key with ⟨h₁, -⟩ | ⟨w, w', h₁, h₂, hw⟩
  · rw [hv] at h₁
    cases h₁
  · obtain rfl := Option.some.inj (hv.symm.trans h₁)
    obtain rfl := Option.some.inj (hv'.symm.trans h₂)
    exact hw

theorem eq_of_processIncludes {base : String} {fuel : ℕ} {doc r : Json}
    (hdoc : ¬ doc.HasKey "include") (h : processIncludes files fuel doc base = .ok r) : r = doc := by
  have hself : processIncludes files fuel doc base = .ok doc := by
    refine (processIncludes_returns_self hdoc).eq_ok_of_ne (processIncludes_steady doc base) ?_
    show processIncludes files fuel doc base ≠ _
    rw [h]
    exact nofun
  rw [h] at hself
  exact Except.ok.inj hself

theorem not_hasKey_of_lookup {key k : String} {j v : Json} (hj : ¬ j.HasKey key)
    (h : j.items.lookup k = some v) : ¬ v.HasKey key := by
  obtain ⟨l₁, l₂, hitems, -⟩ := List.lookup_eq_some_iff.mp h
  exact Json.not_hasKey_items hj (k, v) (hitems ▸ by simp)

section
variable {base : String} {fuel : ℕ} {members ms : List (String × Json)}

theorem expands_plain
    (hprocess : ∀ doc base r, processIncludes files fuel doc base = .ok r → Expands files base doc r)
    (hnone : members.lookup "include" = none)
    (h : members.mapM (processMember files fuel base) = .ok ms) :
    Expands files base (.object members) (.object ms) := by
  refine .plain hnone (fun key => ?_) fun key v v' hv hv' => ?_
  · rw [isSome_lookup_mapM_processMember h]
  · exact hprocess v base v' (processIncludes_of_lookup h hv hv')

theorem lookup_merged {included : Json} {key : String} (hkey : key ≠ "include") :
    ((merge included members).filter fun m => m.1 != "include").lookup key =
      (members.lookup key).or (included.items.lookup key) := by
  rw [lookup_filter_include, if_neg hkey, lookup_merge]

theorem expands_including {s : String} {root included : Json}
    (hprocess : ∀ doc base r, processIncludes files fuel doc base = .ok r → Expands files base doc r)
    (hsome : members.lookup "include" = some (.string s))
    (hfile : files (dirOf base ++ s) = some (some root))
    (hroot : Expands files (dirOf base ++ s) root included) (hclean : ¬ included.HasKey "include")
    (h : ((merge included members).filter fun m => m.1 != "include").mapM
      (processMember files fuel base) = .ok ms) :
    Expands files base (.object members) (.object ms) := by
  refine .including hsome hfile hroot ?_ (fun key hkey => ?_) (fun key v v' hkey hv hv' => ?_)
    (fun key hkey hnone => ?_)
  · rcases lookup_mapM_processMember h "include" with ⟨-, h₂⟩ | ⟨v, v', h₁, -⟩
    · exact h₂
    · rw [lookup_filter_include, if_pos rfl] at h₁
      cases h₁
  · rw [isSome_lookup_mapM_processMember h, lookup_merged hkey, Option.isSome_or, Bool.or_eq_true]
  · have hown : ((merge included members).filter fun m => m.1 != "include").lookup key = some v := by
      rw [lookup_merged hkey, hv, Option.some_or]
    exact hprocess v base v' (processIncludes_of_lookup h hown hv')
  · have hlookup := lookup_mapM_processMember h key
    rw [lookup_merged hkey, hnone, Option.none_or] at hlookup
    rcases hlookup with ⟨h₁, h₂⟩ | ⟨v, v', h₁, h₂, hv⟩
    · rw [h₁, h₂]
    · rw [h₁, h₂, eq_of_processIncludes (not_hasKey_of_lookup hclean h₁) hv]

end

theorem expands_of_ok (fuel : ℕ) :
    (∀ f r, loadAndInclude files fuel f = .ok r →
      ∃ root, files f = some (some root) ∧ Expands files f root r) ∧
    ∀ doc base r, processIncludes files fuel doc base = .ok r → Expands files base doc r := by
  induction fuel with
  | zero =>
    refine ⟨fun f r h => ?_, fun doc base r h => ?_⟩
    · rw [loadAndInclude] at h
      cases h
    · rw [processIncludes] at h
      cases h
  | succ fuel ih =>
    obtain ⟨hload, hprocess⟩ := ih
    refine ⟨fun f r h => ?_, fun doc base r h => ?_⟩
    · obtain ⟨root, hfile, hr⟩ := loadAndInclude_eq_ok.mp h
      exact ⟨root, hfile, hprocess root f r hr⟩
    · cases doc using Json.shape with
      | array xs =>
        rw [processIncludes_array] at h
        obtain ⟨ys, hys, rfl⟩ := ExceptFold.bind_pure_eq_ok.mp h
        have helements := ExceptFold.forall₂_of_mapM_ok hys
        exact .array helements.length_eq fun i hx hy => hprocess _ base _ (helements.get hx hy)
      | object members =>
        rw [processIncludes_object] at h
        obtain ⟨ms, hms, h⟩ := ExceptFold.bind_eq_ok.mp h
        obtain ⟨ms', hms', rfl⟩ := ExceptFold.bind_pure_eq_ok.mp h
        rcases mergedMembers_eq_ok.mp hms with ⟨hnone, rfl⟩ | ⟨s, included, hsome, hincluded, rfl⟩
        · exact expands_plain hprocess hnone hms'
        · obtain ⟨root, hfile, hroot⟩ := hload _ _ hincluded
          exact expands_including hprocess hsome hfile hroot (loadAndInclude_not_hasKey hincluded) hms'
      | other doc harray hobject =>
        rw [processIncludes_other _ harray hobject] at h
        obtain rfl := Except.ok.inj h
        exact .other harray hobject

/-- Finitely many files that parse to objects and include one another, in no cycle. -/
structure IncludeSet (files : Files) (s : Set String) : Prop where
  finite : s.Finite
  objects : ∀ f ∈ s, ∃ members, files f = some (some (.object members))
  directives : ∀ f ∈ s, ∀ doc, files f = some (some doc) → ∀ d ∈ directives doc,
    ∃ name, d = .string name ∧ dirOf f ++ name ∈ s
  acyclic : ∀ f ∈ s, ¬ TransGen (Includes files) f f

theorem IncludeSet.resolves {s : Set String} (h : IncludeSet files s) {f : String} (hf : f ∈ s) :
    Resolves files f := by
  induction Reachability.acc_of_acyclic h.finite h.acyclic f with
  | intro f _ ih =>
    obtain ⟨members, hfile⟩ := h.objects f hf
    have hdirectives := h.directives f hf _ hfile
    refine .intro hfile ?_ ?_
    · intro d hd
      obtain ⟨name, hname, -⟩ := hdirectives d hd
      exact ⟨name, hname⟩
    · intro name hname
      obtain ⟨name', heq, hmem⟩ := hdirectives _ hname
      cases heq
      exact ih _ ⟨hf, _, name, hfile, hname, rfl⟩ hmem

/-- Include resolution on an acyclic set of files. -/
theorem loadAndInclude_resolves (files : Files) (s : Set String) (h : IncludeSet files s)
    (start : String) (hstart : start ∈ s) :
    ∃ members ms, files start = some (some (.object members)) ∧
      (∃ n, ∀ fuel, n ≤ fuel → loadAndInclude files fuel start = .ok (.object ms)) ∧
      ¬ (Json.object ms).HasKey "include" ∧
      Expands files start (.object members) (.object ms) ∧
      ∀ base, ∃ n, ∀ fuel, n ≤ fuel →
        processIncludes files fuel (.object ms) base = .ok (.object ms) := by
  obtain ⟨members, hfile⟩ := h.objects start hstart
  obtain ⟨r, n, hn⟩ := (h.resolves hstart).returns
  obtain ⟨root, hroot, hexpands⟩ := (expands_of_ok n).1 start r hn
  cases hfile.symm.trans hroot
  obtain ⟨ms, rfl⟩ : ∃ ms, r = .object ms := by
    cases hexpands with
    | other _ hobject => exact absurd rfl (hobject members)
    | plain => exact ⟨_, rfl⟩
    | including => exact ⟨_, rfl⟩
  have hclean := loadAndInclude_not_hasKey hn
  refine ⟨members, ms, hfile, ?_, hclean, hexpands, fun base => ?_⟩
  · exact Returns.eventually (loadAndInclude_steady start) ⟨n, hn⟩
  · exact (processIncludes_returns_self hclean).eventually (processIncludes_steady _ base)

theorem chained_includeSet : IncludeSet chained {"a.json", "b.json"} := by
  refine ⟨Set.toFinite _, ?_, ?_, fun f _ => chained_acyclic f⟩
  · rintro f (rfl | rfl)
    · exact ⟨_, rfl⟩
    · exact ⟨_, rfl⟩
  · rintro f (rfl | rfl) doc hdoc d hd
    · cases hdoc
      have hpath : d ∈ [Json.string "b.json"] := hd
      obtain rfl := List.mem_singleton.mp hpath
      exact ⟨"b.json", rfl, .inr (by decide)⟩
    · cases hdoc
      cases hd

/-- The first file keeps its own number of cycles and gets the plugin of the second. -/
theorem chained_resolves :
    loadAndInclude chained 9 "a.json" =
        .ok (.object [("cycles", .int 5), ("plugin", .string "x")]) ∧
    ∃ members ms, chained "a.json" = some (some (.object members)) ∧
      (∃ n, ∀ fuel, n ≤ fuel → loadAndInclude chained fuel "a.json" = .ok (.object ms)) ∧
      ¬ (Json.object ms).HasKey "include" ∧
      Expands chained "a.json" (.object members) (.object ms) ∧
      ∀ base, ∃ n, ∀ fuel, n ≤ fuel →
        processIncludes chained fuel (.object ms) base = .ok (.object ms) :=
  ⟨rfl, loadAndInclude_resolves chained {"a.json", "b.json"} chained_includeSet "a.json" (.inl rfl)⟩

end GemSc.JsonIncluder
