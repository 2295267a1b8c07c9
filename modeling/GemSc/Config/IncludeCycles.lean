import GemSc.Config.IncludeVisits
import GemSc.Lib.Reachability

/-! When `loadAndInclude` comes to an end. It keeps no record of the files being loaded: a file
is entered as soon as all directives before the one that names it have been resolved. -/

namespace GemSc.JsonIncluder
open Fuel Relation

variable {files : Files}

/-- The file has a directive that names the other one, from its own directory. -/
def Includes (files : Files) (f g : String) : Prop :=
  ∃ doc s, files f = some (some doc) ∧ Json.string s ∈ directives doc ∧ g = dirOf f ++ s

/-- The file and all that it includes are there and parse, and every directive is a string. -/
inductive Resolves (files : Files) : String → Prop
  | intro {f : String} {doc : Json} : files f = some (some doc) →
      (∀ d ∈ directives doc, ∃ s, d = .string s) →
      (∀ s, .string s ∈ directives doc → Resolves files (dirOf f ++ s)) → Resolves files f

/-- The first file names the second one behind directives that all resolve. -/
def Enters (files : Files) (f g : String) : Prop :=
  ∃ doc pre s post, files f = some (some doc) ∧ directives doc = pre ++ .string s :: post ∧
    g = dirOf f ++ s ∧ ∀ d ∈ pre, ∃ t, d = .string t ∧ Resolves files (dirOf f ++ t)

def Terminates (files : Files) (start : String) : Prop :=
  ∃ fuel, loadAndInclude files fuel start ≠ .error .outOfFuel

def Raises (files : Files) (start : String) : Prop :=
  ∃ fuel fault, loadAndInclude files fuel start = .error fault ∧ fault ≠ .outOfFuel

/-- Loading ends, and ends in an error if an include cycle can be reached. -/
def ReportsCycles (files : Files) (start : String) : Prop :=
  Terminates files start ∧ ∀ f, ReflTransGen (Includes files) start f →
    TransGen (Includes files) f f → Raises files start

theorem processIncludes_returns {doc : Json} {base : String}
    (h : ∀ d ∈ directives doc, Returns (fun fuel => visit files base fuel d) ⟨⟩) :
    ∃ r, Returns (fun fuel => processIncludes files fuel doc base) r := by
  have hvisits : VisitsHalt files base (directives doc) := by
    rintro pre d post hd -
    exact (h d (hd ▸ by simp)).halts
  obtain ⟨n, hn⟩ := processIncludes_halts hvisits
  cases hr : processIncludes files n doc base with
  | ok r => exact ⟨r, n, hr⟩
  | error e =>
    have he : e ≠ .outOfFuel := fun he => hn (he ▸ hr)
    have hprocess : (processIncludes files n doc base >>= fun _ => pure PUnit.unit) = .error e := by
      rw [hr]
      rfl
    have hforM : forM (directives doc) (visit files base n) = .error e := by
      rw [← hprocess]
      apply processIncludes_below_visits n doc
      rw [hprocess]
      exact fun h => he (Except.error.inj h)
    obtain ⟨pre, d, post, hd, -, hvisit⟩ := ExceptFold.forM_eq_error.mp hforM
    have hok : visit files base n d = .ok ⟨⟩ := by
      refine (h d (hd ▸ by simp)).eq_ok_of_ne (visit_steady d) ?_
      show visit files base n d ≠ _
      rw [hvisit]
      exact fun h => he (Except.error.inj h)
    rw [hvisit] at hok
    cases hok

theorem visited_of_string {base s : String} {doc : Json}
    (h : Returns (fun fuel => loadAndInclude files fuel (dirOf base ++ s)) doc) :
    Returns (fun fuel => visit files base fuel (.string s)) ⟨⟩ := by
  obtain ⟨n, hn⟩ := h
  exact ⟨n, visit_eq_ok.mpr ⟨s, doc, rfl, hn⟩⟩

theorem loadAndInclude_eq_ok {fuel : ℕ} {f : String} {r : Json} :
    loadAndInclude files (fuel + 1) f = .ok r ↔
      ∃ root, files f = some (some root) ∧ processIncludes files fuel root f = .ok r := by
  rw [loadAndInclude]
  cases files f with
  | none =>
    constructor
    · intro h
      cases h
    · rintro ⟨root, hroot, -⟩
      cases hroot
  | some parsed => cases parsed with
    | none =>
      constructor
      · intro h
        cases h
      · rintro ⟨root, hroot, -⟩
        cases hroot
    | some root =>
      constructor
      · exact fun h => ⟨root, rfl, h⟩
      · rintro ⟨_, hroot, h⟩
        cases hroot
        exact h

theorem Resolves.returns {f : String} (h : Resolves files f) :
    ∃ doc, Returns (fun fuel => loadAndInclude files fuel f) doc := by
  induction h with
  | @intro f root hfile hstring _ ih =>
    have hvisited : ∀ d ∈ directives root, Returns (fun fuel => visit files f fuel d) ⟨⟩ := by
      intro d hd
      obtain ⟨s, rfl⟩ := hstring d hd
      obtain ⟨doc, hdoc⟩ := ih s hd
      exact visited_of_string hdoc
    obtain ⟨r, n, hn⟩ := processIncludes_returns hvisited
    exact ⟨r, n + 1, loadAndInclude_eq_ok.mpr ⟨root, hfile, hn⟩⟩

theorem resolves_of_ok {fuel : ℕ} {f : String} {r : Json} (h : loadAndInclude files fuel f = .ok r) :
    Resolves files f := by
  induction fuel generalizing f r with
  | zero =>
    rw [loadAndInclude] at h
    cases h
  | succ fuel ih =>
    obtain ⟨root, hfile, hprocess⟩ := loadAndInclude_eq_ok.mp h
    have hforM : forM (directives root) (visit files f fuel) = .ok ⟨⟩ := by
      apply (processIncludes_below_visits fuel root).eq_ok
      exact ExceptFold.bind_pure_eq_ok.mpr ⟨r, hprocess, rfl⟩
    have hvisit := ExceptFold.forM_eq_ok.mp hforM
    refine .intro hfile ?_ ?_
    · intro d hd
      obtain ⟨s, -, rfl, -⟩ := visit_eq_ok.mp (hvisit d hd)
      exact ⟨s, rfl⟩
    · intro s hs
      obtain ⟨t, doc, hst, hload⟩ := visit_eq_ok.mp (hvisit _ hs)
      cases hst
      exact ih hload

theorem Enters.includes {f g : String} (h : Enters files f g) : Includes files f g := by
  obtain ⟨doc, pre, s, post, hfile, hdirectives, hg, -⟩ := h
  exact ⟨doc, s, hfile, hdirectives ▸ by simp, hg⟩

theorem Enters.isSome {f g : String} (h : Enters files f g) : (files f).isSome := by
  obtain ⟨doc, pre, s, post, hfile, -⟩ := h
  rw [hfile]
  rfl

theorem visit_halts {base : String} {d : Json}
    (h : ∀ s, d = .string s → Terminates files (dirOf base ++ s)) :
    Halts .outOfFuel fun fuel => visit files base fuel d := by
  cases d with
  | string s =>
    have hload : Halts .outOfFuel fun fuel => loadAndInclude files fuel (dirOf base ++ s) := h s rfl
    show Halts .outOfFuel fun fuel => loadAndInclude files fuel (dirOf base ++ s) >>=
      fun _ => pure PUnit.unit
    exact hload.bind (loadAndInclude_steady _) (fun _ _ => .refl _) fun _ _ => ⟨0, nofun⟩
  | _ => exact ⟨0, nofun⟩

theorem resolves_of_visited {base : String} {d : Json}
    (h : Returns (fun fuel => visit files base fuel d) ⟨⟩) :
    ∃ t, d = .string t ∧ Resolves files (dirOf base ++ t) := by
  obtain ⟨n, hn⟩ := h
  obtain ⟨t, doc, rfl, hload⟩ := visit_eq_ok.mp hn
  exact ⟨t, rfl, resolves_of_ok hload⟩

theorem terminates_of_acc {f : String} (h : Acc (fun g f => Enters files f g) f) :
    Terminates files f := by
  induction h with
  | intro f _ ih =>
    cases hfile : files f with
    | none =>
      refine ⟨1, fun hout => ?_⟩
      rw [loadAndInclude, hfile] at hout
      cases hout
    | some parsed => cases parsed with
      | none =>
        refine ⟨1, fun hout => ?_⟩
        rw [loadAndInclude, hfile] at hout
        cases hout
      | some root =>
        have hvisits : VisitsHalt files f (directives root) := by
          intro pre d post hd hpre
          refine visit_halts fun s hs => ih (dirOf f ++ s) ?_
          subst hs
          exact ⟨root, pre, s, post, hfile, hd, rfl, fun x hx => resolves_of_visited (hpre x hx)⟩
        obtain ⟨n, hn⟩ := processIncludes_halts hvisits
        exact ⟨n + 1, by rwa [loadAndInclude_succ n hfile]⟩

theorem acc_of_ne {fuel : ℕ} {f : String} (h : loadAndInclude files fuel f ≠ .error .outOfFuel) :
    Acc (fun g f => Enters files f g) f := by
  induction fuel generalizing f with
  | zero =>
    rw [loadAndInclude] at h
    exact absurd rfl h
  | succ fuel ih =>
    refine .intro f ?_
    rintro g ⟨doc, pre, s, post, hfile, hdirectives, rfl, hpre⟩
    rw [loadAndInclude_succ fuel hfile] at h
    have hvisit : visit files f fuel (.string s) ≠ .error .outOfFuel := by
      refine visit_ne_of_processIncludes h hdirectives fun x hx => ?_
      obtain ⟨t, rfl, hresolves⟩ := hpre x hx
      obtain ⟨r, hr⟩ := hresolves.returns
      exact visited_of_string hr
    refine ih fun hload => hvisit ?_
    show loadAndInclude files fuel (dirOf f ++ s) >>= _ = _
    rw [hload]
    rfl

theorem terminates_iff_acc {f : String} :
    Terminates files f ↔ Acc (fun g f => Enters files f g) f :=
  ⟨fun ⟨_, h⟩ => acc_of_ne h, terminates_of_acc⟩

theorem Resolves.acc {f : String} (h : Resolves files f) :
    Acc (fun g f => Includes files f g) f := by
  induction h with
  | @intro f root hfile _ _ ih =>
    refine .intro f ?_
    rintro g ⟨doc, s, hdoc, hs, rfl⟩
    rw [hfile] at hdoc
    cases hdoc
    exact ih s hs

theorem reportsCycles_iff_terminates {start : String} :
    ReportsCycles files start ↔ Terminates files start := by
  refine and_iff_left_of_imp ?_
  rintro ⟨n, hn⟩ f hreach hcycle
  cases hr : loadAndInclude files n start with
  | ok doc => exact absurd hcycle (Reachability.not_cycle_of_acc (resolves_of_ok hr).acc hreach)
  | error fault => exact ⟨n, fault, hr, fun hfault => hn (hfault ▸ hr)⟩

/-- Loading ends, and reports the cycles, exactly if the files entered from the start do not go
on forever; for finitely many files, if none of them is entered again from itself. -/
theorem reportsCycles_iff (files : Files) (start : String) :
    (ReportsCycles files start ↔ ¬ Reachability.EndlessFrom (Enters files) start) ∧
      ({f | (files f).isSome}.Finite →
        (ReportsCycles files start ↔ ¬ Reachability.CycleFrom (Enters files) start)) := by
  have hendless : ReportsCycles files start ↔ ¬ Reachability.EndlessFrom (Enters files) start := by
    rw [reportsCycles_iff_terminates, terminates_iff_acc]
    exact Reachability.acc_iff_not_endlessFrom
  refine ⟨hendless, fun hfin => ?_⟩
  have hsources : {f | ∃ g, Enters files f g}.Finite := by
    refine hfin.subset ?_
    rintro f ⟨g, hg⟩
    exact hg.isSome
  rw [hendless, Reachability.endlessFrom_iff_cycleFrom hsources]

def chained : Files := fun f =>
  if f = "a.json" then
    some (some (.object [("cycles", .int 5), ("include", .string "b.json")]))
  else if f = "b.json" then
    some (some (.object [("cycles", .int 7), ("plugin", .string "x")])) else none

theorem finite_chained : {f | (chained f).isSome}.Finite := by
  refine (Set.toFinite {"a.json", "b.json"}).subset ?_
  intro f hf
  by_contra hmem
  have hne : f ≠ "a.json" ∧ f ≠ "b.json" := by simpa [not_or] using hmem
  have hnone : chained f = none := by rw [chained, if_neg hne.1, if_neg hne.2]
  exact absurd hf (by simp [hnone])

theorem includes_chained {f g : String} (h : Includes chained f g) : f = "a.json" ∧ g = "b.json" := by
  obtain ⟨doc, s, hfile, hs, rfl⟩ := h
  unfold chained at hfile
  split_ifs at hfile with ha hb
  · cases hfile
    have hpath : Json.string s ∈ [Json.string "b.json"] := hs
    cases List.mem_singleton.mp hpath
    exact ⟨ha, by rw [ha]; decide⟩
  · cases hfile
    cases hs

theorem chained_acyclic (f : String) : ¬ TransGen (Includes chained) f f := by
  intro hcycle
  obtain ⟨g, hfg, -⟩ := TransGen.head'_iff.mp hcycle
  obtain ⟨h, -, hback⟩ := TransGen.tail'_iff.mp hcycle
  have hf : f = "b.json" := (includes_chained hback).2
  rw [(includes_chained hfg).1] at hf
  simp at hf

theorem chained_reported : ReportsCycles chained "a.json" := by
  refine ((reportsCycles_iff chained "a.json").2 finite_chained).mpr ?_
  rintro ⟨f, -, hcycle⟩
  exact chained_acyclic f (hcycle.lift id fun _ _ h => h.includes)

def selfIncluding : Files := fun f =>
  if f = "a.json" then some (some (.object [("include", .string "a.json")])) else none

theorem selfIncluding_not_reported :
    {f | (selfIncluding f).isSome}.Finite ∧ Includes selfIncluding "a.json" "a.json" ∧
      ¬ ReportsCycles selfIncluding "a.json" := by
  have hdir : "a.json" = dirOf "a.json" ++ "a.json" := by decide
  refine ⟨?_, ⟨_, "a.json", rfl, by simp [directives, memberDirectives], hdir⟩, ?_⟩
  · refine (Set.toFinite {"a.json"}).subset ?_
    intro f hf
    by_contra hne
    have hnone : selfIncluding f = none := if_neg hne
    exact absurd hf (by simp [hnone])
  · intro h
    have henters : Enters selfIncluding "a.json" "a.json" := by
      refine ⟨_, [], "a.json", [], rfl, rfl, hdir, ?_⟩
      intro d hd
      cases hd
    exact Reachability.not_self_of_acc (terminates_iff_acc.mp h.1) henters

end GemSc.JsonIncluder
