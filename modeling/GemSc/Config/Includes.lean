import GemSc.Config.JsonIncluder
import GemSc.Lib.Fuel

/-! What `processIncludes` does to a document, up to the order of its members: it opens the
files that the include directives name, in the order in which they are written, and leaves no
directive behind. -/

namespace GemSc
namespace Json

theorem induction {motive : Json → Prop} (array : ∀ xs, (∀ x ∈ xs, motive x) → motive (.array xs))
    (object : ∀ members, (∀ m ∈ members, motive m.2) → motive (.object members))
    (other : ∀ j, (∀ xs, j ≠ .array xs) → (∀ members, j ≠ .object members) → motive j) (j : Json) :
    motive j := by
  refine Json.rec (motive_1 := motive) (motive_2 := fun xs => ∀ x ∈ xs, motive x)
    (motive_3 := fun members => ∀ m ∈ members, motive m.2) (motive_4 := fun m => motive m.2)
    ?_ ?_ ?_ ?_ ?_ ?_ ?_ ?_ ?_ ?_ ?_ ?_ j
  · exact other _ nofun nofun
  · exact fun _ => other _ nofun nofun
  · exact fun _ => other _ nofun nofun
  · exact fun _ => other _ nofun nofun
  · exact fun _ => other _ nofun nofun
  · exact array
  · exact object
  · exact nofun
  · exact fun x xs hx hxs => List.forall_mem_cons.mpr ⟨hx, hxs⟩
  · exact nofun
  · exact fun m members hm hmembers => List.forall_mem_cons.mpr ⟨hm, hmembers⟩
  · exact fun _ _ h => h

theorem shape {motive : Json → Prop} (array : ∀ xs, motive (.array xs))
    (object : ∀ members, motive (.object members))
    (other : ∀ j, (∀ xs, j ≠ .array xs) → (∀ members, j ≠ .object members) → motive j) (j : Json) :
    motive j := by
  cases j with
  | array xs => exact array xs
  | object members => exact object members
  | _ => exact other _ nofun nofun

inductive HasKey (key : String) : Json → Prop
  | here {m : String × Json} {members : List (String × Json)} :
      m ∈ members → m.1 = key → HasKey key (.object members)
  | member {m : String × Json} {members : List (String × Json)} :
      m ∈ members → HasKey key m.2 → HasKey key (.object members)
  | element {x : Json} {xs : List Json} : x ∈ xs → HasKey key x → HasKey key (.array xs)

variable {key : String}

theorem not_hasKey_object {members : List (String × Json)} :
    ¬ HasKey key (.object members) ↔ ∀ m ∈ members, m.1 ≠ key ∧ ¬ HasKey key m.2 := by
  constructor
  · intro h m hm
    exact ⟨fun hkey => h (.here hm hkey), fun hvalue => h (.member hm hvalue)⟩
  · intro h hkey
    cases hkey with
    | here hm hname => exact (h _ hm).1 hname
    | member hm hvalue => exact (h _ hm).2 hvalue

theorem not_hasKey_array {xs : List Json} :
    ¬ HasKey key (.array xs) ↔ ∀ x ∈ xs, ¬ HasKey key x := by
  constructor
  · exact fun h x hx hkey => h (.element hx hkey)
  · intro h hkey
    cases hkey with
    | element hx hvalue => exact h _ hx hvalue

theorem not_hasKey_items {j : Json} (h : ¬ HasKey key j) : ∀ m ∈ j.items, ¬ HasKey key m.2 := by
  cases j with
  | array xs =>
    intro m hm
    obtain ⟨i, hi, rfl⟩ := List.mem_mapIdx.mp hm
    exact not_hasKey_array.mp h _ (List.getElem_mem hi)
  | object members => exact fun m hm => (not_hasKey_object.mp h m hm).2
  | null => exact nofun
  | _ =>
    intro m hm
    obtain rfl := List.mem_singleton.mp hm
    exact h

end Json

namespace JsonIncluder
open Fuel

mutual

def directives : Json → List Json
  | .object members => match members.lookup "include" with
    | none => memberDirectives members
    | some path => path :: memberDirectives members
  | .array xs => elementDirectives xs
  | _ => []

def memberDirectives : List (String × Json) → List Json
  | [] => []
  | (key, value) :: members =>
    if key = "include" then memberDirectives members
    else directives value ++ memberDirectives members

def elementDirectives : List Json → List Json
  | [] => []
  | x :: xs => directives x ++ elementDirectives xs

end

theorem memberDirectives_eq (members : List (String × Json)) :
    memberDirectives members =
      (members.filter fun m => m.1 != "include").flatMap fun m => directives m.2 := by
  induction members with
  | nil => rfl
  | cons m members ih =>
    obtain ⟨key, value⟩ := m
    rw [memberDirectives, ih]
    by_cases hkey : key = "include"
    · rw [if_pos hkey, List.filter_cons_of_neg (by simp [hkey])]
    · rw [if_neg hkey, List.filter_cons_of_pos (by simp [hkey]), List.flatMap_cons]

theorem elementDirectives_eq (xs : List Json) : elementDirectives xs = xs.flatMap directives := by
  induction xs with
  | nil => rfl
  | cons x xs ih => rw [elementDirectives, ih, List.flatMap_cons]

theorem directives_array (xs : List Json) : directives (.array xs) = xs.flatMap directives := by
  rw [directives, elementDirectives_eq]

theorem lookup_eq_none_iff_ne {key : String} {members : List (String × Json)} :
    members.lookup key = none ↔ ∀ m ∈ members, m.1 ≠ key := by
  rw [List.lookup_eq_none_iff]
  exact forall₂_congr fun m _ => by rw [bne_iff_ne, ne_comm]

theorem filter_include_of_lookup {members : List (String × Json)}
    (h : members.lookup "include" = none) : members.filter (fun m => m.1 != "include") = members := by
  apply List.filter_eq_self.mpr
  intro m hm
  exact bne_iff_ne.mpr (lookup_eq_none_iff_ne.mp h m hm)

theorem directives_object_of_none {members : List (String × Json)}
    (h : members.lookup "include" = none) :
    directives (.object members) = members.flatMap fun m => directives m.2 := by
  rw [directives, h]
  show memberDirectives members = _
  rw [memberDirectives_eq, filter_include_of_lookup h]

theorem directives_object_of_some {members : List (String × Json)} {path : Json}
    (h : members.lookup "include" = some path) : directives (.object members) = path ::
      (members.filter fun m => m.1 != "include").flatMap fun m => directives m.2 := by
  rw [directives, h]
  show path :: memberDirectives members = _
  rw [memberDirectives_eq]

theorem directives_other {doc : Json} (harray : ∀ xs, doc ≠ .array xs)
    (hobject : ∀ members, doc ≠ .object members) : directives doc = [] := by
  cases doc with
  | array xs => exact absurd rfl (harray xs)
  | object members => exact absurd rfl (hobject members)
  | _ => rfl

theorem directives_eq_nil {doc : Json} (h : ¬ doc.HasKey "include") : directives doc = [] := by
  induction doc using Json.induction with
  | array xs ih =>
    rw [directives_array]
    exact List.flatMap_eq_nil_iff.mpr fun x hx => ih x hx (Json.not_hasKey_array.mp h x hx)
  | object members ih =>
    have hmembers := Json.not_hasKey_object.mp h
    rw [directives_object_of_none (lookup_eq_none_iff_ne.mpr fun m hm => (hmembers m hm).1)]
    exact List.flatMap_eq_nil_iff.mpr fun m hm => ih m hm (hmembers m hm).2
  | other j harray hobject => exact directives_other harray hobject

/-! The merge loop. -/

theorem mem_insertMember {key : String} {value : Json} {members : List (String × Json)}
    {m : String × Json} :
    m ∈ insertMember key value members ↔ m = (key, value) ∨ m ∈ members := by
  induction members with
  | nil => simp [insertMember]
  | cons m' members ih =>
    rw [insertMember]
    split
    · exact List.mem_cons
    · rw [List.mem_cons, ih, List.mem_cons]
      exact or_left_comm

theorem memberDirectives_cons_of_nil {key : String} {value : Json} (h : directives value = [])
    (members : List (String × Json)) :
    memberDirectives ((key, value) :: members) = memberDirectives members := by
  rw [memberDirectives, h, List.nil_append]
  exact ite_self _

theorem memberDirectives_insertMember {key : String} {value : Json} (h : directives value = [])
    (members : List (String × Json)) :
    memberDirectives (insertMember key value members) = memberDirectives members := by
  induction members with
  | nil => exact memberDirectives_cons_of_nil h []
  | cons m members ih =>
    rw [insertMember]
    split
    · exact memberDirectives_cons_of_nil h _
    · rw [memberDirectives, ih, memberDirectives]

theorem merge_induction (motive : List (String × Json) → Prop) {included : Json}
    {members : List (String × Json)} (start : motive members)
    (insert : ∀ m ∈ included.items, ∀ ms, ms.lookup m.1 = none → motive ms →
      motive (insertMember m.1 m.2 ms)) : motive (merge included members) := by
  unfold merge
  refine List.foldlRecOn (motive := motive) _ _ start ?_
  intro ms hms m hm
  split
  · exact hms
  · next hkey => exact insert m hm ms (Option.not_isSome_iff_eq_none.mp hkey) hms

theorem mem_of_mem_merge {included : Json} {members : List (String × Json)} {m : String × Json}
    (h : m ∈ merge included members) : m ∈ members ∨ m ∈ included.items := by
  have hall : ∀ m ∈ merge included members, m ∈ members ∨ m ∈ included.items := by
    refine merge_induction (fun ms => ∀ m ∈ ms, m ∈ members ∨ m ∈ included.items) ?_ ?_
    · exact fun m hm => .inl hm
    · intro kv hkv ms _ hms m hm
      rcases mem_insertMember.mp hm with rfl | hm
      · exact .inr hkv
      · exact hms m hm
  exact hall m h

theorem directives_merge {included : Json} (h : ¬ included.HasKey "include")
    (members : List (String × Json)) :
    ((merge included members).filter fun m => m.1 != "include").flatMap (fun m => directives m.2) =
      (members.filter fun m => m.1 != "include").flatMap fun m => directives m.2 := by
  rw [← memberDirectives_eq, ← memberDirectives_eq]
  refine merge_induction (fun ms => memberDirectives ms = memberDirectives members) rfl ?_
  intro m hm ms _ hms
  have hvalue : directives m.2 = [] := directives_eq_nil (Json.not_hasKey_items h m hm)
  exact (memberDirectives_insertMember hvalue ms).trans hms

/-! One call, by the form of the document. -/

variable {files : Files} {base : String}

def mergedMembers (files : Files) (fuel : ℕ) (basePath : String) (members : List (String × Json)) :
    Except Fault (List (String × Json)) :=
  match members.lookup "include" with
  | none => pure members
  | some path => do
    let includeFile ← path.getString
    let included ← loadAndInclude files fuel (dirOf basePath ++ includeFile)
    pure ((merge included members).filter fun m => m.1 != "include")

def processMember (files : Files) (fuel : ℕ) (basePath : String) (m : String × Json) :
    Except Fault (String × Json) := do
  let v ← processIncludes files fuel m.2 basePath
  pure (m.1, v)

theorem processIncludes_object (fuel : ℕ) (members : List (String × Json)) :
    processIncludes files (fuel + 1) (.object members) base =
      mergedMembers files fuel base members >>= fun ms =>
        ms.mapM (processMember files fuel base) >>= fun ms' => pure (.object ms') := by
  rw [processIncludes, mergedMembers]
  cases members.lookup "include" with
  | none => rfl
  | some path =>
    simp only [bind_assoc, pure_bind]
    rfl

theorem processIncludes_array (fuel : ℕ) (xs : List Json) :
    processIncludes files (fuel + 1) (.array xs) base =
      xs.mapM (fun x => processIncludes files fuel x base) >>= fun ys => pure (.array ys) := by
  rw [processIncludes]

theorem processIncludes_other (fuel : ℕ) {doc : Json} (harray : ∀ xs, doc ≠ .array xs)
    (hobject : ∀ members, doc ≠ .object members) :
    processIncludes files (fuel + 1) doc base = .ok doc := by
  cases doc with
  | array xs => exact absurd rfl (harray xs)
  | object members => exact absurd rfl (hobject members)
  | _ =>
    rw [processIncludes]
    · rfl
    · exact nofun
    · exact nofun

end JsonIncluder
end GemSc
