import Mathlib

/-! Glob patterns over characters: a star stands for any text, a question mark for any one
character, and every other character for itself. -/

namespace Glob

inductive Matches : List Char → List Char → Prop
  | nil : Matches [] []
  | star {p t : List Char} (u : List Char) : Matches p t → Matches ('*' :: p) (u ++ t)
  | any {p t : List Char} (c : Char) : Matches p t → Matches ('?' :: p) (c :: t)
  | char {p t : List Char} {c : Char} : c ≠ '*' → c ≠ '?' → Matches p t → Matches (c :: p) (c :: t)

def isMatch : List Char → List Char → Bool
  | [], t => t.isEmpty
  | c :: p, t =>
    if c = '*' then t.tails.any (isMatch p)
    else t.head?.any (fun d => c == '?' || c == d) && isMatch p t.tail

theorem Matches.isMatch {p t : List Char} (h : Matches p t) : isMatch p t := by
  induction h with
  | nil => rfl
  | star u _ ih =>
    rw [Glob.isMatch, if_pos rfl]
    exact List.any_eq_true.mpr ⟨_, (List.mem_tails _ _).mpr (List.suffix_append u _), ih⟩
  | any c _ ih => simpa [Glob.isMatch] using ih
  | char hstar _ _ ih => simpa [Glob.isMatch, hstar] using ih

theorem matches_of_isMatch {p t : List Char} (h : isMatch p t) : Matches p t := by
  induction p generalizing t with
  | nil =>
    obtain rfl := List.isEmpty_iff.mp h
    exact .nil
  | cons c p ih =>
    rw [isMatch] at h
    split at h
    · next hc =>
      obtain ⟨rest, hrest, hmatch⟩ := List.any_eq_true.mp h
      obtain ⟨u, rfl⟩ := (List.mem_tails _ _).mp hrest
      subst hc
      exact .star u (ih hmatch)
    · next hc =>
      cases t with
      | nil => simp at h
      | cons d t =>
        obtain ⟨hcd, hmatch⟩ := Bool.and_eq_true_iff.mp h
        by_cases hq : c = '?'
        · subst hq
          exact .any d (ih hmatch)
        · obtain rfl : c = d := by simpa [hq] using hcd
          exact .char hc hq (ih hmatch)

theorem isMatch_iff {p t : List Char} : isMatch p t ↔ Matches p t :=
  ⟨matches_of_isMatch, Matches.isMatch⟩

theorem Matches.mem {p t : List Char} (h : Matches p t) {c : Char} (hc : c ∈ p) (hstar : c ≠ '*')
    (hany : c ≠ '?') : c ∈ t := by
  induction h with
  | nil => exact hc
  | star u _ ih =>
    exact List.mem_append_right u (ih ((List.mem_cons.mp hc).resolve_left hstar))
  | any d _ ih => exact List.mem_cons_of_mem d (ih ((List.mem_cons.mp hc).resolve_left hany))
  | char _ _ _ ih =>
    rcases List.mem_cons.mp hc with rfl | hc
    · exact List.mem_cons_self ..
    · exact List.mem_cons_of_mem _ (ih hc)

theorem matches_star {p t : List Char} :
    Matches ('*' :: p) t ↔ ∃ u t', t = u ++ t' ∧ Matches p t' := by
  constructor
  · intro h
    cases h with
    | star u h => exact ⟨u, _, rfl, h⟩
    | char hstar => exact absurd rfl hstar
  · rintro ⟨u, t', rfl, h⟩
    exact .star u h

theorem matches_any {p t : List Char} :
    Matches ('?' :: p) t ↔ ∃ c t', t = c :: t' ∧ Matches p t' := by
  constructor
  · intro h
    cases h with
    | any c h => exact ⟨c, _, rfl, h⟩
    | char _ hany => exact absurd rfl hany
  · rintro ⟨c, t', rfl, h⟩
    exact .any c h

theorem matches_char {c : Char} {p t : List Char} (hstar : c ≠ '*') (hany : c ≠ '?') :
    Matches (c :: p) t ↔ ∃ t', t = c :: t' ∧ Matches p t' := by
  constructor
  · intro h
    cases h with
    | star => exact absurd rfl hstar
    | any => exact absurd rfl hany
    | char _ _ h => exact ⟨_, rfl, h⟩
  · rintro ⟨t', rfl, h⟩
    exact .char hstar hany h

theorem Matches.append {p t q u : List Char} (h : Matches p t) (h' : Matches q u) :
    Matches (p ++ q) (t ++ u) := by
  induction h with
  | nil => exact h'
  | star v _ ih =>
    rw [List.append_assoc]
    exact .star v ih
  | any c _ ih => exact .any c ih
  | char hstar hany _ ih => exact .char hstar hany ih

theorem matches_self (p : List Char) : Matches p p := by
  induction p with
  | nil => exact .nil
  | cons c p ih =>
    by_cases hstar : c = '*'
    · subst hstar
      exact .star ['*'] ih
    · by_cases hany : c = '?'
      · subst hany
        exact .any '?' ih
      · exact .char hstar hany ih

theorem Matches.length_le {p t : List Char} (h : Matches p t) : p.countP (· ≠ '*') ≤ t.length := by
  induction h with
  | nil => exact Nat.le_refl 0
  | star u _ ih =>
    rw [List.countP_cons_of_neg (by decide), List.length_append]
    exact Nat.le_add_left_of_le ih
  | any c _ ih =>
    rw [List.countP_cons_of_pos (by decide)]
    exact Nat.succ_le_succ ih
  | char hstar _ _ ih =>
    rw [List.countP_cons_of_pos (by simpa using hstar)]
    exact Nat.succ_le_succ ih

theorem exists_matches_ne {p : List Char} {c : Char} (hc : c ∈ p) (hwild : c = '*' ∨ c = '?')
    (x : Char) (hx : x ≠ '?') : ∃ t, Matches p t ∧ t ≠ p ∧ ∀ d ∈ t, d = x ∨ d ∈ p := by
  obtain ⟨pre, post, rfl⟩ := List.append_of_mem hc
  rcases hwild with rfl | rfl
  · refine ⟨pre ++ post, (matches_self pre).append (.star [] (matches_self post)), ?_, ?_⟩
    · intro h
      have hlength := congrArg List.length h
      simp at hlength
    · intro d hd
      right
      rcases List.mem_append.mp hd with hd | hd <;> simp [hd]
  · refine ⟨pre ++ x :: post, (matches_self pre).append (.any x (matches_self post)), ?_, ?_⟩
    · intro h
      have htail := List.append_cancel_left h
      exact hx (List.cons.inj htail).1
    · intro d hd
      rcases List.mem_append.mp hd with hd | hd
      · exact .inr (List.mem_append_left _ hd)
      · rcases List.mem_cons.mp hd with rfl | hd
        · exact .inl rfl
        · exact .inr (List.mem_append_right _ (List.mem_cons_of_mem _ hd))

theorem matches_literal {p t : List Char} (hp : ∀ c ∈ p, c ≠ '*' ∧ c ≠ '?') : Matches p t ↔ t = p := by
  constructor
  · intro h
    induction h with
    | nil => rfl
    | star => exact absurd rfl (hp _ (List.mem_cons_self ..)).1
    | any => exact absurd rfl (hp _ (List.mem_cons_self ..)).2
    | char _ _ _ ih => rw [ih fun c hc => hp c (List.mem_cons_of_mem _ hc)]
  · rintro rfl
    induction t with
    | nil => exact .nil
    | cons c t ih =>
      obtain ⟨hstar, hany⟩ := hp c (List.mem_cons_self ..)
      exact .char hstar hany (ih fun d hd => hp d (List.mem_cons_of_mem _ hd))

end Glob
