import GemSc.Config.Names
import GemSc.Lib.FlatRegex
import GemSc.Lib.Glob

/-! When `Wildcard::match` is glob matching. Characters of the pattern that mean something else
in a regular expression go through unchanged, and the character behind a star is not looked at:
a question mark there makes the star reluctant, a second star the expression malformed. -/

namespace GemSc
open FlatRegex

def lineTerminators : List Char := ['\n', '\r', '\u2028', '\u2029']

def OneLine (cs : List Char) : Prop := ∀ c ∈ cs, c ∉ lineTerminators

def Unescaped (cs : List Char) : Prop := ∀ c ∈ cs, c ∉ ['\\', '[', ']', '{', '}']

/-- What is used of `std::regex`, full matches of texts of one line. -/
structure EcmaScript (regexMatch : RegexMatch) : Prop where
  /-- A plain character matches itself, a dot any character, a starred dot any text. -/
  flat : ∀ items str, Plain items → OneLine str.toList →
    regexMatch (String.ofList ('^' :: text items ++ ['$'])) str = some (accepts items str.toList)
  badRepeat : ∀ items rest str, Plain items →
    regexMatch (String.ofList ('^' :: text items ++ '.' :: '*' :: '*' :: rest)) str = none
  malformed : ∀ re str str', regexMatch re str = none → regexMatch re str' = none
  alike : ∀ re str str', Unescaped re.toList →
    Alike str.toList str'.toList → regexMatch re str = regexMatch re str'

namespace Wildcard

def ImplementsGlob (regexMatch : RegexMatch) (pattern : String) : Prop :=
  ∀ str : String, OneLine str.toList →
    (isMatch regexMatch pattern str = true ↔ Glob.Matches pattern.toList str.toList)

def isWild (c : Char) : Bool := c == '*' || c == '?'

def Plain (pattern : List Char) : Prop := ∀ c ∈ pattern, isWild c = true ∨ c ∉ syntaxChars

def StarsApart (pattern : List Char) : Prop := pattern.IsChain fun c d => c = '*' → isWild d = false

def Literal (pattern : List Char) : Prop := ∀ c ∈ pattern, isWild c = false

theorem Plain.tail {c : Char} {p : List Char} (h : Plain (c :: p)) : Plain p :=
  fun d hd => h d (List.mem_cons_of_mem _ hd)

theorem Plain.char {c : Char} {p : List Char} (h : Plain (c :: p)) (hstar : c ≠ '*')
    (hany : c ≠ '?') : c ∉ syntaxChars := by
  refine (h c (List.mem_cons_self ..)).resolve_left ?_
  simp [isWild, hstar, hany]

theorem ne_wild_of_plain {c : Char} (hc : c ∉ syntaxChars) : c ≠ '*' ∧ c ≠ '?' :=
  ⟨fun h => hc (by rw [h]; decide), fun h => hc (by rw [h]; decide)⟩

theorem translate_char {c : Char} (hc : c ∉ syntaxChars) (cs : List Char) :
    translate (c :: cs) = c :: translate cs := by
  obtain ⟨hstar, hany⟩ := ne_wild_of_plain hc
  rw [translate]
  · exact fun h _ => hstar h
  · exact fun _ _ h _ => hstar h
  · exact hany

/-- The well-formed expression that a plain pattern is rewritten to, item by item. -/
inductive Renders : List Char → List Item → Prop
  | nil : Renders [] []
  | star : Renders ['*'] [.star false]
  | starAny {cs : List Char} {is : List Item} :
      Renders cs is → Renders ('*' :: '?' :: cs) (.star true :: is)
  | starChar {c : Char} {cs : List Char} {is : List Item} :
      c ∉ syntaxChars → Renders cs is → Renders ('*' :: c :: cs) (.star false :: .char c :: is)
  | any {cs : List Char} {is : List Item} : Renders cs is → Renders ('?' :: cs) (.dot :: is)
  | char {c : Char} {cs : List Char} {is : List Item} :
      c ∉ syntaxChars → Renders cs is → Renders (c :: cs) (.char c :: is)

theorem plain_item_cons {i : Item} {is : List Item} (hi : ∀ c, i = .char c → c ∉ syntaxChars)
    (h : FlatRegex.Plain is) : FlatRegex.Plain (i :: is) := by
  intro c hc
  rcases List.mem_cons.mp hc with hi' | hc
  · exact hi c hi'.symm
  · exact h c hc

theorem plain_char_cons {c : Char} {is : List Item} (hc : c ∉ syntaxChars)
    (h : FlatRegex.Plain is) : FlatRegex.Plain (.char c :: is) := by
  refine plain_item_cons ?_ h
  rintro d ⟨⟩
  exact hc

theorem Renders.plain {p : List Char} {is : List Item} (h : Renders p is) : FlatRegex.Plain is := by
  induction h with
  | nil => exact nofun
  | star => exact plain_item_cons (by simp) nofun
  | starAny _ ih => exact plain_item_cons (by simp) ih
  | starChar hc _ ih => exact plain_item_cons (by simp) (plain_char_cons hc ih)
  | any _ ih => exact plain_item_cons (by simp) ih
  | char hc _ ih => exact plain_char_cons hc ih

theorem Renders.mem {p : List Char} {is : List Item} (h : Renders p is) {c : Char}
    (hc : .char c ∈ is) : c ∈ p := by
  induction h with
  | nil => cases hc
  | star => simp at hc
  | starAny _ ih => exact .tail _ (.tail _ (ih (by simpa using hc)))
  | starChar _ _ ih =>
    rcases List.mem_cons.mp (List.mem_of_ne_of_mem (by simp) hc) with hd | hc
    · cases hd
      exact .tail _ (.head _)
    · exact .tail _ (.tail _ (ih hc))
  | any _ ih => exact .tail _ (ih (by simpa using hc))
  | char _ _ ih =>
    rcases List.mem_cons.mp hc with hd | hc
    · cases hd
      exact .head _
    · exact .tail _ (ih hc)

theorem Renders.translate {p : List Char} {is : List Item} (h : Renders p is) :
    Wildcard.translate p = text is := by
  induction h with
  | nil => rfl
  | star => rfl
  | starAny _ ih => exact congrArg (['.', '*', '?'] ++ ·) ih
  | @starChar c _ _ _ _ ih => exact congrArg (['.', '*', c] ++ ·) ih
  | any _ ih => exact congrArg ('.' :: ·) ih
  | char hc _ ih =>
    rw [translate_char hc, ih]
    rfl

theorem StarsApart.tail {c : Char} {p : List Char} (h : StarsApart (c :: p)) : StarsApart p :=
  List.IsChain.tail h

theorem starsApart_cons_of_ne {c : Char} (hc : c ≠ '*') {p : List Char} :
    StarsApart (c :: p) ↔ StarsApart p := by
  cases p with
  | nil => exact ⟨fun _ => .nil, fun _ => .singleton c⟩
  | cons d p =>
    unfold StarsApart
    rw [List.isChain_cons_cons]
    exact and_iff_right fun h => absurd h hc

theorem starsApart_star {c : Char} {p : List Char} :
    StarsApart ('*' :: c :: p) ↔ isWild c = false ∧ StarsApart (c :: p) := by
  unfold StarsApart
  rw [List.isChain_cons_cons]
  exact and_congr_left' ⟨fun h => h rfl, fun h _ => h⟩

theorem starsApart_of_literal {p : List Char} (h : Literal p) : StarsApart p := by
  induction p with
  | nil => exact .nil
  | cons c p ih =>
    have hc : c ≠ '*' := by
      rintro rfl
      exact absurd (h '*' (List.mem_cons_self ..)) (by decide)
    exact (starsApart_cons_of_ne hc).mpr (ih fun d hd => h d (List.mem_cons_of_mem _ hd))

theorem Renders.accepts_iff {p : List Char} {is : List Item} (h : Renders p is)
    (hstars : StarsApart p) (t : List Char) : accepts is t ↔ Glob.Matches p t := by
  induction h generalizing t with
  | nil =>
    constructor
    · intro ht
      obtain rfl := List.isEmpty_iff.mp ht
      exact .nil
    · rintro ⟨⟩
      rfl
  | star =>
    rw [accepts_star, Glob.matches_star]
    refine exists₂_congr fun u t' => and_congr_right fun _ => ?_
    constructor
    · intro ht
      obtain rfl := List.isEmpty_iff.mp ht
      exact .nil
    · rintro ⟨⟩
      rfl
  | starAny =>
    have hwild := (starsApart_star.mp hstars).1
    simp [isWild] at hwild
  | @starChar c cs is hc _ ih =>
    obtain ⟨hstar, hany⟩ := ne_wild_of_plain hc
    have ih' := ih hstars.tail.tail
    rw [accepts_star, Glob.matches_star]
    refine exists₂_congr fun u t' => and_congr_right fun _ => ?_
    rw [accepts_char, Glob.matches_char hstar hany]
    exact exists_congr fun t'' => and_congr_right fun _ => ih' t''
  | any _ ih =>
    rw [accepts_dot, Glob.matches_any]
    exact exists₂_congr fun d t' => and_congr_right fun _ => ih hstars.tail t'
  | @char c cs is hc _ ih =>
    obtain ⟨hstar, hany⟩ := ne_wild_of_plain hc
    rw [accepts_char, Glob.matches_char hstar hany]
    exact exists_congr fun t' => and_congr_right fun _ => ih hstars.tail t'

theorem Renders.minLength_lt {p : List Char} {is : List Item} (h : Renders p is) :
    minLength is ≤ p.countP (· ≠ '*') ∧ (¬ StarsApart p → minLength is < p.countP (· ≠ '*')) := by
  induction h with
  | nil => exact ⟨Nat.le_refl 0, fun h => absurd .nil h⟩
  | star => exact ⟨Nat.le_refl 0, fun h => absurd (.singleton '*') h⟩
  | starAny _ ih =>
    rw [List.countP_cons_of_neg (by decide), List.countP_cons_of_pos (by decide), minLength]
    exact ⟨Nat.le_succ_of_le ih.1, fun _ => Nat.lt_succ_of_le ih.1⟩
  | @starChar c cs is hc _ ih =>
    obtain ⟨hstar, hany⟩ := ne_wild_of_plain hc
    have hwild : isWild c = false := by simp [isWild, hstar, hany]
    rw [List.countP_cons_of_neg (by decide), List.countP_cons_of_pos (by simpa using hstar)]
    rw [starsApart_star, starsApart_cons_of_ne hstar, and_iff_right hwild]
    exact ⟨Nat.succ_le_succ ih.1, fun h => Nat.succ_lt_succ (ih.2 h)⟩
  | any _ ih =>
    rw [List.countP_cons_of_pos (by decide), starsApart_cons_of_ne (by decide)]
    exact ⟨Nat.succ_le_succ ih.1, fun h => Nat.succ_lt_succ (ih.2 h)⟩
  | @char c cs is hc _ ih =>
    have hstar := (ne_wild_of_plain hc).1
    rw [List.countP_cons_of_pos (by simpa using hstar), starsApart_cons_of_ne hstar]
    exact ⟨Nat.succ_le_succ ih.1, fun h => Nat.succ_lt_succ (ih.2 h)⟩

def Malformed (cs : List Char) : Prop :=
  ∃ is rest, FlatRegex.Plain is ∧ cs = text is ++ '.' :: '*' :: '*' :: rest

theorem Malformed.cons {i : Item} (hi : ∀ c, i = .char c → c ∉ syntaxChars) {cs : List Char}
    (h : Malformed cs) : Malformed (i.text ++ cs) := by
  obtain ⟨is, rest, hplain, rfl⟩ := h
  exact ⟨i :: is, rest, plain_item_cons hi hplain, by simp [text]⟩

theorem renders_or_malformed {p : List Char} (hp : Plain p) :
    (∃ is, Renders p is) ∨ (Malformed (translate p) ∧ ¬ StarsApart p) := by
  fun_induction translate p with
  | case1 => exact .inl ⟨_, .nil⟩
  | case2 => exact .inl ⟨_, .star⟩
  | case3 c cs ih =>
    by_cases hstar : c = '*'
    · subst hstar
      refine .inr ⟨⟨[], translate cs, nofun, rfl⟩, fun h => ?_⟩
      have hwild := (starsApart_star.mp h).1
      simp [isWild] at hwild
    · rcases ih hp.tail.tail with ⟨is, his⟩ | ⟨hbad, hstars⟩
      · by_cases hany : c = '?'
        · subst hany
          exact .inl ⟨_, .starAny his⟩
        · exact .inl ⟨_, .starChar (hp.tail.char hstar hany) his⟩
      · right
        refine ⟨?_, fun h => hstars h.tail.tail⟩
        by_cases hany : c = '?'
        · subst hany
          exact Malformed.cons (i := .star true) (by simp) hbad
        · have hc := hp.tail.char hstar hany
          refine Malformed.cons (i := .star false) (by simp) ?_
          refine Malformed.cons (i := .char c) ?_ hbad
          rintro d ⟨⟩
          exact hc
  | case4 cs ih =>
    rcases ih hp.tail with ⟨is, his⟩ | ⟨hbad, hstars⟩
    · exact .inl ⟨_, .any his⟩
    · exact .inr ⟨Malformed.cons (i := .dot) (by simp) hbad, fun h => hstars h.tail⟩
  | case5 c cs hnil hcons hany ih =>
    have hstar : c ≠ '*' := by
      rintro rfl
      cases cs with
      | nil => exact hnil rfl rfl
      | cons d ds => exact hcons d ds rfl rfl
    have hc := hp.char hstar hany
    rcases ih hp.tail with ⟨is, his⟩ | ⟨hbad, hstars⟩
    · exact .inl ⟨_, .char hc his⟩
    · refine .inr ⟨?_, fun h => hstars h.tail⟩
      refine Malformed.cons (i := .char c) ?_ hbad
      rintro d ⟨⟩
      exact hc

section
variable {r : RegexMatch} {pattern : String}

theorem isMatch_of_renders (hr : EcmaScript r) {is : List Item} (h : Renders pattern.toList is)
    {str : String} (hstr : OneLine str.toList) : isMatch r pattern str = accepts is str.toList := by
  have hmatch : r (regexStr pattern) str = some (accepts is str.toList) := by
    rw [regexStr, h.translate]
    exact hr.flat is str h.plain hstr
  rw [isMatch, hmatch]

theorem isMatch_of_none {str : String} (h : r (regexStr pattern) str = none) :
    isMatch r pattern str = (pattern == str) := by rw [isMatch, h]

theorem implementsGlob_of_starsApart (hr : EcmaScript r) (hp : Plain pattern.toList)
    (hstars : StarsApart pattern.toList) : ImplementsGlob r pattern := by
  intro str hstr
  rcases renders_or_malformed hp with ⟨is, his⟩ | ⟨-, hapart⟩
  · rw [isMatch_of_renders hr his hstr]
    exact his.accepts_iff hstars str.toList
  · exact absurd hstars hapart

theorem implementsGlob_of_literal (hp : Literal pattern.toList)
    (h : ∀ str, r (regexStr pattern) str = none) : ImplementsGlob r pattern := by
  intro str _
  have hliteral : ∀ c ∈ pattern.toList, c ≠ '*' ∧ c ≠ '?' := by
    intro c hc
    simpa [isWild] using hp c hc
  rw [isMatch_of_none (h str), beq_iff_eq, Glob.matches_literal hliteral, String.toList_inj]
  exact eq_comm

theorem literal_of_none (hline : OneLine pattern.toList) (h : ∀ str, r (regexStr pattern) str = none)
    (hglob : ImplementsGlob r pattern) : Literal pattern.toList := by
  intro c hc
  by_contra hwild
  have hwild' : c = '*' ∨ c = '?' := by
    simpa [isWild, or_iff_not_imp_left] using hwild
  obtain ⟨t, ht, hne, hmem⟩ := Glob.exists_matches_ne hc hwild' 'x' (by decide)
  have hstr : OneLine (String.ofList t).toList := by
    rw [String.toList_ofList]
    intro d hd
    rcases hmem d hd with rfl | hd
    · decide
    · exact hline d hd
  have hmatch := (hglob (String.ofList t) hstr).mpr (by rwa [String.toList_ofList])
  rw [isMatch_of_none (h _), beq_iff_eq] at hmatch
  exact hne (by rw [hmatch, String.toList_ofList])

theorem starsApart_of_implementsGlob (hr : EcmaScript r) (hline : OneLine pattern.toList)
    (hp : Plain pattern.toList) (hglob : ImplementsGlob r pattern) : StarsApart pattern.toList := by
  by_contra hstars
  rcases renders_or_malformed hp with ⟨is, his⟩ | ⟨⟨is, rest, hplain, htext⟩, -⟩
  · obtain ⟨t, ht, hlength, hmem⟩ := exists_accepts 'x' is
    have hstr : OneLine (String.ofList t).toList := by
      rw [String.toList_ofList]
      intro d hd
      rcases hmem d hd with rfl | hd
      · decide
      · exact hline d (his.mem hd)
    have hmatch : isMatch r pattern (String.ofList t) = true := by
      rw [isMatch_of_renders hr his hstr, String.toList_ofList]
      exact ht
    have hle := ((hglob _ hstr).mp hmatch).length_le
    rw [String.toList_ofList, hlength] at hle
    exact absurd hle (Nat.not_le_of_lt (his.minLength_lt.2 hstars))
  · have hnone : ∀ str, r (regexStr pattern) str = none := by
      intro str
      rw [regexStr, htext]
      simpa using hr.badRepeat is (rest ++ ['$']) str hplain
    exact hstars (starsApart_of_literal (literal_of_none hline hnone hglob))

theorem mem_translate {p : List Char} {c : Char} (h : c ∈ translate p) : c ∈ p ∨ c ∈ ['.', '*'] := by
  fun_induction translate p with
  | case1 => cases h
  | case2 => exact .inr h
  | case3 d cs ih =>
    simp only [List.mem_cons] at h ih ⊢
    tauto
  | case4 cs ih =>
    simp only [List.mem_cons] at h ih ⊢
    tauto
  | case5 d cs _ _ _ ih =>
    simp only [List.mem_cons] at h ih ⊢
    tauto

def swap (m c : Char) : Char := if c = m then if m = '|' then '+' else '|' else c

theorem swap_ne (m c : Char) : swap m c ≠ m := by
  unfold swap
  split_ifs with hc hm
  · rw [hm]
    decide
  · exact Ne.symm hm
  · exact hc

theorem swap_eq_or_mem (m c : Char) : swap m c = c ∨ (c = m ∧ swap m c ∈ ['+', '|']) := by
  unfold swap
  split_ifs with hc
  · exact .inr ⟨hc, by simp⟩
  · exact .inr ⟨hc, by simp⟩
  · exact .inl rfl

theorem alike_swap {m : Char} (hm : m ∈ syntaxChars) (t : List Char) : Alike t (t.map (swap m)) := by
  refine List.forall₂_map_right_iff.mpr (List.forall₂_same.mpr fun c _ => ?_)
  rcases swap_eq_or_mem m c with h | ⟨rfl, h⟩
  · exact .inl h.symm
  · refine .inr ⟨hm, ?_⟩
    rcases List.mem_pair.mp h with h | h <;> rw [h] <;> decide

theorem unescaped_regexStr (h : Unescaped pattern.toList) : Unescaped (regexStr pattern).toList := by
  intro c hc
  rw [regexStr, String.toList_ofList] at hc
  rcases List.mem_append.mp hc with hc | hc
  · rcases List.mem_cons.mp hc with rfl | hc
    · decide
    · rcases mem_translate hc with hc | hc
      · exact h c hc
      · rcases List.mem_pair.mp hc with rfl | rfl <;> decide
  · obtain rfl := List.mem_singleton.mp hc
    decide

/-- A character that only the expression gives a meaning is in every text that the pattern
denotes, but the expression matches a text without it as well. -/
theorem plain_of_implementsGlob (hr : EcmaScript r) (hline : OneLine pattern.toList)
    (hescape : Unescaped pattern.toList) (hglob : ImplementsGlob r pattern) :
    Plain pattern.toList ∨ ∀ str, r (regexStr pattern) str = none := by
  cases hself : r (regexStr pattern) pattern with
  | none => exact .inr fun str => hr.malformed _ pattern str hself
  | some b =>
    left
    intro m hm
    by_contra hmeta
    obtain ⟨hwild, hsyntax⟩ : isWild m = false ∧ m ∈ syntaxChars := by simpa using hmeta
    let str := String.ofList (pattern.toList.map (swap m))
    have hlist : str.toList = pattern.toList.map (swap m) := String.toList_ofList
    have hstr : OneLine str.toList := by
      rw [hlist]
      intro c hc
      obtain ⟨d, hd, rfl⟩ := List.mem_map.mp hc
      rcases swap_eq_or_mem m d with h | ⟨-, h⟩
      · rw [h]
        exact hline d hd
      · rcases List.mem_pair.mp h with h | h <;> rw [h] <;> decide
    have hb : isMatch r pattern pattern = true := (hglob pattern hline).mpr (Glob.matches_self _)
    have halike : r (regexStr pattern) pattern = r (regexStr pattern) str :=
      hr.alike _ _ _ (unescaped_regexStr hescape) (hlist ▸ alike_swap hsyntax _)
    have hmatch : isMatch r pattern str = true := by
      rw [isMatch, ← halike, hself]
      rwa [isMatch, hself] at hb
    have hmatches := (hglob str hstr).mp hmatch
    obtain ⟨hstar, hany⟩ : m ≠ '*' ∧ m ≠ '?' := by simpa [isWild] using hwild
    have hmem : m ∈ str.toList := hmatches.mem hm hstar hany
    rw [hlist] at hmem
    obtain ⟨c, -, hc⟩ := List.mem_map.mp hmem
    exact swap_ne m c hc

end

/-- Matching a pattern is glob matching if its characters stand for themselves and no wildcard
follows a star, or if it has no wildcards and is a malformed expression. On one line and without
escapes, classes and counts this is the only way. -/
theorem implementsGlob_iff (regexMatch : RegexMatch) (hregex : EcmaScript regexMatch)
    (pattern : String) :
    ((Plain pattern.toList ∧ StarsApart pattern.toList) ∨
        (Literal pattern.toList ∧ ∀ str, regexMatch (regexStr pattern) str = none) →
      ImplementsGlob regexMatch pattern) ∧
    (OneLine pattern.toList → Unescaped pattern.toList → (ImplementsGlob regexMatch pattern ↔
      (Plain pattern.toList ∧ StarsApart pattern.toList) ∨
        (Literal pattern.toList ∧ ∀ str, regexMatch (regexStr pattern) str = none))) := by
  have henough : (Plain pattern.toList ∧ StarsApart pattern.toList) ∨
      (Literal pattern.toList ∧ ∀ str, regexMatch (regexStr pattern) str = none) →
      ImplementsGlob regexMatch pattern := by
    rintro (⟨hplain, hstars⟩ | ⟨hliteral, hnone⟩)
    · exact implementsGlob_of_starsApart hregex hplain hstars
    · exact implementsGlob_of_literal hliteral hnone
  refine ⟨henough, fun hline hescape => ⟨fun hglob => ?_, henough⟩⟩
  rcases plain_of_implementsGlob hregex hline hescape hglob with hplain | hnone
  · exact .inl ⟨hplain, starsApart_of_implementsGlob hregex hline hplain hglob⟩
  · exact .inr ⟨literal_of_none hline hnone hglob, hnone⟩

def itemsOf : List Char → Option (List Item)
  | '^' :: cs => parse cs
  | _ => none

def flatRegex : RegexMatch := fun re str => (itemsOf re.toList).map fun is => accepts is str.toList

theorem itemsOf_plain {cs : List Char} {is : List Item} (h : itemsOf cs = some is) :
    FlatRegex.Plain is := by
  unfold itemsOf at h
  split at h
  · exact parse_plain h
  · cases h

theorem flatRegex_ecmaScript : EcmaScript flatRegex := by
  refine ⟨fun is str h _ => ?_, fun is rest str h => ?_, fun re str str' h => ?_,
    fun re str str' _ h => ?_⟩
  · rw [flatRegex, String.toList_ofList, List.cons_append, itemsOf, parse_text h, Option.map_some]
  · rw [flatRegex, String.toList_ofList, List.cons_append, itemsOf, parse_starStar h, Option.map_none]
  · rw [flatRegex, Option.map_eq_none_iff] at h ⊢
    exact h
  · unfold flatRegex
    cases his : itemsOf re.toList with
    | none => rfl
    | some is =>
      have hplain := itemsOf_plain his
      have hback : Alike str'.toList str.toList := by
        refine (List.Forall₂.flip h).imp ?_
        rintro c d (hcd | ⟨hc, hd⟩)
        · exact .inl hcd.symm
        · exact .inr ⟨hd, hc⟩
      rw [Option.map_some, Option.map_some, Bool.eq_iff_iff.mpr
        ⟨accepts_of_alike hplain h, accepts_of_alike hplain hback⟩]

theorem implementsGlob_cpu : ImplementsGlob flatRegex "cpu?*" := by
  refine (implementsGlob_iff flatRegex flatRegex_ecmaScript "cpu?*").1 (.inl ⟨?_, ?_⟩)
  · show Plain ['c', 'p', 'u', '?', '*']
    simp [Plain, isWild, syntaxChars]
  · show List.IsChain _ ['c', 'p', 'u', '?', '*']
    decide

theorem not_implementsGlob_dot : EcmaScript flatRegex ∧
    isMatch flatRegex "mem.ctrl" "memxctrl" = true ∧
    ¬ Glob.Matches "mem.ctrl".toList "memxctrl".toList := by
  refine ⟨flatRegex_ecmaScript, by decide, ?_⟩
  rw [← Glob.isMatch_iff]
  decide

end Wildcard
end GemSc
