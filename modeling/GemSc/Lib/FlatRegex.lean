import Mathlib

/-! Regular expressions that are a sequence of plain characters, dots and starred dots, with
their text, what they match as a whole, and a parser of the text. -/

namespace FlatRegex

def syntaxChars : List Char :=
  ['^', '$', '\\', '.', '*', '+', '?', '(', ')', '[', ']', '{', '}', '|']

inductive Item
  | char (c : Char)
  | dot
  | star (reluctant : Bool)
  deriving DecidableEq

def Item.text : Item → List Char
  | char c => [c]
  | dot => ['.']
  | star false => ['.', '*']
  | star true => ['.', '*', '?']

def text (items : List Item) : List Char := items.flatMap Item.text

def Plain (items : List Item) : Prop := ∀ c, .char c ∈ items → c ∉ syntaxChars

/-- A full match. It does not depend on how much a star takes first. -/
def accepts : List Item → List Char → Bool
  | [], t => t.isEmpty
  | .char c :: items, t => t.head? == some c && accepts items t.tail
  | .dot :: items, t => t.head?.isSome && accepts items t.tail
  | .star _ :: items, t => t.tails.any (accepts items)

def minLength : List Item → ℕ
  | [] => 0
  | .star _ :: items => minLength items
  | _ :: items => minLength items + 1

theorem plain_cons {i : Item} {items : List Item} (h : Plain (i :: items)) : Plain items :=
  fun c hc => h c (List.mem_cons_of_mem _ hc)

theorem accepts_star {lz : Bool} {items : List Item} {t : List Char} :
    accepts (.star lz :: items) t ↔ ∃ u t', t = u ++ t' ∧ accepts items t' := by
  rw [accepts, List.any_eq_true]
  constructor
  · rintro ⟨t', htail, h⟩
    obtain ⟨u, rfl⟩ := (List.mem_tails _ _).mp htail
    exact ⟨u, t', rfl, h⟩
  · rintro ⟨u, t', rfl, h⟩
    exact ⟨t', (List.mem_tails _ _).mpr (List.suffix_append u t'), h⟩

theorem accepts_char {c : Char} {items : List Item} {t : List Char} :
    accepts (.char c :: items) t ↔ ∃ t', t = c :: t' ∧ accepts items t' := by
  cases t with
  | nil => simp [accepts]
  | cons d t => simp [accepts]

theorem accepts_dot {items : List Item} {t : List Char} :
    accepts (.dot :: items) t ↔ ∃ d t', t = d :: t' ∧ accepts items t' := by
  cases t with
  | nil => simp [accepts]
  | cons d t => simp [accepts]

theorem exists_accepts (x : Char) (items : List Item) : ∃ t, accepts items t ∧
    t.length = minLength items ∧ ∀ c ∈ t, c = x ∨ .char c ∈ items := by
  induction items with
  | nil => exact ⟨[], rfl, rfl, nofun⟩
  | cons i items ih =>
    obtain ⟨t, ht, hlength, hmem⟩ := ih
    have hmem' : ∀ c ∈ t, c = x ∨ .char c ∈ i :: items :=
      fun c hc => (hmem c hc).imp_right (List.mem_cons_of_mem _)
    cases i with
    | char c =>
      refine ⟨c :: t, accepts_char.mpr ⟨t, rfl, ht⟩, ?_, ?_⟩
      · rw [List.length_cons, hlength, minLength]
        exact nofun
      · exact List.forall_mem_cons.mpr ⟨.inr (List.mem_cons_self ..), hmem'⟩
    | dot =>
      refine ⟨x :: t, accepts_dot.mpr ⟨x, t, rfl, ht⟩, ?_, ?_⟩
      · rw [List.length_cons, hlength, minLength]
        exact nofun
      · exact List.forall_mem_cons.mpr ⟨.inl rfl, hmem'⟩
    | star lz =>
      refine ⟨t, accepts_star.mpr ⟨[], t, rfl, ht⟩, ?_, hmem'⟩
      rw [hlength, minLength]

abbrev Alike : List Char → List Char → Prop :=
  List.Forall₂ fun c d => c = d ∨ (c ∈ syntaxChars ∧ d ∈ syntaxChars)

theorem accepts_of_alike {items : List Item} (hplain : Plain items) {t t' : List Char}
    (halike : Alike t t') (h : accepts items t) : accepts items t' := by
  induction items generalizing t t' with
  | nil =>
    cases halike with
    | nil => exact h
    | cons _ _ => cases h
  | cons i items ih =>
    cases i with
    | char c =>
      obtain ⟨t, rfl, ht⟩ := accepts_char.mp h
      obtain ⟨d, u, hcd, htu, rfl⟩ := List.forall₂_cons_left_iff.mp halike
      rcases hcd with rfl | ⟨hc, -⟩
      · exact accepts_char.mpr ⟨u, rfl, ih (plain_cons hplain) htu ht⟩
      · exact absurd hc (hplain c (List.mem_cons_self ..))
    | dot =>
      obtain ⟨c, t, rfl, ht⟩ := accepts_dot.mp h
      obtain ⟨d, u, -, htu, rfl⟩ := List.forall₂_cons_left_iff.mp halike
      exact accepts_dot.mpr ⟨d, u, rfl, ih (plain_cons hplain) htu ht⟩
    | star lz =>
      obtain ⟨u, t, rfl, ht⟩ := accepts_star.mp h
      have hdrop := List.forall₂_drop u.length halike
      rw [List.drop_left] at hdrop
      exact accepts_star.mpr ⟨t'.take u.length, _, (List.take_append_drop _ _).symm,
        ih (plain_cons hplain) hdrop ht⟩

def parse : List Char → Option (List Item)
  | [] => none
  | ['$'] => some []
  | '.' :: '*' :: '*' :: _ => none
  | '.' :: '*' :: '?' :: cs => (parse cs).map (.star true :: ·)
  | '.' :: '*' :: cs => (parse cs).map (.star false :: ·)
  | '.' :: cs => (parse cs).map (.dot :: ·)
  | c :: cs => if c ∈ syntaxChars then none else (parse cs).map (.char c :: ·)

theorem plain_of_map {i : Item} (hi : ∀ c, i = .char c → c ∉ syntaxChars) {o : Option (List Item)}
    (ho : ∀ is, o = some is → Plain is) {items : List Item} (h : o.map (i :: ·) = some items) :
    Plain items := by
  obtain ⟨is, his, rfl⟩ := Option.map_eq_some_iff.mp h
  intro c hc
  rcases List.mem_cons.mp hc with hi' | hc
  · exact hi c hi'.symm
  · exact ho is his c hc

theorem parse_plain {cs : List Char} {items : List Item} (h : parse cs = some items) :
    Plain items := by
  fun_induction parse cs generalizing items with
  | case1 => cases h
  | case2 =>
    cases h
    exact nofun
  | case3 => cases h
  | case4 cs ih => exact plain_of_map (fun _ hc => by cases hc) (fun is his => ih his) h
  | case5 cs _ _ ih => exact plain_of_map (fun _ hc => by cases hc) (fun is his => ih his) h
  | case6 cs _ _ _ ih => exact plain_of_map (fun _ hc => by cases hc) (fun is his => ih his) h
  | case7 => cases h
  | case8 c cs _ _ _ _ _ hc ih =>
    refine plain_of_map ?_ (fun is his => ih his) h
    rintro d ⟨⟩
    exact hc

theorem parse_char {c : Char} (hc : c ∉ syntaxChars) (cs : List Char) :
    parse (c :: cs) = (parse cs).map (.char c :: ·) := by
  have hdollar : c ≠ '$' := fun h => hc (by rw [h]; decide)
  have hdot : c ≠ '.' := fun h => hc (by rw [h]; decide)
  rw [parse, if_neg hc]
  · exact fun h _ => hdollar h
  · exact fun _ h _ => hdot h
  · exact fun _ h _ => hdot h
  · exact fun _ h _ => hdot h
  · exact hdot

def Follows (cs : List Char) : Prop := ∀ c ∈ cs.head?, c ≠ '*' ∧ c ≠ '?'

theorem follows_text {items : List Item} (h : Plain items) {cs : List Char} (hcs : Follows cs) :
    Follows (text items ++ cs) := by
  cases items with
  | nil => exact hcs
  | cons i items =>
    cases i with
    | char d =>
      have hd : d ∉ syntaxChars := h d (List.mem_cons_self ..)
      intro c hc
      obtain rfl : d = c := by simpa [text, Item.text] using hc
      exact ⟨fun hstar => hd (by rw [hstar]; decide), fun hany => hd (by rw [hany]; decide)⟩
    | dot => simp [text, Item.text, Follows]
    | star lz => cases lz <;> simp [text, Item.text, Follows]

theorem parse_dot {cs : List Char} (h : Follows cs) :
    parse ('.' :: cs) = (parse cs).map (.dot :: ·) := by
  rw [parse]
  · rintro rest rfl
    exact (h '*' rfl).1 rfl
  · rintro rest rfl
    exact (h '*' rfl).1 rfl
  · rintro rest rfl
    exact (h '*' rfl).1 rfl

theorem parse_star {cs : List Char} (h : Follows cs) :
    parse ('.' :: '*' :: cs) = (parse cs).map (.star false :: ·) := by
  rw [parse]
  · rintro rest rfl
    exact (h '*' rfl).1 rfl
  · rintro rest rfl
    exact (h '?' rfl).2 rfl

theorem parse_text_append {items : List Item} (h : Plain items) {cs : List Char} (hcs : Follows cs) :
    parse (text items ++ cs) = (parse cs).map (items ++ ·) := by
  induction items with
  | nil => simp [text]
  | cons i items ih =>
    have hitems := ih (plain_cons h)
    have hfollows := follows_text (plain_cons h) hcs
    have htail : (parse cs).map (fun is => i :: items ++ is) =
        ((parse cs).map (items ++ ·)).map (i :: ·) := by
      rw [Option.map_map]
      rfl
    rw [htail, ← hitems]
    cases i with
    | char c => exact parse_char (h c (List.mem_cons_self ..)) _
    | dot => exact parse_dot hfollows
    | star lz => cases lz with
      | false => exact parse_star hfollows
      | true =>
        show parse ('.' :: '*' :: '?' :: (text items ++ cs)) = _
        rw [parse]

theorem parse_text {items : List Item} (h : Plain items) :
    parse (text items ++ ['$']) = some items := by
  have hcs : Follows ['$'] := by simp [Follows]
  rw [parse_text_append h hcs, parse]
  simp

theorem parse_starStar {items : List Item} (h : Plain items) (rest : List Char) :
    parse (text items ++ '.' :: '*' :: '*' :: rest) = none := by
  have hcs : Follows ('.' :: '*' :: '*' :: rest) := by simp [Follows]
  rw [parse_text_append h hcs, parse, Option.map_none]

end FlatRegex
