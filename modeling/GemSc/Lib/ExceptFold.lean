import Mathlib

/-! Loops that may fail: inversion of a successful or a failed `Except` bind, and the
invariant rules for `List.foldlM` over it. -/

namespace ExceptFold
universe u
variable {ε α : Type*} {σ β : Type u}

theorem bind_eq_ok {x : Except ε σ} {f : σ → Except ε β} {b : β} :
    (x >>= f) = .ok b ↔ ∃ a, x = .ok a ∧ f a = .ok b := by
  cases x with
  | error e => exact ⟨fun h => (nomatch h), fun ⟨_, h, _⟩ => (nomatch h)⟩
  | ok a => exact ⟨fun h => ⟨a, rfl, h⟩, fun ⟨_, h, hf⟩ => by cases h; exact hf⟩

theorem bind_pure_eq_ok {x : Except ε σ} {g : σ → β} {b : β} :
    (x >>= fun a => pure (g a)) = .ok b ↔ ∃ a, x = .ok a ∧ g a = b := by
  rw [bind_eq_ok]
  refine exists_congr fun a => and_congr_right fun _ => ?_
  exact ⟨Except.ok.inj, congrArg Except.ok⟩

theorem bind_eq_error {x : Except ε σ} {f : σ → Except ε β} {e : ε} :
    (x >>= f) = .error e ↔ x = .error e ∨ ∃ a, x = .ok a ∧ f a = .error e := by
  cases x with
  | error d =>
    constructor
    · intro h
      cases h
      exact .inl rfl
    · rintro (h | ⟨_, h, _⟩)
      · cases h
        rfl
      · cases h
  | ok a =>
    constructor
    · intro h
      exact .inr ⟨a, rfl, h⟩
    · rintro (h | ⟨_, h, hf⟩)
      · cases h
      · cases h
        exact hf

theorem mapError_eq_ok {δ : Type*} {x : Except ε σ} {g : ε → δ} {a : σ} :
    x.mapError g = .ok a ↔ x = .ok a := by
  cases x with
  | error e => exact ⟨fun h => (nomatch h), fun h => (nomatch h)⟩
  | ok b => exact ⟨fun h => by cases h; rfl, fun h => by cases h; rfl⟩

theorem mapError_error {δ : Type*} {x : Except ε σ} {g : ε → δ} {e : ε} (h : x = .error e) :
    x.mapError g = .error (g e) := by
  rw [h]
  rfl

section
variable {γ : Type*} {f g : α → Except ε γ} {l : List α} {bs : List γ}

theorem mapM_cons_ok {a : α} : (a :: l).mapM f = .ok bs ↔
    ∃ b bs', f a = .ok b ∧ l.mapM f = .ok bs' ∧ bs = b :: bs' := by
  rw [List.mapM_cons, bind_eq_ok]
  refine exists_congr fun b => ?_
  rw [bind_eq_ok]
  constructor
  · rintro ⟨hb, bs', hbs', h⟩
    exact ⟨bs', hb, hbs', (Except.ok.inj h).symm⟩
  · rintro ⟨bs', hb, hbs', rfl⟩
    exact ⟨hb, bs', hbs', rfl⟩

theorem mem_of_mapM_ok (h : l.mapM f = .ok bs) {a : α} (ha : a ∈ l) : ∃ b ∈ bs, f a = .ok b := by
  induction l generalizing bs with
  | nil => cases ha
  | cons x l ih =>
    obtain ⟨b, rest, hb, hrest, rfl⟩ := mapM_cons_ok.mp h
    rcases List.mem_cons.mp ha with rfl | ha
    · exact ⟨b, List.mem_cons_self .., hb⟩
    · obtain ⟨b', hb', hf⟩ := ih hrest ha
      exact ⟨b', List.mem_cons_of_mem _ hb', hf⟩

theorem forall₂_of_mapM_ok (h : l.mapM f = .ok bs) :
    List.Forall₂ (fun a b => f a = .ok b) l bs := by
  induction l generalizing bs with
  | nil =>
    cases h
    exact .nil
  | cons x l ih =>
    obtain ⟨b, rest, hb, hrest, rfl⟩ := mapM_cons_ok.mp h
    exact .cons hb (ih hrest)

theorem exists_mem_of_mapM_ok (h : l.mapM f = .ok bs) {b : γ} (hb : b ∈ bs) :
    ∃ a ∈ l, f a = .ok b := by
  induction l generalizing bs with
  | nil =>
    cases h
    cases hb
  | cons x l ih =>
    obtain ⟨b', rest, hb', hrest, rfl⟩ := mapM_cons_ok.mp h
    rcases List.mem_cons.mp hb with rfl | hb
    · exact ⟨x, List.mem_cons_self .., hb'⟩
    · obtain ⟨a, ha, hf⟩ := ih hrest hb
      exact ⟨a, List.mem_cons_of_mem _ ha, hf⟩

theorem mapM_split {a : α} {l₁ l₂ : List α} (h : (l₁ ++ a :: l₂).mapM f = .ok bs) :
    ∃ bs₁ b bs₂, l₁.mapM f = .ok bs₁ ∧ f a = .ok b ∧ bs = bs₁ ++ b :: bs₂ := by
  induction l₁ generalizing bs with
  | nil =>
    obtain ⟨b, bs₂, hb, -, rfl⟩ := mapM_cons_ok.mp h
    exact ⟨[], b, bs₂, rfl, hb, rfl⟩
  | cons x l₁ ih =>
    obtain ⟨y, rest, hy, hrest, rfl⟩ := mapM_cons_ok.mp h
    obtain ⟨bs₁, b, bs₂, hbs₁, hb, rfl⟩ := ih hrest
    exact ⟨y :: bs₁, b, bs₂, mapM_cons_ok.mpr ⟨y, bs₁, hy, hbs₁, rfl⟩, hb, rfl⟩

theorem mapM_ok_congr (h : l.mapM f = .ok bs) (hfg : ∀ a ∈ l, ∀ b, f a = .ok b → g a = .ok b) :
    l.mapM g = .ok bs := by
  induction l generalizing bs with
  | nil => exact h
  | cons a l ih =>
    obtain ⟨b, rest, hb, hrest, rfl⟩ := mapM_cons_ok.mp h
    exact mapM_cons_ok.mpr ⟨b, rest, hfg a (List.mem_cons_self ..) b hb,
      ih hrest fun a' ha' => hfg a' (List.mem_cons_of_mem _ ha'), rfl⟩

theorem exists_mapM_ok : (∃ bs, l.mapM f = .ok bs) ↔ ∀ a ∈ l, ∃ b, f a = .ok b := by
  constructor
  · rintro ⟨bs, h⟩ a ha
    obtain ⟨b, -, hb⟩ := mem_of_mapM_ok h ha
    exact ⟨b, hb⟩
  · intro h
    induction l with
    | nil => exact ⟨[], rfl⟩
    | cons a l ih =>
      obtain ⟨b, hb⟩ := h a (List.mem_cons_self ..)
      obtain ⟨bs, hbs⟩ := ih fun a' ha' => h a' (List.mem_cons_of_mem _ ha')
      exact ⟨b :: bs, mapM_cons_ok.mpr ⟨b, bs, hb, hbs, rfl⟩⟩

theorem error_of_mapM {e d : ε} (h : l.mapM f = .error e) (hall : ∀ a ∈ l, ∀ e, f a = .error e → e = d) :
    e = d := by
  induction l with
  | nil => cases h
  | cons a l ih =>
    rw [List.mapM_cons, bind_eq_error] at h
    rcases h with h | ⟨b, -, h⟩
    · exact hall a (List.mem_cons_self ..) e h
    · rcases bind_eq_error.mp h with h | ⟨bs, -, h⟩
      · exact ih h fun a' ha' => hall a' (List.mem_cons_of_mem _ ha')
      · cases h

theorem map_of_mapM_ok {δ : Type*} {j : α → δ} {k : γ → δ} (h : l.mapM f = .ok bs)
    (hk : ∀ a b, f a = .ok b → k b = j a) : bs.map k = l.map j := by
  induction l generalizing bs with
  | nil =>
    cases h
    rfl
  | cons a l ih =>
    obtain ⟨b, rest, hb, hrest, rfl⟩ := mapM_cons_ok.mp h
    rw [List.map_cons, List.map_cons, hk a b hb, ih hrest]

end

section
variable {f : α → Except ε PUnit} {l : List α}

theorem forM_eq_ok : forM l f = .ok ⟨⟩ ↔ ∀ a ∈ l, f a = .ok ⟨⟩ := by
  induction l with
  | nil => exact ⟨fun _ _ h => (nomatch h), fun _ => rfl⟩
  | cons a l ih =>
    rw [List.forM_cons, bind_eq_ok, List.forall_mem_cons, ← ih]
    exact ⟨fun ⟨_, ha, hl⟩ => ⟨ha, hl⟩, fun ⟨ha, hl⟩ => ⟨⟨⟩, ha, hl⟩⟩

theorem forM_eq_error {e : ε} : forM l f = .error e ↔
    ∃ pre a post, l = pre ++ a :: post ∧ (∀ x ∈ pre, f x = .ok ⟨⟩) ∧ f a = .error e := by
  constructor
  · intro h
    induction l with
    | nil => cases h
    | cons a l ih =>
      rw [List.forM_cons, bind_eq_error] at h
      rcases h with h | ⟨_, ha, h⟩
      · exact ⟨[], a, l, rfl, fun _ hx => (nomatch hx), h⟩
      · obtain ⟨pre, x, post, rfl, hpre, hx⟩ := ih h
        exact ⟨a :: pre, x, post, rfl, List.forall_mem_cons.mpr ⟨ha, hpre⟩, hx⟩
  · rintro ⟨pre, a, post, rfl, hpre, ha⟩
    rw [List.forM_append, bind_eq_error]
    refine .inr ⟨⟨⟩, forM_eq_ok.mpr hpre, ?_⟩
    rw [List.forM_cons, bind_eq_error]
    exact .inl ha

end

def valueOr (d : σ) : Except ε σ → σ
  | .ok a => a
  | .error _ => d

theorem eq_ok_valueOr {x : Except ε σ} {d : σ} (h : x.isOk) : x = .ok (valueOr d x) := by
  cases x with
  | error e => cases h
  | ok a => rfl

theorem exists_ok_of_map {P : σ → Prop} [DecidablePred P] {x : Except ε σ}
    (h : x.map (fun s => decide (P s)) = .ok true) : ∃ s, x = .ok s ∧ P s := by
  cases x with
  | error e => cases h
  | ok s => exact ⟨s, rfl, of_decide_eq_true (Except.ok.inj h)⟩

theorem forall_ok_of_map {P : σ → Prop} [DecidablePred P] {x : Except ε σ}
    (h : x.map (fun s => decide (P s)) = .ok true) : ∀ s, x = .ok s → P s := by
  rintro s rfl
  exact of_decide_eq_true (Except.ok.inj h)

variable {f : β → α → Except ε β}

theorem foldlM_cons_ok {a : α} {l : List α} {b c : β} :
    (a :: l).foldlM f b = .ok c ↔ ∃ d, f b a = .ok d ∧ l.foldlM f d = .ok c := by
  rw [List.foldlM_cons, bind_eq_ok]

theorem foldlM_append_ok {l₁ l₂ : List α} {b c : β} :
    (l₁ ++ l₂).foldlM f b = .ok c ↔ ∃ d, l₁.foldlM f b = .ok d ∧ l₂.foldlM f d = .ok c := by
  rw [List.foldlM_append, bind_eq_ok]

theorem foldlM_invariant (motive : β → Prop) {l : List α} {b c : β} (h : l.foldlM f b = .ok c)
    (hstart : motive b) (hstep : ∀ a ∈ l, ∀ d e, motive d → f d a = .ok e → motive e) :
    motive c := by
  induction l generalizing b with
  | nil =>
    cases h
    exact hstart
  | cons a l ih =>
    obtain ⟨d, hd, hrest⟩ := foldlM_cons_ok.mp h
    exact ih hrest (hstep a (List.mem_cons_self ..) b d hstart hd)
      fun a' ha' => hstep a' (List.mem_cons_of_mem _ ha')

theorem foldlM_invariant_prefix (motive : List α → β → Prop) {l : List α} {b c : β}
    (h : l.foldlM f b = .ok c) (hstart : motive [] b)
    (hstep : ∀ pre a post d e, l = pre ++ a :: post → motive pre d → f d a = .ok e →
      motive (pre ++ [a]) e) : motive l c := by
  induction l using List.reverseRecOn generalizing c with
  | nil =>
    cases h
    exact hstart
  | append_singleton l a ih =>
    obtain ⟨d, hd, hlast⟩ := foldlM_append_ok.mp h
    obtain ⟨e, he, hnil⟩ := foldlM_cons_ok.mp hlast
    obtain rfl : e = c := Except.ok.inj hnil
    refine hstep l a [] d e rfl (ih hd ?_) he
    rintro pre x post d' e' rfl
    exact hstep pre x (post ++ [a]) d' e' (by simp)

theorem foldlM_step {l : List α} {a : α} {b c : β} (h : l.foldlM f b = .ok c) (ha : a ∈ l) :
    ∃ pre post d e, l = pre ++ a :: post ∧ pre.foldlM f b = .ok d ∧ f d a = .ok e := by
  obtain ⟨pre, post, rfl⟩ := List.append_of_mem ha
  obtain ⟨d, hd, hrest⟩ := foldlM_append_ok.mp h
  obtain ⟨e, he, -⟩ := foldlM_cons_ok.mp hrest
  exact ⟨pre, post, d, e, rfl, hd, he⟩

theorem foldlM_simulation {γ : Type u} {g : γ → α → Except ε γ} (R : β → γ → Prop) {l : List α}
    {b b' : β} {d : γ} (h : l.foldlM f b = .ok b') (hstart : R b d)
    (hstep : ∀ a ∈ l, ∀ c d c', R c d → f c a = .ok c' → ∃ d', g d a = .ok d' ∧ R c' d') :
    ∃ d', l.foldlM g d = .ok d' ∧ R b' d' := by
  induction l generalizing b d with
  | nil =>
    cases h
    exact ⟨d, rfl, hstart⟩
  | cons a l ih =>
    obtain ⟨c, hc, hrest⟩ := foldlM_cons_ok.mp h
    obtain ⟨e, he, hce⟩ := hstep a (List.mem_cons_self ..) b d c hstart hc
    obtain ⟨d', hd', hR⟩ := ih hrest hce fun a' ha' => hstep a' (List.mem_cons_of_mem _ ha')
    exact ⟨d', foldlM_cons_ok.mpr ⟨e, he, hd'⟩, hR⟩

theorem foldlM_eq_error {l : List α} {b : β} {e : ε} :
    l.foldlM f b = .error e ↔
      ∃ pre a post c, l = pre ++ a :: post ∧ pre.foldlM f b = .ok c ∧ f c a = .error e := by
  constructor
  · intro h
    induction l generalizing b with
    | nil => cases h
    | cons a l ih =>
      rw [List.foldlM_cons, bind_eq_error] at h
      rcases h with h | ⟨d, hd, h⟩
      · exact ⟨[], a, l, b, rfl, rfl, h⟩
      · obtain ⟨pre, x, post, c, rfl, hpre, hx⟩ := ih h
        exact ⟨a :: pre, x, post, c, rfl, foldlM_cons_ok.mpr ⟨d, hd, hpre⟩, hx⟩
  · rintro ⟨pre, a, post, c, rfl, hpre, ha⟩
    rw [List.foldlM_append, bind_eq_error]
    refine .inr ⟨c, hpre, ?_⟩
    rw [List.foldlM_cons, bind_eq_error]
    exact .inl ha

def Always (f : β → α → Except ε β) (b : β) (P : β → Prop) (l : List α) : Prop :=
  ∀ pre c, pre <+: l → pre.foldlM f b = .ok c → P c

def Each (f : β → α → Except ε β) (b : β) (P : β → α → Prop) (l : List α) : Prop :=
  ∀ pre a c, pre ++ [a] <+: l → pre.foldlM f b = .ok c → P c a

def Never (f : β → α → Except ε β) (b : β) (P : β → α → Prop) (l : List α) : Prop :=
  ∀ pre a c d, pre ++ [a] <+: l → pre.foldlM f b = .ok c → f c a = .ok d → ¬ P c a

theorem never_of_each {b : β} {P : β → α → Prop} {l : List α} (h : Each f b (fun c a => ¬ P c a) l) :
    Never f b P l := fun pre a c _ hpre hrun _ => h pre a c hpre hrun

theorem always_of_never {Own : β → Prop} {Allow Bad : β → α → Prop} {l : List α} {b : β}
    (hallow : Each f b Allow l) (hnever : Never f b Bad l) (hown : Own b)
    (hgood : ∀ c a d, Own c → Allow c a → f c a = .ok d → ¬ Bad c a → Own d) : Always f b Own l := by
  intro pre c hpre hrun
  have hinv : pre.foldlM f b = .ok c ∧ Own c := by
    refine foldlM_invariant_prefix (fun xs y => xs.foldlM f b = .ok y ∧ Own y) hrun ⟨rfl, hown⟩ ?_
    rintro xs a post y z rfl ⟨hxs, hy⟩ hyz
    have hin : xs ++ [a] <+: l := by
      refine List.IsPrefix.trans ?_ hpre
      exact ⟨post, by simp⟩
    have hz : (xs ++ [a]).foldlM f b = .ok z :=
      foldlM_append_ok.mpr ⟨y, hxs, foldlM_cons_ok.mpr ⟨z, hyz, rfl⟩⟩
    exact ⟨hz, hgood y a z hy (hallow xs a y hin hxs) hyz (hnever xs a y z hin hxs hyz)⟩
  exact hinv.2

/-- A loop of allowed steps is always safe exactly when it never takes a bad one, if a bad step
leads to an unsafe state and any other one keeps an invariant that implies safety. -/
theorem always_iff_never (Own Base Safe : β → Prop) (Allow Bad : β → α → Prop) {l : List α} {b : β}
    (hallow : Each f b Allow l) (hown : Own b) (hbase : Base b) (hsafe : ∀ c, Own c → Safe c)
    (hkeep : ∀ c a d, Base c → f c a = .ok d → Base d)
    (hgood : ∀ c a d, Own c → Allow c a → f c a = .ok d → ¬ Bad c a → Own d)
    (hbad : ∀ c a d, Base c → Safe c → Allow c a → f c a = .ok d → Bad c a → ¬ Safe d) :
    Always f b Safe l ↔ Never f b Bad l := by
  constructor
  · intro h pre a c d hpre hrun hstep hc
    have hbefore : Base c :=
      foldlM_invariant Base hrun hbase fun x _ y z hy hyz => hkeep y x z hy hyz
    have hafter : (pre ++ [a]).foldlM f b = .ok d :=
      foldlM_append_ok.mpr ⟨c, hrun, foldlM_cons_ok.mpr ⟨d, hstep, rfl⟩⟩
    have hsafe' : Safe c := h pre c ((List.prefix_append pre [a]).trans hpre) hrun
    exact hbad c a d hbefore hsafe' (hallow pre a c hpre hrun) hstep hc (h _ d hpre hafter)
  · intro h pre c hpre hrun
    exact hsafe c (always_of_never hallow h hown hgood pre c hpre hrun)

theorem each_true (b : β) (l : List α) : Each f b (fun _ _ => True) l := fun _ _ _ _ _ => trivial

theorem each_nil (b : β) (P : β → α → Prop) : Each f b P [] := by
  intro pre a c hpre
  simp at hpre

theorem forall_step_concat {P : List α → α → Prop} {l : List α} {a : α}
    (h : ∀ pre d, pre ++ [d] <+: l → P pre d) (ha : P l a) :
    ∀ pre d, pre ++ [d] <+: l ++ [a] → P pre d := by
  intro pre d hpre
  rcases List.prefix_concat_iff.mp hpre with heq | hpre
  · obtain ⟨rfl, hd⟩ := List.append_inj' heq rfl
    rwa [List.singleton_inj.mp hd]
  · exact h pre d hpre

theorem each_concat {b : β} {P : β → α → Prop} {l : List α} {a : α} (h : Each f b P l)
    (ha : ∀ c, l.foldlM f b = .ok c → P c a) : Each f b P (l ++ [a]) := by
  have hsteps : ∀ pre d, pre ++ [d] <+: l → ∀ c, pre.foldlM f b = .ok c → P c d :=
    fun pre d hpre c hrun => h pre d c hpre hrun
  exact fun pre d c hpre hrun => forall_step_concat hsteps ha pre d hpre c hrun

theorem concat_prefix_pair {pre : List α} {a x y : α} (h : pre ++ [a] <+: [x, y]) :
    (pre = [] ∧ a = x) ∨ (pre = [x] ∧ a = y) := by
  rcases List.prefix_concat_iff.mp (show pre ++ [a] <+: [x] ++ [y] from h) with heq | hpre
  · obtain ⟨hpre, ha⟩ := List.append_inj' heq rfl
    exact .inr ⟨hpre, List.singleton_inj.mp ha⟩
  · left
    rcases List.prefix_concat_iff.mp (show pre ++ [a] <+: [] ++ [x] from hpre) with heq | hnil
    · obtain ⟨hpre, ha⟩ := List.append_inj' heq rfl
      exact ⟨hpre, List.singleton_inj.mp ha⟩
    · simp at hnil

end ExceptFold
