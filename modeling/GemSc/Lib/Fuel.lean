import GemSc.Lib.ExceptFold

/-! Recursion bounded by fuel, as families of `Except` values indexed by the fuel, where one
error says that it ran out. A value that is not this error stays the same with more fuel. -/

namespace Fuel
universe u
variable {ε α : Type*} {β γ : Type u} {out : ε}

/-- `y` is what `x` is, if `x` did not run out of fuel. -/
def Below (out : ε) (x y : Except ε β) : Prop := x ≠ .error out → y = x

theorem Below.refl (x : Except ε β) : Below out x x := fun _ => rfl

theorem Below.exhausted (y : Except ε β) : Below out (.error out) y := fun h => absurd rfl h

theorem Below.trans {x y z : Except ε β} (hxy : Below out x y) (hyz : Below out y z) :
    Below out x z := by
  intro hx
  have hy : y = x := hxy hx
  exact (hyz (hy ▸ hx)).trans hy

theorem Below.eq_ok {x y : Except ε β} (h : Below out x y) {b : β} (hx : x = .ok b) :
    y = .ok b := (h (by rw [hx]; exact nofun)).trans hx

theorem Below.bind {x y : Except ε β} {f g : β → Except ε γ} (hxy : Below out x y)
    (hfg : ∀ b, x = .ok b → Below out (f b) (g b)) : Below out (x >>= f) (y >>= g) := by
  intro h
  cases x with
  | error e =>
    have hne : (.error e : Except ε β) ≠ .error out :=
      fun he => h (congrArg Except.error (Except.error.inj he))
    rw [hxy hne]
    rfl
  | ok b =>
    have hy : y = .ok b := hxy.eq_ok rfl
    rw [hy]
    exact hfg b rfl h

theorem Below.mapM {f g : α → Except ε β} {l : List α} (h : ∀ a ∈ l, Below out (f a) (g a)) :
    Below out (l.mapM f) (l.mapM g) := by
  induction l with
  | nil => exact .refl _
  | cons a l ih =>
    rw [List.mapM_cons, List.mapM_cons]
    have hrest := ih fun a' ha' => h a' (List.mem_cons_of_mem _ ha')
    exact (h a (List.mem_cons_self ..)).bind fun b _ => hrest.bind fun bs _ => .refl _

theorem Below.mapM_forM {δ : Type*} {f : α → Except ε β} {steps : α → List δ}
    {g : δ → Except ε PUnit} {l : List α}
    (h : ∀ a ∈ l, Below out (f a >>= fun _ => pure ⟨⟩) (forM (steps a) g)) :
    Below out (l.mapM f >>= fun _ => pure ⟨⟩) (forM (l.flatMap steps) g) := by
  induction l with
  | nil => exact .refl _
  | cons a l ih =>
    have hrest := ih fun a' ha' => h a' (List.mem_cons_of_mem _ ha')
    have hhead := (h a (List.mem_cons_self ..)).bind fun _ _ => hrest
    rw [List.mapM_cons, List.flatMap_cons, List.forM_append]
    simpa only [bind_assoc, pure_bind] using hhead

def Steady (out : ε) (f : ℕ → Except ε β) : Prop := ∀ n, Below out (f n) (f (n + 1))

def Halts (out : ε) (f : ℕ → Except ε β) : Prop := ∃ n, f n ≠ .error out

def Returns (f : ℕ → Except ε β) (b : β) : Prop := ∃ n, f n = .ok b

section
variable {f : ℕ → Except ε β}

theorem Steady.le (hf : Steady out f) {n m : ℕ} (h : n ≤ m) : Below out (f n) (f m) := by
  induction m, h using Nat.le_induction with
  | base => exact .refl _
  | succ m _ ih => exact ih.trans (hf m)

theorem Steady.bind {g : β → ℕ → Except ε γ} (hf : Steady out f) (hg : ∀ b, Steady out (g b)) :
    Steady out fun n => f n >>= fun b => g b n :=
  fun n => (hf n).bind fun b _ => hg b n

theorem Steady.mapM {g : α → ℕ → Except ε β} (hg : ∀ a, Steady out (g a)) (l : List α) :
    Steady out fun n => l.mapM fun a => g a n :=
  fun n => .mapM fun a _ => hg a n

theorem Returns.halts {b : β} (h : Returns f b) : Halts out f := by
  obtain ⟨n, hn⟩ := h
  refine ⟨n, ?_⟩
  rw [hn]
  exact nofun

theorem Returns.eventually (hf : Steady out f) {b : β} (h : Returns f b) :
    ∃ n, ∀ m, n ≤ m → f m = .ok b := by
  obtain ⟨n, hn⟩ := h
  exact ⟨n, fun m hm => (hf.le hm).eq_ok hn⟩

theorem Returns.eq_ok_of_ne (hf : Steady out f) {b : β} (hb : Returns f b) {n : ℕ}
    (hn : f n ≠ .error out) : f n = .ok b := by
  obtain ⟨m, hm⟩ := hb
  have h₁ : f (max m n) = .ok b := (hf.le (Nat.le_max_left m n)).eq_ok hm
  have h₂ : f (max m n) = f n := hf.le (Nat.le_max_right m n) hn
  exact h₂.symm.trans h₁

theorem Returns.of_succ {b : β} (h : Returns (fun n => f (n + 1)) b) : Returns f b := by
  obtain ⟨n, hn⟩ := h
  exact ⟨n + 1, hn⟩

theorem Returns.bind {g : β → ℕ → Except ε γ} (hf : Steady out f) (hg : ∀ b, Steady out (g b))
    {b : β} {c : γ} (hb : Returns f b) (hc : Returns (g b) c) :
    Returns (fun n => f n >>= fun b => g b n) c := by
  obtain ⟨n, hn⟩ := hb
  obtain ⟨m, hm⟩ := hc
  have hfmax : f (max n m) = .ok b := (hf.le (Nat.le_max_left n m)).eq_ok hn
  have hgmax : g b (max n m) = .ok c := ((hg b).le (Nat.le_max_right n m)).eq_ok hm
  exact ⟨max n m, ExceptFold.bind_eq_ok.mpr ⟨b, hfmax, hgmax⟩⟩

theorem Returns.map (h : β → γ) {b : β} (hb : Returns f b) :
    Returns (fun n => f n >>= fun b => pure (h b)) (h b) := by
  obtain ⟨n, hn⟩ := hb
  exact ⟨n, ExceptFold.bind_pure_eq_ok.mpr ⟨b, hn, rfl⟩⟩

theorem Halts.of_succ (h : Halts out fun n => f (n + 1)) : Halts out f := by
  obtain ⟨n, hn⟩ := h
  exact ⟨n + 1, hn⟩

theorem Halts.bind {g : β → ℕ → Except ε γ} (hf : Steady out f) (hg : ∀ b, Steady out (g b))
    (h : Halts out f) (hnext : ∀ b, Returns f b → Halts out (g b)) :
    Halts out fun n => f n >>= fun b => g b n := by
  obtain ⟨n, hn⟩ := h
  cases hx : f n with
  | error e =>
    refine ⟨n, fun hout => ?_⟩
    have hbind : (f n >>= fun b => g b n) = .error out := hout
    rw [hx] at hn hbind
    exact hn (congrArg Except.error (Except.error.inj hbind))
  | ok b =>
    obtain ⟨m, hm⟩ := hnext b ⟨n, hx⟩
    refine ⟨max n m, ?_⟩
    have hfmax : f (max n m) = .ok b := (hf.le (Nat.le_max_left n m)).eq_ok hx
    have hgmax : g b (max n m) = g b m := (hg b).le (Nat.le_max_right n m) hm
    show f (max n m) >>= (fun b => g b (max n m)) ≠ .error out
    rw [hfmax]
    show g b (max n m) ≠ .error out
    rwa [hgmax]

end

theorem Returns.mapM {f : α → ℕ → Except ε β} (hf : ∀ a, Steady out (f a)) {l : List α}
    {bs : List β} (h : List.Forall₂ (fun a b => Returns (f a) b) l bs) :
    Returns (fun n => l.mapM fun a => f a n) bs := by
  induction h with
  | nil => exact ⟨0, rfl⟩
  | @cons a b l bs ha _ ih =>
    simp only [List.mapM_cons]
    exact ha.bind (hf a) (fun b => (Steady.mapM hf l).bind fun _ _ => .refl _) (ih.map (b :: ·))

theorem Halts.mapM {f : α → ℕ → Except ε β} (hf : ∀ a, Steady out (f a)) {l : List α}
    (h : ∀ pre a post, l = pre ++ a :: post → (∀ x ∈ pre, ∃ b, Returns (f x) b) →
      Halts out (f a)) : Halts out fun n => l.mapM fun a => f a n := by
  induction l with
  | nil => exact ⟨0, nofun⟩
  | cons a l ih =>
    have hhead : Halts out (f a) := h [] a l rfl (fun _ hx => by cases hx)
    simp only [List.mapM_cons]
    refine hhead.bind (hf a) (fun b => (Steady.mapM hf l).bind fun bs n => .refl _) ?_
    intro b hb
    have htail : Halts out fun n => l.mapM fun a => f a n := by
      apply ih
      rintro pre x post rfl hpre
      refine h (a :: pre) x post rfl ?_
      intro y hy
      rcases List.mem_cons.mp hy with rfl | hy
      · exact ⟨b, hb⟩
      · exact hpre y hy
    exact htail.bind (Steady.mapM hf l) (fun bs n => .refl _) fun bs _ => ⟨0, nofun⟩

end Fuel
