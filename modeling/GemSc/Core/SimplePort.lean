import GemSc.Lib.Pairing

/-! `SimplePort` and `PortPair`. The `SimplePort` part of every port is kept in a
table from ports to their pair pointer, side and delay. -/

namespace GemSc

structure PortPair (P : Type*) where
  sideA : P
  sideB : P
  deriving DecidableEq

structure SimplePort (P : Type*) where
  pair : Option (PortPair P) := none
  mySide : ℕ := 0
  delayCycles : ℤ := 0
  deriving DecidableEq

namespace SimplePort
variable {P : Type*}

def bind (s : SimplePort P) (p : PortPair P) (side : ℕ) : SimplePort P :=
  { s with pair := some p, mySide := side }

def setDelay (s : SimplePort P) (d : ℤ) : SimplePort P := { s with delayCycles := d }

/-- `SimplePort::send`: the port whose `recv` gets the packet; with no pair `send` fails. -/
def sendTarget (s : SimplePort P) : Option P :=
  s.pair.map fun p => if s.mySide = 0 then p.sideB else p.sideA

@[simp] theorem sendTarget_setDelay (s : SimplePort P) (d : ℤ) :
    (s.setDelay d).sendTarget = s.sendTarget := rfl

end SimplePort

namespace PortPair
variable {P : Type*} [DecidableEq P]

/-- The constructor of `PortPair`: bind `a` as side 0, then `b` as side 1. -/
def construct (ports : P → SimplePort P) (a b : P) : P → SimplePort P :=
  let boundA := Function.update ports a ((ports a).bind ⟨a, b⟩ 0)
  Function.update boundA b ((boundA b).bind ⟨a, b⟩ 1)

def constructAll (ports : P → SimplePort P) (l : List (P × P)) : P → SimplePort P :=
  l.foldl (fun ports c => construct ports c.1 c.2) ports

theorem sendTarget_construct (ports : P → SimplePort P) (a b : P) :
    (fun p => (construct ports a b p).sendTarget) =
      Pairing.connect (fun p => (ports p).sendTarget) a b := by
  funext p
  by_cases hb : p = b
  · subst hb
    simp [construct, Pairing.connect, SimplePort.sendTarget, SimplePort.bind]
  · by_cases ha : p = a
    · subst ha
      simp [construct, Pairing.connect, hb, SimplePort.sendTarget, SimplePort.bind]
    · simp [construct, Pairing.connect, ha, hb]

theorem sendTarget_constructAll (ports : P → SimplePort P) (l : List (P × P)) :
    (fun p => (constructAll ports l p).sendTarget) =
      Pairing.connectAll (fun p => (ports p).sendTarget) l := by
  induction l generalizing ports with
  | nil => rfl
  | cons c l ih =>
    have h := ih (construct ports c.1 c.2)
    rwa [sendTarget_construct] at h

def Bidirectional (ports : P → SimplePort P) : Prop :=
  ∀ p q, (ports p).sendTarget = some q → (ports q).sendTarget = some p

/-- On unbound ports, a sequence of constructions leaves every binding two-way exactly
when no port is bound again without the port it was bound to. -/
theorem bidirectional_iff_no_stale_end (ports : P → SimplePort P)
    (hfresh : ∀ p, (ports p).pair = none) (l : List (P × P)) :
    Bidirectional (constructAll ports l) ↔
      ∀ pre a b post, l = pre ++ (a, b) :: post →
        ((∃ c ∈ post, a = c.1 ∨ a = c.2) ↔ (∃ c ∈ post, b = c.1 ∨ b = c.2)) := by
  have hnone : (fun p => (ports p).sendTarget) = fun _ => none := by
    funext p
    simp [SimplePort.sendTarget, hfresh p]
  have htarget := sendTarget_constructAll ports l
  rw [hnone] at htarget
  have hsym := Pairing.symmetric_connectAll_iff l
  rw [← htarget] at hsym
  exact hsym

theorem bidirectional_iff_no_stale_end_demo :
    Bidirectional (constructAll (fun _ : ℕ => {}) [(0, 1), (2, 3)]) := by
  refine (bidirectional_iff_no_stale_end _ (fun _ => rfl) _).mpr ?_
  intro pre a b post h
  rcases pre with _ | ⟨x, _ | ⟨y, pre⟩⟩
  · obtain ⟨⟨rfl, rfl⟩, rfl⟩ := by simpa using h
    decide
  · obtain ⟨_, ⟨rfl, rfl⟩, rfl⟩ := by simpa using h
    decide
  · simp at h

/-- Two sources bound to one destination: port 0 still delivers to 2, which answers port 1. -/
theorem fan_in_not_bidirectional :
    ¬ Bidirectional (constructAll (fun _ : ℕ => {}) [(0, 2), (1, 2)]) := by
  intro h
  have h20 := h 0 2 (by decide)
  exact absurd h20 (by decide)

end PortPair
end GemSc
