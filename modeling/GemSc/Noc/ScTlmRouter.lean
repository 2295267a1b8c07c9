import GemSc.Lib.Handshake
import GemSc.Lib.LoopFrame

/-! The SystemC router: five ports to its neighbours, each with a buffer and a handshake. What a
process writes to a signal is read from the next clock edge on. -/

namespace GemSc
open Function

inductive Direction
  | north
  | east
  | south
  | west
  | localPort
  deriving DecidableEq

def Direction.all : List Direction := [.north, .east, .south, .west, .localPort]

structure Inputs (F : Type*) where
  reqIn : Direction → Bool
  flitIn : Direction → F
  ackOut : Direction → Bool

structure OutPort (F : Type*) where
  outputBuffer : List F
  reqOut : Signal Bool
  flitOut : Signal F

/-- A router at its coordinates, which the source reads off single digits of its name. -/
structure ScTlmRouter (F : Type*) where
  currX : UInt32
  currY : UInt32
  out : Direction → OutPort F
  ackIn : Direction → Signal Bool

namespace OutPort
variable {F : Type*}

def push (flit : F) (p : OutPort F) : OutPort F :=
  { p with outputBuffer := p.outputBuffer ++ [flit] }

/-- The body of the loop of `switching_process`, and the flit that it pops. -/
def switch (ackOut : Bool) (p : OutPort F) : OutPort F × Option F :=
  match p.outputBuffer with
  | [] => ({ p with reqOut := p.reqOut.write false }, none)
  | flit :: rest =>
    if !p.reqOut.value then
      let offered := { p with reqOut := p.reqOut.write true, flitOut := p.flitOut.write flit }
      if ackOut then
        ({ offered with outputBuffer := rest, reqOut := offered.reqOut.write false }, some flit)
      else (offered, none)
    else ({ p with reqOut := p.reqOut.write false }, none)

def commit (p : OutPort F) : OutPort F :=
  { p with reqOut := p.reqOut.update, flitOut := p.flitOut.update }

end OutPort

namespace ScTlmRouter
variable {F : Type*} (header : F → UInt64)

/-- `compute_route` of the router at `(currX, currY)`; `header` is the field of that name. -/
def computeRoute (currX currY : UInt32) (flit : F) : Direction :=
  let destAddr := (header flit &&& 0xFFFF).toUInt32
  let destX := destAddr % 4
  let destY := destAddr / 4
  if currX ≠ destX then (if destX > currX then .east else .west)
  else if currY ≠ destY then (if destY > currY then .south else .north)
  else .localPort

/-- The body of the loop of `routing_process`, with the flits accepted so far. -/
def routeDir (inputs : Inputs F) (s : ScTlmRouter F × List (Direction × F)) (dir : Direction) :
    ScTlmRouter F × List (Direction × F) :=
  let (r, accepted) := s
  if inputs.reqIn dir && !(r.ackIn dir).value then
    let flit := inputs.flitIn dir
    let outDir := computeRoute header r.currX r.currY flit
    ({ r with
        out := update r.out outDir ((r.out outDir).push flit)
        ackIn := update r.ackIn dir ((r.ackIn dir).write true) },
      accepted ++ [(dir, flit)])
  else ({ r with ackIn := update r.ackIn dir ((r.ackIn dir).write false) }, accepted)

/-- The router after `routing_process`, and the flits that it accepted. -/
def routingProcess (inputs : Inputs F) (r : ScTlmRouter F) :
    ScTlmRouter F × List (Direction × F) :=
  Direction.all.foldl (routeDir header inputs) (r, [])

/-- The body of the loop of `switching_process`, with the flits popped so far. -/
def switchDir (inputs : Inputs F) (s : ScTlmRouter F × List (Direction × F)) (outDir : Direction) :
    ScTlmRouter F × List (Direction × F) :=
  let (r, popped) := s
  let port := (r.out outDir).switch (inputs.ackOut outDir)
  ({ r with out := update r.out outDir port.1 },
    popped ++ (port.2.map fun flit => (outDir, flit)).toList)

/-- The router after `switching_process`, and the flits that it popped. -/
def switchingProcess (inputs : Inputs F) (r : ScTlmRouter F) :
    ScTlmRouter F × List (Direction × F) :=
  Direction.all.foldl (switchDir inputs) (r, [])

/-- The end of a clock edge: what was written to the signals takes effect. -/
def commit (r : ScTlmRouter F) : ScTlmRouter F :=
  { r with out := fun d => (r.out d).commit, ackIn := fun d => (r.ackIn d).update }

def new (currX currY : UInt32) (flit : F) : ScTlmRouter F where
  currX := currX
  currY := currY
  out := fun _ => ⟨[], .init false, .init flit⟩
  ackIn := fun _ => .init false

def along (d : Direction) (flits : List (Direction × F)) : List F :=
  (flits.filter fun f => f.1 = d).map Prod.snd

def accepts (inputs : Inputs F) (r : ScTlmRouter F) (d : Direction) : Bool :=
  inputs.reqIn d && !(r.ackIn d).value

def routedTo (r : ScTlmRouter F) (k : Direction) (flits : List (Direction × F)) : List F :=
  (flits.filter fun f => computeRoute header r.currX r.currY f.2 = k).map Prod.snd

variable {header} {inputs : Inputs F} {r : ScTlmRouter F} {s : ScTlmRouter F × List (Direction × F)}
  {ds : List Direction}

theorem along_append (d : Direction) (fs gs : List (Direction × F)) :
    along d (fs ++ gs) = along d fs ++ along d gs := by
  unfold along
  rw [List.filter_append, List.map_append]

theorem along_singleton (d : Direction) (f : Direction × F) :
    along d [f] = if f.1 = d then [f.2] else [] := by
  unfold along
  by_cases h : f.1 = d <;> simp [h]

theorem along_concat (d : Direction) (fs : List (Direction × F)) (dir : Direction) (flit : F) :
    along d (fs ++ [(dir, flit)]) = along d fs ++ if dir = d then [flit] else [] := by
  rw [along_append, along_singleton]

theorem routedTo_concat (k : Direction) (fs : List (Direction × F)) (dir : Direction) (flit : F) :
    r.routedTo header k (fs ++ [(dir, flit)]) = r.routedTo header k fs ++
      if computeRoute header r.currX r.currY flit = k then [flit] else [] := by
  unfold routedTo
  rw [List.filter_append, List.map_append]
  by_cases hk : computeRoute header r.currX r.currY flit = k <;> simp [hk]

theorem nodup_all : Direction.all.Nodup := by decide

theorem mem_all (d : Direction) : d ∈ Direction.all := by
  cases d <;> decide

variable (header inputs r ds) in
structure Routed (s : ScTlmRouter F × List (Direction × F)) : Prop where
  currX : s.1.currX = r.currX
  currY : s.1.currY = r.currY
  ackIn : ∀ d, s.1.ackIn d = if d ∈ ds then (r.ackIn d).write (r.accepts inputs d) else r.ackIn d
  out : ∀ k, s.1.out k =
    { r.out k with outputBuffer := (r.out k).outputBuffer ++ r.routedTo header k s.2 }
  accepted : ∀ d, along d s.2 = if d ∈ ds ∧ r.accepts inputs d then [inputs.flitIn d] else []

theorem routed_nil : Routed header inputs r [] (r, []) where
  currX := rfl
  currY := rfl
  ackIn := fun d => (if_neg List.not_mem_nil).symm
  out := fun k => by
    change r.out k = { r.out k with outputBuffer := (r.out k).outputBuffer ++ [] }
    rw [List.append_nil]
  accepted := fun d => (if_neg fun h => List.not_mem_nil h.1).symm

theorem Routed.routeDir (hs : Routed header inputs r ds s) {dir : Direction} (hdir : dir ∉ ds) :
    Routed header inputs r (ds ++ [dir]) (routeDir header inputs s dir) := by
  have hack : s.1.ackIn dir = r.ackIn dir := (hs.ackIn dir).trans (if_neg hdir)
  have hmem : ∀ d, d ∈ ds ++ [dir] ↔ d ∈ ds ∨ d = dir := fun d => by simp
  have hwritten : ∀ b d, r.accepts inputs dir = b →
      update s.1.ackIn dir ((s.1.ackIn dir).write b) d =
        if d ∈ ds ++ [dir] then (r.ackIn d).write (r.accepts inputs d) else r.ackIn d := by
    intro b d hb
    by_cases hd : d = dir
    · subst hd
      rw [update_self, if_pos ((hmem d).mpr (.inr rfl)), hack, hb]
    · rw [update_of_ne hd, hs.ackIn]
      simp only [hmem, hd, or_false]
  unfold ScTlmRouter.routeDir
  by_cases haccept : r.accepts inputs dir = true
  · have htest : (inputs.reqIn dir && !(s.1.ackIn dir).value) = true := by rwa [hack]
    simp only [htest, if_true]
    refine ⟨hs.currX, hs.currY, fun d => hwritten true d haccept, fun k => ?_, fun d => ?_⟩
    · change update s.1.out _ _ k = _
      rw [routedTo_concat, hs.currX, hs.currY]
      by_cases hk : computeRoute header r.currX r.currY (inputs.flitIn dir) = k
      · rw [hk, update_self, hs.out, if_pos rfl, ← List.append_assoc]
        rfl
      · rw [update_of_ne (Ne.symm hk), hs.out, if_neg hk, List.append_nil]
    · change along d (s.2 ++ [(dir, inputs.flitIn dir)]) = _
      rw [along_concat, hs.accepted]
      by_cases hd : dir = d
      · subst hd
        simp [hdir, haccept]
      · have hne : d ≠ dir := Ne.symm hd
        simp [hd, hne]
  · have htest : (inputs.reqIn dir && !(s.1.ackIn dir).value) = false := by
      rw [hack]
      exact Bool.eq_false_iff.mpr haccept
    simp only [htest, Bool.false_eq_true, if_false]
    refine ⟨hs.currX, hs.currY, fun d => hwritten false d (Bool.eq_false_iff.mpr haccept), hs.out,
      fun d => ?_⟩
    rw [hs.accepted]
    by_cases hd : d = dir
    · subst hd
      simp [hdir, haccept]
    · simp [hd]

theorem routed_routingProcess (header : F → UInt64) (inputs : Inputs F) (r : ScTlmRouter F) :
    Routed header inputs r Direction.all (r.routingProcess header inputs) :=
  LoopFrame.foldl_nodup nodup_all routed_nil fun _ _ _ hdir hs => hs.routeDir hdir

variable (inputs r ds) in
structure Switched (s : ScTlmRouter F × List (Direction × F)) : Prop where
  ackIn : s.1.ackIn = r.ackIn
  out : ∀ k, s.1.out k = if k ∈ ds then ((r.out k).switch (inputs.ackOut k)).1 else r.out k
  popped : ∀ k, along k s.2 =
    if k ∈ ds then ((r.out k).switch (inputs.ackOut k)).2.toList else []

theorem switched_nil : Switched inputs r [] (r, []) where
  ackIn := rfl
  out := fun _ => (if_neg List.not_mem_nil).symm
  popped := fun _ => (if_neg List.not_mem_nil).symm

theorem Switched.switchDir (hs : Switched inputs r ds s) {dir : Direction} (hdir : dir ∉ ds) :
    Switched inputs r (ds ++ [dir]) (switchDir inputs s dir) := by
  have hport : s.1.out dir = r.out dir := (hs.out dir).trans (if_neg hdir)
  have hmem : ∀ d, d ∈ ds ++ [dir] ↔ d ∈ ds ∨ d = dir := fun d => by simp
  unfold ScTlmRouter.switchDir
  refine ⟨hs.ackIn, fun k => ?_, fun k => ?_⟩
  · change update s.1.out dir _ k = _
    by_cases hk : k = dir
    · subst hk
      rw [update_self, hport, if_pos ((hmem k).mpr (.inr rfl))]
    · rw [update_of_ne hk, hs.out]
      simp only [hmem, hk, or_false]
  · change along k (s.2 ++ _) = _
    rw [along_append, hs.popped, hport]
    by_cases hk : k = dir
    · subst hk
      rw [if_neg hdir, if_pos ((hmem k).mpr (.inr rfl)), List.nil_append]
      cases ((r.out k).switch (inputs.ackOut k)).2 with
      | none => rfl
      | some flit => exact (along_singleton k (k, flit)).trans (if_pos rfl)
    · have hnone : along k ((((r.out dir).switch (inputs.ackOut dir)).2.map
          fun flit => (dir, flit)).toList) = [] := by
        cases ((r.out dir).switch (inputs.ackOut dir)).2 with
        | none => rfl
        | some flit => exact (along_singleton k (dir, flit)).trans (if_neg (Ne.symm hk))
      simp only [hnone, List.append_nil, hmem, hk, or_false]

theorem switched_switchingProcess (inputs : Inputs F) (r : ScTlmRouter F) :
    Switched inputs r Direction.all (r.switchingProcess inputs) :=
  LoopFrame.foldl_nodup nodup_all switched_nil fun _ _ _ hdir hs => hs.switchDir hdir

end ScTlmRouter
end GemSc
