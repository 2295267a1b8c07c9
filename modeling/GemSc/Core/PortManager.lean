import GemSc.Core.Port
import GemSc.Core.SimplePort
import GemSc.Lib.Assignments

/-! `PortManager`: the ports of an object and the maps from labels to them. -/

namespace GemSc

/-- The ports of one direction with their label map, as the assignments made to it, the
newest first. A label is mapped to a port that carries it. -/
structure PortTable (P : Type) (label : P → String) where
  ports : List P := []
  byLabel : List (String × ℕ) := []
  labelled : ∀ l i, byLabel.lookup l = some i → ∃ p ∈ ports[i]?, label p = l ∧ l ≠ "" := by simp

namespace PortTable
variable {P : Type} {label : P → String}

theorem labelled_nil (l : String) (i : ℕ) (h : ([] : List (String × ℕ)).lookup l = some i) :
    ∃ p ∈ ([] : List P)[i]?, label p = l ∧ l ≠ "" := by
  simp at h

def push (t : PortTable P label) (p : P) : PortTable P label where
  ports := t.ports ++ [p]
  byLabel := if label p = "" then t.byLabel else (label p, t.ports.length) :: t.byLabel
  labelled := by
    have hold : ∀ l i, t.byLabel.lookup l = some i →
        ∃ q ∈ (t.ports ++ [p])[i]?, label q = l ∧ l ≠ "" := by
      intro l i h
      obtain ⟨q, hq, hl⟩ := t.labelled l i h
      have hi : i < t.ports.length := (List.getElem?_eq_some_iff.mp hq).1
      exact ⟨q, by rwa [List.getElem?_append_left hi], hl⟩
    intro l i h
    split at h
    · exact hold l i h
    · next hne =>
      rw [List.lookup_cons] at h
      split at h
      · next heq =>
        obtain rfl : t.ports.length = i := Option.some.inj h
        obtain rfl : l = label p := eq_of_beq heq
        exact ⟨p, by simp, rfl, hne⟩
      · exact hold l i h

theorem ports_push (t : PortTable P label) (p : P) : (t.push p).ports = t.ports ++ [p] := rfl

theorem lookup_push_self (t : PortTable P label) {p : P} {k : String} (hp : label p = k)
    (hk : k ≠ "") : (t.push p).byLabel.lookup k = some t.ports.length := by
  subst hp
  simp [push, hk]

theorem lookup_push_ne (t : PortTable P label) {p : P} {k l : String} (hp : label p = k)
    (h : l ≠ k) : (t.push p).byLabel.lookup l = t.byLabel.lookup l := by
  subst hp
  unfold push
  split
  · rfl
  · exact Assignments.lookup_ne h

end PortTable

structure PortManager where
  upstream : PortTable UpstreamPort UpstreamPort.label := {}
  downstream : PortTable DownstreamPort DownstreamPort.label := {}

namespace PortManager

def empty : PortManager := ⟨⟨[], [], PortTable.labelled_nil⟩, ⟨[], [], PortTable.labelled_nil⟩⟩

def addUpstreamPort (pm : PortManager) (inSizes priorities : List ℕ) (label : String) :
    PortManager :=
  let port := UpstreamPort.new pm.upstream.ports.length inSizes priorities label
  { pm with upstream := pm.upstream.push port }

def addDownstreamPort (pm : PortManager) (outSizes priorities : List ℕ) (label : String) :
    PortManager :=
  let port := DownstreamPort.new pm.downstream.ports.length outSizes priorities label
  { pm with downstream := pm.downstream.push port }

def addPort (pm : PortManager) (isUpstream : Bool) (sizes priorities : List ℕ) (label : String) :
    PortManager :=
  if isUpstream then pm.addUpstreamPort sizes priorities label
  else pm.addDownstreamPort sizes priorities label

def getUpstreamPort (pm : PortManager) (label : String) : Option ℕ :=
  pm.upstream.byLabel.lookup label

def getDownstreamPort (pm : PortManager) (label : String) : Option ℕ :=
  pm.downstream.byLabel.lookup label

def getPort (pm : PortManager) (isUpstream : Bool) (label : String) : Option ℕ :=
  if isUpstream then pm.getUpstreamPort label else pm.getDownstreamPort label

def labels (pm : PortManager) (isUpstream : Bool) : List String :=
  if isUpstream then pm.upstream.ports.map (·.label) else pm.downstream.ports.map (·.label)

variable {pm : PortManager} {up : Bool} {sizes pri : List ℕ} {l : String}

theorem labels_addPort_self : (pm.addPort up sizes pri l).labels up = pm.labels up ++ [l] := by
  cases up <;>
    simp [addPort, labels, addUpstreamPort, addDownstreamPort, PortTable.ports_push,
      UpstreamPort.new, DownstreamPort.new]

theorem labels_addPort_other {up' : Bool} (h : up' ≠ up) :
    (pm.addPort up sizes pri l).labels up' = pm.labels up' := by
  cases up <;> cases up' <;> first | exact absurd rfl h | rfl

theorem getPort_addPort_self (hl : l ≠ "") :
    (pm.addPort up sizes pri l).getPort up l = some (pm.labels up).length := by
  cases up
  · have hlen : (pm.labels false).length = pm.downstream.ports.length := List.length_map _
    rw [hlen]
    exact pm.downstream.lookup_push_self rfl hl
  · have hlen : (pm.labels true).length = pm.upstream.ports.length := List.length_map _
    rw [hlen]
    exact pm.upstream.lookup_push_self rfl hl

theorem getPort_addPort_other {up' : Bool} {l' : String} (h : up' ≠ up ∨ l' ≠ l) :
    (pm.addPort up sizes pri l).getPort up' l' = pm.getPort up' l' := by
  rcases h with h | h
  · cases up <;> cases up' <;> first | exact absurd rfl h | rfl
  · cases up <;> cases up'
    · exact pm.downstream.lookup_push_ne rfl h
    · rfl
    · rfl
    · exact pm.upstream.lookup_push_ne rfl h

theorem label_of_getPort {i : ℕ} (h : pm.getPort up l = some i) :
    (pm.labels up)[i]? = some l ∧ l ≠ "" := by
  cases up
  · obtain ⟨p, hp, hl, hne⟩ := pm.downstream.labelled l i h
    have hp : pm.downstream.ports[i]? = some p := hp
    exact ⟨by simp [labels, hp, hl], hne⟩
  · obtain ⟨p, hp, hl, hne⟩ := pm.upstream.labelled l i h
    have hp : pm.upstream.ports[i]? = some p := hp
    exact ⟨by simp [labels, hp, hl], hne⟩

end PortManager
end GemSc
