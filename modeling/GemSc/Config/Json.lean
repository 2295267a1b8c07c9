import Mathlib

/-! The JSON values of the configuration files and the accesses the factory makes to
them, with the exceptions these throw. -/

namespace GemSc

/-- The members of an object stand in the order of its `std::map`. -/
inductive Json
  | null
  | bool (b : Bool)
  | int (n : ℤ)
  | float (x : ℚ)
  | string (s : String)
  | array (elements : List Json)
  | object (members : List (String × Json))

/-- What ends a call before it returns: an exception (by its number, for the JSON type
errors), a null pointer dereference, a fault of a nested call, and running out of fuel. -/
inductive Fault
  | typeError (id : ℕ)
  | parseError
  | cannotOpen (file : String)
  | nullDeref
  | nested (fault : Fault)
  | outOfFuel
  deriving DecidableEq

namespace Json

def isObject : Json → Bool
  | object _ => true
  | _ => false

/-- `j.contains(key)`: false on anything but an object. -/
def contains (key : String) : Json → Bool
  | object members => (members.lookup key).isSome
  | _ => false

/-- `j[key]` on a non-const value. A missing key, or a null value, gives null. -/
def index (key : String) : Json → Except Fault Json
  | object members => .ok ((members.lookup key).getD null)
  | null => .ok null
  | _ => .error (.typeError 305)

/-- What `for (auto& x : j)` visits. -/
def elements : Json → List Json
  | null => []
  | array xs => xs
  | object members => members.map (·.2)
  | j => [j]

/-- What `for (auto& [key, value] : j.items())` visits. -/
def items : Json → List (String × Json)
  | null => []
  | array xs => xs.mapIdx fun i x => (toString i, x)
  | object members => members
  | j => [("", j)]

def entries (key : String) (cfg : Json) : List Json :=
  match cfg.index key with
  | .ok j => j.elements
  | .error _ => []

def getString : Json → Except Fault String
  | string s => .ok s
  | _ => .error (.typeError 302)

/-- `static_cast<int>` of an integer: two's complement on 32 bits. -/
def castInt (n : ℤ) : ℤ := if n % 2 ^ 32 < 2 ^ 31 then n % 2 ^ 32 else n % 2 ^ 32 - 2 ^ 32

/-- `static_cast` of a floating-point number to an integer drops the fraction. The cast of a number
outside the integer type is undefined and not modelled: `getInt` and `getSize` wrap it. -/
def truncate (x : ℚ) : ℤ := if 0 ≤ x then ⌊x⌋ else ⌈x⌉

def getInt : Json → Except Fault ℤ
  | int n => .ok (castInt n)
  | float x => .ok (castInt (truncate x))
  | bool b => .ok (if b then 1 else 0)
  | _ => .error (.typeError 302)

/-- `get<size_t>()`, which unlike `get<int>()` refuses a boolean. -/
def getSize : Json → Except Fault ℕ
  | int n => .ok (n % 2 ^ 64).toNat
  | float x => .ok (truncate x % 2 ^ 64).toNat
  | _ => .error (.typeError 302)

/-- `j.value(key, default)`, with the conversion of the type of the default. -/
def value {α : Type} (get : Json → Except Fault α) (key : String) (default : α) :
    Json → Except Fault α
  | object members => match members.lookup key with
    | some j => get j
    | none => .ok default
  | _ => .error (.typeError 306)

def getSizes (j : Json) : Except Fault (List ℕ) := j.elements.mapM getSize

def getStrings (j : Json) : Except Fault (List String) := j.elements.mapM getString

theorem getString_eq_ok {j : Json} {s : String} : j.getString = .ok s ↔ j = .string s := by
  cases j <;> simp [getString]

end Json
end GemSc
