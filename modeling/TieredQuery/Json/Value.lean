import TieredQuery.Dictionary

/-!
# JSON values

Numbers are integers of sixty-four bits, signed or unsigned, or doubles given by their bits. The
members of an object are listed in the order in which they are written; a value that was read
has its members in key order, which `Value.Canonical` states.
-/

namespace TieredQuery.Json

/-- An integer that fits into sixty-four bits, with or without a sign. -/
structure Integer where
  val : Int
  lower : -0x8000000000000000 ≤ val
  upper : val < 0x10000000000000000
deriving DecidableEq

namespace Integer

/-- The integer, if it fits. -/
def ofInt? (n : Int) : Option Integer :=
  if h : -0x8000000000000000 ≤ n ∧ n < 0x10000000000000000 then some ⟨n, h.1, h.2⟩ else none

/-- An unsigned word as an integer. -/
def ofWord (w : UInt64) : Integer :=
  ⟨w.toNat, by omega, by have := w.toNat_lt; omega⟩

/-- A word keeps its value as an integer. -/
@[simp] theorem val_ofWord (w : UInt64) : (ofWord w).val = w.toNat := rfl

/-- The value of an integer fits. -/
theorem ofInt?_val (n : Integer) : ofInt? n.val = some n := dif_pos ⟨n.lower, n.upper⟩

end Integer

/-- A JSON value. -/
inductive Value where
  | null
  | bool (b : Bool)
  | int (n : Integer)
  | float (bits : UInt64)
  | str (s : String)
  | arr (items : List Value)
  | obj (members : List (String × Value))

namespace Value

instance : Inhabited Value := ⟨null⟩

/-- An unsigned word as a value. -/
def word (w : UInt64) : Value := .int (.ofWord w)

/-- An object of a dictionary. -/
def ofDictionary (d : Dictionary Value) : Value := .obj d.entries

mutual

/-- Whether the keys of every object ascend. -/
def Canonical : Value → Prop
  | .arr items => CanonicalItems items
  | .obj members => Ascending members ∧ CanonicalMembers members
  | _ => True

/-- Whether all items are canonical. -/
def CanonicalItems : List Value → Prop
  | [] => True
  | v :: rest => v.Canonical ∧ CanonicalItems rest

/-- Whether the values of all members are canonical. -/
def CanonicalMembers : List (String × Value) → Prop
  | [] => True
  | (_, v) :: rest => v.Canonical ∧ CanonicalMembers rest

end

mutual

/-- How deep arrays and objects are nested; a scalar has depth zero. -/
def depth : Value → Nat
  | .arr items => depthItems items + 1
  | .obj members => depthMembers members + 1
  | _ => 0

/-- The greatest depth of some items. -/
def depthItems : List Value → Nat
  | [] => 0
  | v :: rest => max v.depth (depthItems rest)

/-- The greatest depth of the values of some members. -/
def depthMembers : List (String × Value) → Nat
  | [] => 0
  | (_, v) :: rest => max v.depth (depthMembers rest)

end

mutual

/-- Whether all numbers are integers. -/
def Integral : Value → Prop
  | .float _ => False
  | .arr items => IntegralItems items
  | .obj members => IntegralMembers members
  | _ => True

/-- Whether all numbers of some items are integers. -/
def IntegralItems : List Value → Prop
  | [] => True
  | v :: rest => v.Integral ∧ IntegralItems rest

/-- Whether all numbers of some members are integers. -/
def IntegralMembers : List (String × Value) → Prop
  | [] => True
  | (_, v) :: rest => v.Integral ∧ IntegralMembers rest

end

end Value
end TieredQuery.Json
