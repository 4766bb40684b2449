import Mathlib.Data.Int.Notation
import Mathlib.Data.List.Basic

/-! # JSON values: the documents of a request and what a reader asks of them -/
namespace JsonValues

/-- An unsigned or a signed 64-bit integer, or a float by its bits. -/
inductive Number where
  | posInt (n : UInt64)
  | negInt (n : Int64)
  | float (bits : UInt64)
  deriving DecidableEq, Repr

inductive Value where
  | null
  | bool (b : Bool)
  | number (n : Number)
  | string (s : String)
  | array (items : List Value)
  | object (members : List (String × Value))

namespace Value

def asObject : Value → Option (List (String × Value))
  | .object members => some members
  | _ => none

/-- A member of an object; any other value has none. -/
def get (v : Value) (key : String) : Option Value := v.asObject.bind fun members => members.lookup key

def containsKey (v : Value) (key : String) : Bool := (v.get key).isSome

def isNull : Value → Bool
  | .null => true
  | _ => false

def asStr : Value → Option String
  | .string s => some s
  | _ => none

def asBool : Value → Option Bool
  | .bool b => some b
  | _ => none

/-- An integer that an `i64` holds. -/
def asI64 : Value → Option Int64
  | .number (.posInt n) =>
    if n.toNat ≤ 9223372036854775807 then some (Int64.ofNat n.toNat) else none
  | .number (.negInt n) => some n
  | _ => none

/-- The integer a number is. -/
def integer : Value → Option ℤ
  | .number (.posInt n) => some n.toNat
  | .number (.negInt n) => some n.toInt
  | _ => none

/-- A number that an `i64` holds is read as the integer it is. -/
theorem asI64_of_integer {v : Value} {z : ℤ} (h : v.integer = some z)
    (hle : z ≤ 9223372036854775807) :
    ∃ n : Int64, v.asI64 = some n ∧ n.toInt = z := by
  cases v with
  | number number =>
    cases number with
    | posInt n =>
      obtain rfl := Option.some.inj h
      have hn : n.toNat ≤ 9223372036854775807 := by omega
      exact ⟨Int64.ofNat n.toNat, if_pos hn, Int64.toInt_ofNat_of_lt (by omega)⟩
    | negInt n => exact ⟨n, rfl, Option.some.inj h⟩
    | float bits => cases h
  | null => cases h
  | bool b => cases h
  | string s => cases h
  | array items => cases h
  | object members => cases h

end Value

end JsonValues
