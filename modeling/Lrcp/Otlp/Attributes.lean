import Lrcp.Wal.Crc32
import Mathlib.Algebra.Group.Int.Defs
import Mathlib.Algebra.Group.Nat.Defs

namespace Lrcp.Otlp

open Lrcp.Wal (Bytes)

/-- The `value` oneof of an OTLP `AnyValue`. A double is given by its 64 bits. -/
inductive AnyValue
  | unset
  | string (value : String)
  | bool (value : Bool)
  | int (value : Int64)
  | double (bits : UInt64)
  | bytes (value : Bytes)
  | array (values : List AnyValue)
  | kvlist (values : List (String × AnyValue))

abbrev KeyValue := String × AnyValue

/-- The Python values that attributes are turned into. A dictionary lists its
items in insertion order. -/
inductive PyValue
  | str (value : String)
  | bool (value : Bool)
  | int (value : Int)
  | float (bits : UInt64)
  | list (items : List PyValue)
  | dict (items : List (String × PyValue))

/-- `d[key] = value`: a key that is there already keeps its place. -/
def dictSet {α : Type} (key : String) (value : α) : List (String × α) → List (String × α)
  | [] => [(key, value)]
  | (k, v) :: rest => if k = key then (k, value) :: rest else (k, v) :: dictSet key value rest

/-- A dictionary comprehension: later items overwrite earlier ones with their key. -/
def dictOf {α : Type} (items : List (String × α)) : List (String × α) :=
  items.foldl (fun d kv => dictSet kv.1 kv.2 d) []

/-- `d.get(key)` -/
def dictGet {α : Type} (key : String) (d : List (String × α)) : Option α :=
  (d.find? fun kv => kv.1 = key).map Prod.snd

def hexDigits (value : Bytes) : List Char :=
  value.flatMap fun b => [Nat.digitChar (b.toNat / 16), Nat.digitChar (b.toNat % 16)]

/-- `_hex`: lowercase hexadecimal, the empty string for no bytes. -/
def hex (value : Bytes) : String := if value.isEmpty then "" else String.ofList (hexDigits value)

mutual

/-- `_attribute_value` -/
def attributeValue : AnyValue → PyValue
  | .unset => .str ""
  | .string s => .str s
  | .bool b => .bool b
  | .int i => .int i.toInt
  | .double bits => .float bits
  | .bytes b => .str (String.ofList (hexDigits b))
  | .array values => .list (attributeItems values)
  | .kvlist values => .dict (dictOf (attributePairs values))

def attributeItems : List AnyValue → List PyValue
  | [] => []
  | v :: vs => attributeValue v :: attributeItems vs

def attributePairs : List (String × AnyValue) → List (String × PyValue)
  | [] => []
  | (key, v) :: kvs => (key, attributeValue v) :: attributePairs kvs

end

/-- `_attributes` -/
def attributes (attrs : List KeyValue) : List (String × PyValue) := dictOf (attributePairs attrs)

/-- The truth value Python gives to a value: zero, of either sign for a float,
and everything empty is false. -/
def PyValue.truthy : PyValue → Bool
  | .str s => s ≠ ""
  | .bool b => b
  | .int i => i ≠ 0
  | .float bits => bits ≠ 0 ∧ bits ≠ 0x8000000000000000
  | .list items => ¬items.isEmpty
  | .dict items => ¬items.isEmpty

/-- `x or y` on optional values. -/
def orElse (x y : Option PyValue) : Option PyValue :=
  match x with
  | some v => if v.truthy then some v else y
  | none => y

/-- `s or None` -/
def orNone (s : String) : Option String := if s = "" then none else some s

/-- Two attributes of one key: the later value, in the earlier place. -/
example : dictOf [("a", 1), ("b", 2), ("a", 3)] = [("a", 3), ("b", 2)] := by decide

end Lrcp.Otlp
