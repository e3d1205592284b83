import CodeAtlas.Json.Value
import Std.Data.ExtTreeMap

/-!
# Reading records

A record is read from an object by the names of its fields, or from an array by their places. Fields that
the record does not have are passed over in an object; an array must not be longer than the record.

The readers `asString?`, `asNat?` and so on take a value of their kind only; nothing is converted.
-/

namespace CodeAtlas.Json

/-! ## Values of one kind -/

def asString? : Json → Option String
  | .string s => some s
  | _ => none

def asBool? : Json → Option Bool
  | .bool b => some b
  | _ => none

/-- A natural number below a bound. -/
def asNat? (bound : Nat) : Json → Option Nat
  | .int i => if 0 ≤ i ∧ i < bound then some i.toNat else none
  | _ => none

/-- The numbers of 16, 32 and 64 bits. -/
def asNat16? : Json → Option Nat := asNat? UInt16.size

def asNat32? : Json → Option Nat := asNat? UInt32.size

def asNat64? : Json → Option Nat := asNat? UInt64.size

/-- A list of values that are each read by `read`. -/
def asList? {α : Type} (read : Json → Option α) : Json → Option (List α)
  | .array items => items.mapM read
  | _ => none

/-- A map from names to values that are each read by `read`. -/
def asMap? {α : Type} (read : Json → Option α) : Json → Option (Std.ExtTreeMap String α)
  | .object fields =>
    (fields.mapM fun f : String × Json => (read f.2).map fun a => (f.1, a)).map fun entries =>
      entries.foldl (fun m e => m.insert e.1 e.2) (∅ : Std.ExtTreeMap String α)
  | _ => none

/-- One of some words; a word may also be the only field of an object, with null in it. -/
def asWord? {α : Type} (words : List α) (word : α → String) : Json → Option α
  | .string s => words.find? fun a => word a == s
  | .object [(s, .null)] => words.find? fun a => word a == s
  | _ => none

/-- Write a map. -/
def ofMap {α : Type} (write : α → Json) (m : Std.ExtTreeMap String α) : Json :=
  .object (m.toList.map fun e => (e.1, write e.2))

/-! ## Records -/

/-- The fields of a record that is being read. -/
inductive Record where
  | named (fields : List (String × Json))
  | listed (items : List Json)

/-- The fields of a value that is to be a record of `size` fields. -/
def record? (size : Nat) : Json → Option Record
  | .object fields => some (.named fields)
  | .array items => if items.length ≤ size then some (.listed items) else none
  | _ => none

namespace Record

/-- The value of a field, by its place and its name. -/
def item? (r : Record) (place : Nat) (name : String) : Option Json :=
  match r with
  | named fields => Json.field? name (.object fields)
  | listed items => items[place]?

variable {α : Type}

/-- A field that must be there. -/
def required (r : Record) (place : Nat) (name : String) (read : Json → Option α) : Option α :=
  (r.item? place name).bind read

/-- A field that has a value of its own where it is missing. -/
def defaulted (r : Record) (place : Nat) (name : String) (default : α) (read : Json → Option α) :
    Option α :=
  match r.item? place name with
  | some v => read v
  | none => some default

/-- A field that may be null, and in an object may also be missing. -/
def optional (r : Record) (place : Nat) (name : String) (read : Json → Option α) :
    Option (Option α) :=
  match r, r.item? place name with
  | _, some .null => some none
  | _, some v => (read v).map some
  | named _, none => some none
  | listed _, none => none

end Record

end CodeAtlas.Json
