import Mathlib.Data.List.Basic

/-!
JSON documents as the program reads and writes them.
-/

namespace Relay.Text

/-- A `serde_json::Value`; of a number what `as_u64` says and how it is shown.
The fields of an object stand in the order of their names. -/
inductive JsonValue where
  | null
  | bool (b : Bool)
  | number (asU64 : Option Nat) (shown : String)
  | string (s : String)
  | array (items : List JsonValue)
  | object (fields : List (String × JsonValue))

/-- `value.get(name)`. -/
def JsonValue.get (value : JsonValue) (name : String) : Option JsonValue :=
  match value with
  | .object fields => (fields.find? fun field => field.1 == name).map Prod.snd
  | _ => none

def JsonValue.asArray : JsonValue → Option (List JsonValue)
  | .array items => some items
  | _ => none

def JsonValue.asString : JsonValue → Option String
  | .string s => some s
  | _ => none

def JsonValue.asBool : JsonValue → Option Bool
  | .bool b => some b
  | _ => none

/-- `if let Some(field) = value.get_mut(name)`. -/
def JsonValue.mapField (name : String) (f : JsonValue → JsonValue) : JsonValue → JsonValue
  | .object fields =>
      .object (fields.map fun field => if field.1 = name then (field.1, f field.2) else field)
  | value => value

/-- `if let Some(obj) = value.as_object_mut()`. -/
def JsonValue.mapObject (f : List (String × JsonValue) → List (String × JsonValue)) :
    JsonValue → JsonValue
  | .object fields => .object (f fields)
  | value => value

@[simp] theorem JsonValue.mapField_object (name : String) (f : JsonValue → JsonValue)
    (fields : List (String × JsonValue)) :
    (JsonValue.object fields).mapField name f =
      .object (fields.map fun field => if field.1 = name then (field.1, f field.2) else field) := rfl

@[simp] theorem JsonValue.mapObject_object
    (f : List (String × JsonValue) → List (String × JsonValue))
    (fields : List (String × JsonValue)) :
    (JsonValue.object fields).mapObject f = .object (f fields) := rfl

/-- One text, alone or as a list. -/
def JsonValue.IsText (value : JsonValue) (x : String) : Prop :=
  value = .string x ∨ value = .array [.string x]

end Relay.Text
