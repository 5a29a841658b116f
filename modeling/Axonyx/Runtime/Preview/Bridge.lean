import Axonyx.Ieee
import Axonyx.Runtime.Input.Decoders

/-! The preview's bridge between values and JSON: what becomes of a value that is written as
JSON and read back. A float comes back as a text. -/
namespace Axonyx.Runtime.Preview

open Axonyx.Core (AxValue AxFloat)
open Input (JsonValue Std previewValueToJson previewItemsToJson previewFieldsToJson)

variable {F : Type} [Float64 F]

section Bridge

variable (std : Std F)

mutual

/-- `Number::as_i64` knows whole numbers of 64 bits only. -/
def previewJsonToValue : JsonValue F → AxValue F
  | .null => .null
  | .bool value => .bool value
  | .integer value =>
    if fitsInt64 value then .number (Int64.ofInt value) else .string (toString value)
  | .float value => .string (std.jsonFloat value)
  | .string value => .string value
  | .array items => .list (previewJsonToItems items)
  | .object fields => .record (previewJsonToFields fields)

def previewJsonToItems : List (JsonValue F) → List (AxValue F)
  | [] => []
  | item :: rest => previewJsonToValue item :: previewJsonToItems rest

def previewJsonToFields : List (String × JsonValue F) → List (String × AxValue F)
  | [] => []
  | (name, value) :: rest => (name, previewJsonToValue value) :: previewJsonToFields rest

end

mutual

/-- The reader of database records. It expects a finite float. -/
def previewRecordJsonToValue : JsonValue F → Option (AxValue F)
  | .float value => (AxFloat.new value).map .float
  | .array items => (previewRecordJsonToItems items).map .list
  | .object fields => (previewRecordJsonToFields fields).map .record
  | value => some (previewJsonToValue std value)

def previewRecordJsonToItems : List (JsonValue F) → Option (List (AxValue F))
  | [] => some []
  | item :: rest => do
    let value ← previewRecordJsonToValue item
    let values ← previewRecordJsonToItems rest
    return value :: values

def previewRecordJsonToFields : List (String × JsonValue F) → Option (List (String × AxValue F))
  | [] => some []
  | (name, value) :: rest => do
    let value ← previewRecordJsonToValue value
    let values ← previewRecordJsonToFields rest
    return (name, value) :: values

end

end Bridge

section RoundTrip

mutual

/-- No float stands in the value, at any depth. -/
def floatFree : AxValue F → Bool
  | .float _ => false
  | .list items => itemsFloatFree items
  | .record fields => fieldsFloatFree fields
  | _ => true

def itemsFloatFree : List (AxValue F) → Bool
  | [] => true
  | item :: rest => floatFree item && itemsFloatFree rest

def fieldsFloatFree : List (String × AxValue F) → Bool
  | [] => true
  | (_, value) :: rest => floatFree value && fieldsFloatFree rest

end

variable {std : Std F}

theorem bridge_number (value : Int64) :
    previewJsonToValue std (previewValueToJson (.number value : AxValue F)) = .number value := by
  rw [previewValueToJson, previewJsonToValue, if_pos (fits_toInt value), Int64.ofInt_toInt]

mutual

theorem bridge_value_iff : ∀ value : AxValue F,
    previewJsonToValue std (previewValueToJson value) = value ↔ floatFree value = true
  | .null => iff_of_true rfl rfl
  | .string _ => iff_of_true rfl rfl
  | .bool _ => iff_of_true rfl rfl
  | .number value => iff_of_true (bridge_number value) rfl
  | .float _ => iff_of_false nofun nofun
  | .list items => by
    rw [previewValueToJson, previewJsonToValue, floatFree, AxValue.list.injEq]
    exact bridge_items_iff items
  | .record fields => by
    rw [previewValueToJson, previewJsonToValue, floatFree, AxValue.record.injEq]
    exact bridge_fields_iff fields

theorem bridge_items_iff : ∀ items : List (AxValue F),
    previewJsonToItems std (previewItemsToJson items) = items ↔ itemsFloatFree items = true
  | [] => iff_of_true rfl rfl
  | item :: rest => by
    rw [previewItemsToJson, previewJsonToItems, itemsFloatFree, List.cons.injEq, Bool.and_eq_true]
    exact and_congr (bridge_value_iff item) (bridge_items_iff rest)

theorem bridge_fields_iff : ∀ fields : List (String × AxValue F),
    previewJsonToFields std (previewFieldsToJson fields) = fields ↔ fieldsFloatFree fields = true
  | [] => iff_of_true rfl rfl
  | (name, value) :: rest => by
    rw [previewFieldsToJson, previewJsonToFields, fieldsFloatFree, List.cons.injEq, Prod.mk.injEq,
      Bool.and_eq_true]
    exact and_congr ((and_iff_right rfl).trans (bridge_value_iff value)) (bridge_fields_iff rest)

end

/-- A value survives the bridge exactly if no float stands in it. -/
theorem preview_bridge_exact (value : AxValue F) :
    previewJsonToValue std (previewValueToJson value) = value ↔ floatFree value = true :=
  bridge_value_iff value

theorem AxFloat.new_get (value : AxFloat F) : AxFloat.new value.get = some value := by
  rw [AxFloat.new, dif_pos value.finite]
  exact congrArg some (by cases value; simp_all)

mutual

/-- The record reader brings every value back. -/
theorem record_bridge : ∀ value : AxValue F,
    previewRecordJsonToValue std (previewValueToJson value) = some value
  | .null => rfl
  | .string _ => rfl
  | .bool _ => rfl
  | .number value => congrArg some (bridge_number value)
  | .float value => by
    rw [previewValueToJson, previewRecordJsonToValue, AxFloat.new_get]
    rfl
  | .list items => by
    rw [previewValueToJson, previewRecordJsonToValue, record_bridge_items items]
    rfl
  | .record fields => by
    rw [previewValueToJson, previewRecordJsonToValue, record_bridge_fields fields]
    rfl

theorem record_bridge_items : ∀ items : List (AxValue F),
    previewRecordJsonToItems std (previewItemsToJson items) = some items
  | [] => rfl
  | item :: rest => by
    rw [previewItemsToJson, previewRecordJsonToItems, record_bridge item, record_bridge_items rest]
    rfl

theorem record_bridge_fields : ∀ fields : List (String × AxValue F),
    previewRecordJsonToFields std (previewFieldsToJson fields) = some fields
  | [] => rfl
  | (name, value) :: rest => by
    rw [previewFieldsToJson, previewRecordJsonToFields, record_bridge value,
      record_bridge_fields rest]
    rfl

end

/-- The float one half. -/
def half : AxFloat F64 := ⟨0x3fe0000000000000#64, by decide, by decide +kernel⟩

/-- The libraries on the number one half. -/
def halfTexts : Std F64 where
  parseF64 text := if text = "0.5" then some half.get else none
  jsonFloat _ := "0.5"
  parseJson _ := none

/-- Half a unit of anything comes back as a text. -/
theorem price_becomes_text :
    previewJsonToValue halfTexts (previewValueToJson (.record [("price", .float half)])) ≠
      .record [("price", .float half)] :=
  nofun

end RoundTrip

end Axonyx.Runtime.Preview
