import OpenWright.Adapters.Event
import OpenWright.SpillBuffer

/-! # OTLP requests

A trace export request is flattened into spans of plain values.

* **`isJson_of_mem_requestToSpans`** — its spans are made of JSON values, so that they can be spilled. -/

namespace OpenWright.Otlp

open Python Python.Val Adapters

/-! ## Requests -/

/-- `AnyValue`: what its `oneof` is. -/
inductive AnyValue
  | unset
  | string (s : Str)
  | bool (b : Bool)
  | int (z : Int)
  | double (x : PyFloat) (isDouble : x.IsDouble)
  | bytes (data : Bytes)
  | array (values : List AnyValue)
  | kvlist (values : List (Str × AnyValue))

/-- A list of `KeyValue`. -/
abbrev KeyValues := List (Str × AnyValue)

/-- `Span`. -/
structure Span where
  name : Str
  attributes : KeyValues := []
  traceId : Bytes := []
  spanId : Bytes := []
  parentSpanId : Bytes := []
  startTimeUnixNano : Nat := 0
  /-- The code of the status, if there is one. -/
  status : Option Int := none

/-- `ResourceSpans`: the attributes of the resource, if there is one, and the spans of each scope. -/
structure ResourceSpans where
  resource : Option KeyValues := none
  scopeSpans : List (List Span) := []

/-- `ExportTraceServiceRequest`. -/
structure ExportTraceServiceRequest where
  resourceSpans : List ResourceSpans := []

/-! ## Flattening -/

mutual
/-- `anyvalue_to_py`. -/
def anyvalueToPy : AnyValue → Val
  | .unset => .null
  | .string s => .str s
  | .bool b => .bool b
  | .int z => .int z
  | .double x _ => .float x
  -- bytes have no JSON text, so they are carried in hexadecimal
  | .bytes data => .str (hex data)
  | .array values => .list (arrayToPy values)
  | .kvlist values => .dict (kvlistToPy [] values)

/-- The values of an array. -/
def arrayToPy : List AnyValue → List Val
  | [] => []
  | v :: values => anyvalueToPy v :: arrayToPy values

/-- The entries of a list of keys and values, behind those that are there; a later value replaces an
earlier one. -/
def kvlistToPy (entries : Items) : KeyValues → Items
  | [] => entries
  | (k, v) :: values => kvlistToPy (setItem entries k (anyvalueToPy v)) values
end

/-- `attributes_to_dict`. -/
def attributesToDict (values : KeyValues) : Val := .dict (kvlistToPy [] values)

/-- `data.hex() or None`. -/
def hexOrNone (data : Bytes) : Val := if data = [] then .null else .str (hex data)

/-- The `SpanData` of a span. -/
def spanData (resource : Val) (sp : Span) : SpanData where
  name := .str sp.name
  attributes := attributesToDict sp.attributes
  resource
  traceId := hexOrNone sp.traceId
  spanId := hexOrNone sp.spanId
  parentSpanId := hexOrNone sp.parentSpanId
  -- a time of zero is an unset one
  startTimeUnixNano := if sp.startTimeUnixNano = 0 then .null else .int sp.startTimeUnixNano
  status := match sp.status with
    | some code => .str (Json.intText code)
    | none => .null

/-- `request_to_spans`. -/
def requestToSpans (req : ExportTraceServiceRequest) : List SpanData :=
  req.resourceSpans.flatMap fun rs =>
    let resource := (rs.resource.map attributesToDict).getD (.dict [])
    rs.scopeSpans.flatMap fun ss => ss.map (spanData resource)

/-! ## The spans are JSON values -/

/-- A dictionary is JSON where its values are. -/
theorem isJsonItems_iff {kvs : Items} : Json.IsJsonItems kvs ↔ ∀ kv ∈ kvs, Json.IsJson kv.2 := by
  induction kvs with
  | nil => simp [Json.IsJsonItems]
  | cons kv kvs ih => simp [Json.IsJsonItems, ih]

/-- Setting an entry to a JSON value keeps a dictionary one. -/
theorem isJsonItems_setItem {kvs : Items} {v : Val} (h : Json.IsJsonItems kvs)
    (hv : Json.IsJson v) (k : Str) :
    Json.IsJsonItems (setItem kvs k v) := by
  rw [isJsonItems_iff] at h ⊢
  intro kv hkv
  rw [setItem] at hkv
  split at hkv
  · obtain ⟨lv, hlv, rfl⟩ := List.mem_map.mp hkv
    by_cases hk : lv.1 = k
    · rw [if_pos hk]
      exact hv
    · rw [if_neg hk]
      exact h lv hlv
  · rcases List.mem_append.mp hkv with hkv | hkv
    · exact h kv hkv
    · rw [List.mem_singleton.mp hkv]
      exact hv

mutual
/-- A value is read as a JSON value. -/
theorem isJson_anyvalueToPy : ∀ v : AnyValue, Json.IsJson (anyvalueToPy v)
  | .unset | .string _ | .bool _ | .int _ | .bytes _ => trivial
  | .double _ h => h
  | .array values => isJsonList_arrayToPy values
  | .kvlist values => @isJsonItems_kvlistToPy [] trivial values

/-- The elements of an array are JSON. -/
theorem isJsonList_arrayToPy : ∀ values : List AnyValue, Json.IsJsonList (arrayToPy values)
  | [] => trivial
  | v :: values => ⟨isJson_anyvalueToPy v, isJsonList_arrayToPy values⟩

/-- The values of a list of pairs are JSON. -/
theorem isJsonItems_kvlistToPy : ∀ {entries : Items}, Json.IsJsonItems entries → ∀ values : KeyValues,
    Json.IsJsonItems (kvlistToPy entries values)
  | _, h, [] => h
  | _, h, (k, v) :: values =>
    isJsonItems_kvlistToPy (isJsonItems_setItem h (isJson_anyvalueToPy v) k) values
end

/-- An identifier is JSON. -/
theorem isJson_hexOrNone (data : Bytes) : Json.IsJson (hexOrNone data) := by
  unfold hexOrNone
  split <;> trivial

/-- **The spans of a request are JSON values.** -/
theorem isJson_of_mem_requestToSpans {req : ExportTraceServiceRequest} {span : SpanData}
    (h : span ∈ requestToSpans req) : span.IsJson := by
  obtain ⟨rs, -, h⟩ := List.mem_flatMap.mp h
  obtain ⟨ss, -, h⟩ := List.mem_flatMap.mp h
  obtain ⟨sp, -, rfl⟩ := List.mem_map.mp h
  have hattributes : ∀ values : KeyValues, Json.IsJson (attributesToDict values) :=
    fun values => @isJsonItems_kvlistToPy [] trivial values
  refine ⟨trivial, hattributes sp.attributes, ?_, isJson_hexOrNone _, isJson_hexOrNone _,
    isJson_hexOrNone _, ?_, ?_, trivial⟩
  · cases rs.resource with
    | none => trivial
    | some values => exact hattributes values
  · dsimp only [spanData]
    split <;> trivial
  · dsimp only [spanData]
    split <;> trivial

end OpenWright.Otlp
