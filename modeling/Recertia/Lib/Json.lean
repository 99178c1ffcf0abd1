import Mathlib.Data.List.Basic

/-! Python values under the JSON mode of a model and under `json.dumps`. -/
namespace Json

def isFloatChar (c : Char) : Bool := c.isDigit || c == '.' || c == 'e' || c == '+' || c == '-'

/-- The shortest `repr` of a finite float. -/
structure FloatRepr where
  text : String
  chars : text.toList.all isFloatChar = true
  deriving DecidableEq, Repr

inductive PyFloat
  | finite (repr : FloatRepr)
  | nan
  | infinity
  | negInfinity
  deriving DecidableEq, Repr

/-- A value of type `Any`. `object` is one that JSON has no form for (a tuple, a set, a
`datetime`), with what the JSON mode makes of it, if anything. -/
inductive Value
  | null
  | bool (b : Bool)
  | int (i : Int)
  | float (f : PyFloat)
  | str (s : String)
  | list (vs : List Value)
  | dict (items : List (String × Value))
  | object (rendered : Option Value)
  deriving Repr

abbrev Dict := List (String × Value)

mutual

/-- `model_dump(mode="json")`, for a value that it does not refuse. A non-finite float is
written as `null`, as `model_dump_json` writes it. -/
def Value.jsonMode : Value → Value
  | .float (.finite r) => .float (.finite r)
  | .float _ => .null
  | .list vs => .list (jsonModeList vs)
  | .dict items => .dict (jsonModeDict items)
  | .object (some v) => v.jsonMode
  | .object none => .null
  | v => v

def jsonModeList : List Value → List Value
  | [] => []
  | v :: vs => v.jsonMode :: jsonModeList vs

def jsonModeDict : Dict → Dict
  | [] => []
  | (k, v) :: items => (k, v.jsonMode) :: jsonModeDict items

end

mutual

/-- The JSON mode refuses no part of the value. -/
def Value.dumpable : Value → Bool
  | .list vs => dumpableList vs
  | .dict items => dumpableDict items
  | .object (some v) => v.dumpable
  | .object none => false
  | _ => true

def dumpableList : List Value → Bool
  | [] => true
  | v :: vs => v.dumpable && dumpableList vs

def dumpableDict : Dict → Bool
  | [] => true
  | (_, v) :: items => v.dumpable && dumpableDict items

end

mutual

/-- A JSON value: no non-finite float and no object at any depth. -/
def Value.isJson : Value → Bool
  | .float (.finite _) => true
  | .float _ => false
  | .list vs => isJsonList vs
  | .dict items => isJsonDict items
  | .object _ => false
  | _ => true

def isJsonList : List Value → Bool
  | [] => true
  | v :: vs => v.isJson && isJsonList vs

def isJsonDict : Dict → Bool
  | [] => true
  | (_, v) :: items => v.isJson && isJsonDict items

end

def hexDigit (n : Nat) : Char :=
  if n < 10 then Char.ofNat (48 + n) else Char.ofNat (87 + n)

def unicodeEscape (n : Nat) : String :=
  String.ofList ['\\', 'u', hexDigit (n / 4096 % 16), hexDigit (n / 256 % 16),
    hexDigit (n / 16 % 16), hexDigit (n % 16)]

/-- `ensure_ascii`: everything outside printable ASCII is escaped, an astral character
as a surrogate pair. -/
def escapeChar (c : Char) : String :=
  if c = '"' then "\\\""
  else if c = '\\' then "\\\\"
  else if c = '\n' then "\\n"
  else if c = '\r' then "\\r"
  else if c = '\t' then "\\t"
  else if c.toNat = 8 then "\\b"
  else if c.toNat = 12 then "\\f"
  else if 32 ≤ c.toNat ∧ c.toNat ≤ 126 then String.singleton c
  else if c.toNat < 65536 then unicodeEscape c.toNat
  else
    let n := c.toNat - 65536
    unicodeEscape (55296 + n / 1024) ++ unicodeEscape (56320 + n % 1024)

def quote (s : String) : String :=
  "\"" ++ String.join (s.toList.map escapeChar) ++ "\""

def PyFloat.dumps : PyFloat → String
  | .finite r => r.text
  | .nan => "NaN"
  | .infinity => "Infinity"
  | .negInfinity => "-Infinity"

mutual

/-- `json.dumps(value, sort_keys=True, separators=(",", ":"))` of a value in JSON mode. -/
def Value.dumps : Value → String
  | .null => "null"
  | .bool b => if b then "true" else "false"
  | .int i => toString i
  | .float f => f.dumps
  | .str s => quote s
  | .list vs => "[" ++ String.intercalate "," (dumpsList vs) ++ "]"
  | .dict items =>
    let sorted := (dumpsDict items).mergeSort fun a b => a.1 ≤ b.1
    "\x7b" ++ String.intercalate "," (sorted.map fun (k, text) => quote k ++ ":" ++ text) ++ "\x7d"
  | .object _ => ""

def dumpsList : List Value → List String
  | [] => []
  | v :: vs => v.dumps :: dumpsList vs

def dumpsDict : Dict → List (String × String)
  | [] => []
  | (k, v) :: items => (k, v.dumps) :: dumpsDict items

end

mutual

theorem Value.isJson_jsonMode (v : Value) : v.jsonMode.isJson = true := by
  match v with
  | .null | .bool _ | .int _ | .str _ | .float (.finite _) => simp [Value.jsonMode, Value.isJson]
  | .float .nan | .float .infinity | .float .negInfinity => simp [Value.jsonMode, Value.isJson]
  | .list vs => simpa only [Value.jsonMode, Value.isJson] using isJson_jsonModeList vs
  | .dict items => simpa only [Value.jsonMode, Value.isJson] using isJson_jsonModeDict items
  | .object (some v) => simpa only [Value.jsonMode] using v.isJson_jsonMode
  | .object none => simp [Value.jsonMode, Value.isJson]

theorem isJson_jsonModeList (vs : List Value) : isJsonList (jsonModeList vs) = true := by
  match vs with
  | [] => rfl
  | v :: vs =>
    simp only [jsonModeList, isJsonList, v.isJson_jsonMode, isJson_jsonModeList vs, Bool.and_self]

theorem isJson_jsonModeDict (items : Dict) : isJsonDict (jsonModeDict items) = true := by
  match items with
  | [] => rfl
  | (_, v) :: items =>
    simp only [jsonModeDict, isJsonDict, v.isJson_jsonMode, isJson_jsonModeDict items,
      Bool.and_self]

end

mutual

theorem Value.jsonMode_of_isJson {v : Value} (h : v.isJson = true) : v.jsonMode = v := by
  match v with
  | .null | .bool _ | .int _ | .str _ | .float (.finite _) => simp [Value.jsonMode]
  | .float .nan | .float .infinity | .float .negInfinity | .object _ => simp [Value.isJson] at h
  | .list vs =>
    simp only [Value.isJson] at h
    simp only [Value.jsonMode, jsonModeList_of_isJson h]
  | .dict items =>
    simp only [Value.isJson] at h
    simp only [Value.jsonMode, jsonModeDict_of_isJson h]

theorem jsonModeList_of_isJson {vs : List Value} (h : isJsonList vs = true) :
    jsonModeList vs = vs := by
  match vs with
  | [] => rfl
  | v :: vs =>
    simp only [isJsonList, Bool.and_eq_true] at h
    simp only [jsonModeList, Value.jsonMode_of_isJson h.1, jsonModeList_of_isJson h.2]

theorem jsonModeDict_of_isJson {items : Dict} (h : isJsonDict items = true) :
    jsonModeDict items = items := by
  match items with
  | [] => rfl
  | (_, v) :: items =>
    simp only [isJsonDict, Bool.and_eq_true] at h
    simp only [jsonModeDict, Value.jsonMode_of_isJson h.1, jsonModeDict_of_isJson h.2]

end

theorem isJsonList_iff (vs : List Value) :
    isJsonList vs = true ↔ ∀ v ∈ vs, v.isJson = true := by
  induction vs with
  | nil => simp [isJsonList]
  | cons v vs ih => rw [isJsonList, Bool.and_eq_true, ih, List.forall_mem_cons]

theorem isJsonDict_iff (items : Dict) :
    isJsonDict items = true ↔ ∀ item ∈ items, item.2.isJson = true := by
  induction items with
  | nil => simp [isJsonDict]
  | cons item items ih =>
    obtain ⟨k, v⟩ := item
    rw [isJsonDict, Bool.and_eq_true, ih, List.forall_mem_cons]

/-- The JSON values are those that come back as they were written. -/
theorem jsonModeDict_eq_iff (items : Dict) :
    jsonModeDict items = items ↔ isJsonDict items = true :=
  ⟨fun h => h ▸ isJson_jsonModeDict items, jsonModeDict_of_isJson⟩

@[simp]
theorem jsonModeDict_jsonModeDict (items : Dict) :
    jsonModeDict (jsonModeDict items) = jsonModeDict items :=
  jsonModeDict_of_isJson (isJson_jsonModeDict items)

mutual

theorem Value.dumpable_jsonMode (v : Value) : v.jsonMode.dumpable = true := by
  match v with
  | .null | .bool _ | .int _ | .str _ | .float (.finite _) =>
    simp [Value.jsonMode, Value.dumpable]
  | .float .nan | .float .infinity | .float .negInfinity | .object none =>
    simp [Value.jsonMode, Value.dumpable]
  | .list vs => simpa only [Value.jsonMode, Value.dumpable] using dumpable_jsonModeList vs
  | .dict items => simpa only [Value.jsonMode, Value.dumpable] using dumpable_jsonModeDict items
  | .object (some v) => simpa only [Value.jsonMode] using v.dumpable_jsonMode

theorem dumpable_jsonModeList (vs : List Value) : dumpableList (jsonModeList vs) = true := by
  match vs with
  | [] => rfl
  | v :: vs =>
    simp only [jsonModeList, dumpableList, v.dumpable_jsonMode, dumpable_jsonModeList vs,
      Bool.and_self]

theorem dumpable_jsonModeDict (items : Dict) : dumpableDict (jsonModeDict items) = true := by
  match items with
  | [] => rfl
  | (_, v) :: items =>
    simp only [jsonModeDict, dumpableDict, v.dumpable_jsonMode, dumpable_jsonModeDict items,
      Bool.and_self]

end

theorem dumpableDict_of_isJson {items : Dict} (h : isJsonDict items = true) :
    dumpableDict items = true := by
  rw [← jsonModeDict_of_isJson h]
  exact dumpable_jsonModeDict items

theorem isJsonDict_append (as bs : Dict) :
    isJsonDict (as ++ bs) = (isJsonDict as && isJsonDict bs) := by
  induction as with
  | nil => rfl
  | cons item as ih =>
    obtain ⟨k, v⟩ := item
    simp only [List.cons_append, isJsonDict, ih, Bool.and_assoc]

theorem jsonModeDict_filter (p : String → Bool) (items : Dict) :
    jsonModeDict (items.filter fun item => p item.1) =
      (jsonModeDict items).filter fun item => p item.1 := by
  induction items with
  | nil => rfl
  | cons item items ih =>
    obtain ⟨k, v⟩ := item
    simp only [List.filter_cons, jsonModeDict]
    split <;> simp only [jsonModeDict, ih]

end Json
