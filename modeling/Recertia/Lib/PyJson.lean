import Recertia.Lib.Json

/-! Python values through `json.dumps` and back through `json.loads`. -/
namespace Json

/-- A Python value with string keys. `other` stands for what `json.dumps` raises on. -/
inductive PyValue
  | null
  | bool (b : Bool)
  | int (i : Int)
  | float (f : PyFloat)
  | str (s : String)
  | list (vs : List PyValue)
  | tuple (vs : List PyValue)
  | dict (items : List (String × PyValue))
  | other
  deriving Repr

/-- What `json.loads` raises: a `ValueError`, or a `RecursionError` on text that nests too deep. -/
inductive LoadError
  | valueError
  | recursionError
  deriving DecidableEq, Repr

/-- `v == True` -/
def PyValue.eqTrue : PyValue → Bool
  | .bool b => b
  | .int i => i = 1
  | .float f => f = .finite ⟨"1.0", by decide⟩
  | _ => false

mutual

/-- `json.loads(json.dumps(v))`, where `json.dumps` takes the value: a tuple comes back as
a list, and a non-finite float as itself. -/
def PyValue.reload : PyValue → Option PyValue
  | .list vs => (reloadList vs).map .list
  | .tuple vs => (reloadList vs).map .list
  | .dict items => (reloadDict items).map .dict
  | .other => none
  | v => some v

def reloadList : List PyValue → Option (List PyValue)
  | [] => some []
  | v :: vs => v.reload.bind fun w => (reloadList vs).map (w :: ·)

def reloadDict : List (String × PyValue) → Option (List (String × PyValue))
  | [] => some []
  | (k, v) :: items => v.reload.bind fun w => (reloadDict items).map ((k, w) :: ·)

end

theorem PyValue.eqTrue_reload {v w : PyValue} (h : v.reload = some w) : w.eqTrue = v.eqTrue := by
  match v with
  | .null | .bool _ | .int _ | .float _ | .str _ =>
    have hw : w = _ := (Option.some.inj (by simpa only [PyValue.reload] using h)).symm
    rw [hw]
  | .list vs | .tuple vs =>
    obtain ⟨ws, -, rfl⟩ := Option.map_eq_some_iff.mp (by simpa only [PyValue.reload] using h)
    rfl
  | .dict items =>
    obtain ⟨ws, -, rfl⟩ := Option.map_eq_some_iff.mp (by simpa only [PyValue.reload] using h)
    rfl
  | .other => simp [PyValue.reload] at h

theorem reloadDict_cons {k : String} {v : PyValue} {items out : List (String × PyValue)}
    (h : reloadDict ((k, v) :: items) = some out) :
    ∃ w ws, v.reload = some w ∧ reloadDict items = some ws ∧ out = (k, w) :: ws := by
  simp only [reloadDict, Option.bind_eq_some_iff, Option.map_eq_some_iff] at h
  obtain ⟨w, hw, ws, hws, rfl⟩ := h
  exact ⟨w, ws, hw, hws, rfl⟩

theorem length_reloadDict {items out : List (String × PyValue)}
    (h : reloadDict items = some out) : out.length = items.length := by
  induction items generalizing out with
  | nil =>
    have hout : out = [] := (Option.some.inj (by simpa only [reloadDict] using h)).symm
    rw [hout]
  | cons item items ih =>
    obtain ⟨k, v⟩ := item
    obtain ⟨w, ws, -, hws, rfl⟩ := reloadDict_cons h
    rw [List.length_cons, List.length_cons, ih hws]

theorem reloadList_eq_self {vs : List PyValue} (h : ∀ v ∈ vs, v.reload = some v) :
    reloadList vs = some vs := by
  induction vs with
  | nil => simp only [reloadList]
  | cons v vs ih =>
    have hvs : reloadList vs = some vs := ih fun w hw => h w (List.mem_cons_of_mem _ hw)
    simp only [reloadList, h v List.mem_cons_self, hvs, Option.bind_some, Option.map_some]

theorem reloadDict_eq_self {items : List (String × PyValue)}
    (h : ∀ item ∈ items, item.2.reload = some item.2) : reloadDict items = some items := by
  induction items with
  | nil => simp only [reloadDict]
  | cons item items ih =>
    have hitems : reloadDict items = some items :=
      ih fun other hother => h other (List.mem_cons_of_mem _ hother)
    simp only [reloadDict, h item List.mem_cons_self, hitems, Option.bind_some, Option.map_some]

/-- The float `1.0`. -/
def PyFloat.one : PyFloat := .finite ⟨"1.0", by decide⟩

abbrev PyDict := List (String × PyValue)

/-- `items.get(key)` -/
def PyDict.get (items : PyDict) (key : String) : PyValue :=
  match items with
  | [] => .null
  | (k, v) :: rest => if k = key then v else PyDict.get rest key

/-- `bool(v)` -/
def PyValue.truthy : PyValue → Bool
  | .null => false
  | .bool b => b
  | .int i => i ≠ 0
  | .float (.finite r) => r.text ≠ "0.0" && r.text ≠ "-0.0"
  | .float _ => true
  | .str s => s ≠ ""
  | .list vs => !vs.isEmpty
  | .tuple vs => !vs.isEmpty
  | .dict items => !items.isEmpty
  | .other => true

/-- `v or default` -/
def PyValue.orElse (v default : PyValue) : PyValue := if v.truthy then v else default

/-- The string, where the value is one. -/
def PyValue.str? : PyValue → Option String
  | .str s => some s
  | _ => none

/-- The integer, where `isinstance(v, int)`: a bool is one. -/
def PyValue.int? : PyValue → Option Int
  | .int i => some i
  | .bool b => some b.toNat
  | _ => none

/-- The items of a value of type `dict`. -/
def PyValue.dict? : PyValue → Option PyDict
  | .dict items => some items
  | _ => none

/-- The strings of a list that holds nothing else. -/
def PyValue.strings? : PyValue → Option (List String)
  | .list vs => vs.mapM PyValue.str?
  | _ => none

/-- What `for item in v` goes through, unless it raises. -/
def PyValue.items? : PyValue → Option (List PyValue)
  | .list vs => some vs
  | .tuple vs => some vs
  | .dict items => some (items.map fun item => .str item.1)
  | .str s => some (s.toList.map fun c => .str (String.ofList [c]))
  | _ => none

/-- `None` for nothing. -/
def PyValue.ofOption {α : Type*} (encode : α → PyValue) : Option α → PyValue
  | none => .null
  | some a => encode a

theorem strings?_map_str (parts : List String) :
    (PyValue.list (parts.map .str)).strings? = some parts := by
  show (parts.map PyValue.str).mapM PyValue.str? = some parts
  induction parts with
  | nil => rfl
  | cons part parts ih => simp [PyValue.str?, ih]

theorem reload_strings (parts : List String) :
    (PyValue.list (parts.map .str)).reload = some (.list (parts.map .str)) := by
  have hparts : reloadList (parts.map .str) = some (parts.map .str) := by
    apply reloadList_eq_self
    intro v hv
    obtain ⟨part, -, rfl⟩ := List.mem_map.mp hv
    rfl
  simp only [PyValue.reload, hparts, Option.map_some]

theorem reload_ofOption {α : Type*} {encode : α → PyValue} {o : Option α}
    (h : ∀ a ∈ o, (encode a).reload = some (encode a)) :
    (PyValue.ofOption encode o).reload = some (PyValue.ofOption encode o) := by
  cases o with
  | none => rfl
  | some a => exact h a rfl

end Json
