import Mathlib.Data.List.Basic
import Recertia.Lib.PyJson
import Recertia.Lib.Table

/-! The values that `json.loads` gives, as parameters of SQLite statements and in columns of integer
affinity, and the sums of such columns with one. -/
namespace Sql

open Json (PyFloat)

/-- A Python string: its code points, lone surrogates among them. -/
abbrev Str := List ℕ

def str (s : String) : Str := s.toList.map Char.toNat

def isSurrogate (c : ℕ) : Bool := 0xd800 ≤ c && c ≤ 0xdfff

/-- Whether a string has a UTF-8 encoding. -/
def encodable (s : Str) : Bool := s.all fun c => !isSurrogate c

/-- The order of texts by their code points. -/
def textLe : Str → Str → Bool
  | [], _ => true
  | _ :: _, [] => false
  | a :: as, b :: bs => a < b || a = b && textLe as bs

/-- A value of `json.loads`; an object with its members in the order of the text. -/
inductive JsonValue
  | null
  | bool (b : Bool)
  | int (i : Int)
  | float (f : PyFloat)
  | str (s : Str)
  | list (vs : List JsonValue)
  | object (members : List (Str × JsonValue))

/-- A dict from its items: a later one takes the place of an earlier one with its key. -/
def dictOf {K V : Type*} [DecidableEq K] (items : List (K × V)) : Table K V :=
  items.foldl (fun d item => d.upsert item.1 item.2 fun _ => item.2) .empty

/-- The value as a dict. -/
def JsonValue.dict? : JsonValue → Option (Table Str JsonValue)
  | .object members => some (dictOf members)
  | _ => none

/-- The items of a value that can be sliced. -/
def JsonValue.sequence? : JsonValue → Option (List JsonValue)
  | .list vs => some vs
  | .str s => some (s.map fun c => .str [c])
  | _ => none

/-- Whether `-v` is defined. -/
def JsonValue.isNumber : JsonValue → Bool
  | .bool _ | .int _ | .float _ => true
  | _ => false

/-! ### Parameters and columns -/

/-- A parameter of a statement. -/
inductive Bound
  | null
  | integer (i : Int)
  | real (f : PyFloat)
  | text (s : Str)
  deriving DecidableEq, Repr

inductive BindError
  /-- the integer does not fit into 64 bits -/
  | overflow
  /-- the string has no UTF-8 encoding -/
  | encoding
  /-- no column keeps a value of this type -/
  | unsupported
  /-- `NOT NULL` -/
  | notNull
  deriving DecidableEq, Repr

def minInteger : Int := -9223372036854775808

def maxInteger : Int := 9223372036854775807

def fits (i : Int) : Bool := minInteger ≤ i && i ≤ maxInteger

def bindText (s : Str) : Except BindError Str :=
  if encodable s then .ok s else .error .encoding

/-- SQLite takes a NaN for `NULL`. -/
def bindValue : JsonValue → Except BindError Bound
  | .null => .ok .null
  | .bool b => .ok (.integer b.toNat)
  | .int i => if fits i then .ok (.integer i) else .error .overflow
  | .float .nan => .ok .null
  | .float f => .ok (.real f)
  | .str s => (bindText s).map .text
  | .list _ | .object _ => .error .unsupported

/-- A parameter for a column that is `NOT NULL`. -/
def bindNotNull (v : JsonValue) : Except BindError Bound :=
  (bindValue v).bind fun b => if b = .null then .error .notNull else .ok b

inductive Number
  | integer (i : Int)
  | real (f : PyFloat)
  deriving DecidableEq, Repr

/-- What a column of integer affinity keeps. -/
inductive Value
  | number (n : Number)
  | text (s : Str)
  deriving DecidableEq, Repr

/-- What SQLite makes of floating-point numbers and of text. -/
structure Numerics where
  /-- a float in a column of integer affinity -/
  ofReal : PyFloat → Number
  /-- a text in such a column -/
  ofText : Str → Value
  /-- the number that a text counts for in a sum -/
  numeric : Str → Number
  /-- a float and one, in such a column -/
  succReal : PyFloat → Number
  /-- the order of values -/
  le : Value → Value → Bool

variable (S : Numerics)

def Value.ofInt (i : Int) : Value := .number (.integer i)

/-- A parameter in a column of integer affinity. -/
def Bound.column : Bound → Value
  | .null => .ofInt 0
  | .integer i => .ofInt i
  | .real f => .number (S.ofReal f)
  | .text s => S.ofText s

def integerColumn (v : JsonValue) : Except BindError Value := (bindNotNull v).map (Bound.column S)

/-! ### Sums -/

def Value.numeric : Value → Number
  | .number n => n
  | .text s => S.numeric s

/-- The float that an integer sum gives way to behind 64 bits. -/
def beyond : PyFloat := .finite ⟨"9.223372036854776e+18", by decide⟩

/-- `n + 0` in a column of integer affinity. -/
def Number.same : Number → Value
  | .integer i => .ofInt i
  | .real f => .number (S.ofReal f)

/-- `n + 1` in a column of integer affinity. -/
def Number.succ : Number → Value
  | .integer i => if i < maxInteger then .ofInt (i + 1) else .number (.real beyond)
  | .real f => .number (S.succReal f)

/-- The same sum without a bound for integers. -/
def Number.exactSucc : Number → Value
  | .integer i => .ofInt (i + 1)
  | .real f => .number (S.succReal f)

/-- `v + 1`, or `v + 0`. -/
def Value.plus (v : Value) (one : Bool) : Value :=
  if one then (v.numeric S).succ S else (v.numeric S).same S

def Value.exactPlus (v : Value) (one : Bool) : Value :=
  if one then (v.numeric S).exactSucc S else (v.numeric S).same S

/-- A value and one for each mark that is set: on an integer the sum, and on another value the sums
of SQLite one after the other. -/
def Value.total (v : Value) (marks : List Bool) : Value :=
  match v with
  | .number (.integer i) => .ofInt (i + marks.count true)
  | _ => marks.foldl (Value.exactPlus S) v

theorem foldl_exactPlus_ofInt (i : Int) (marks : List Bool) :
    marks.foldl (Value.exactPlus S) (.ofInt i) = .ofInt (i + marks.count true) := by
  induction marks generalizing i with
  | nil =>
    have hcount : i + (([] : List Bool).count true : Int) = i := Int.add_zero i
    rw [List.foldl_nil, hcount]
  | cons one marks ih =>
    rw [List.foldl_cons]
    cases one with
    | true =>
      have hstep : (Value.ofInt i).exactPlus S true = .ofInt (i + 1) := rfl
      have hcount : i + 1 + (marks.count true : Int) = i + (marks.count true + 1 : ℕ) := by omega
      rw [hstep, ih, List.count_cons_self, hcount]
    | false =>
      have hstep : (Value.ofInt i).exactPlus S false = .ofInt i := rfl
      have hcount : (false :: marks).count true = marks.count true :=
        List.count_cons_of_ne Bool.false_ne_true
      rw [hstep, ih, hcount]

theorem total_eq_foldl (v : Value) (marks : List Bool) :
    v.total S marks = marks.foldl (Value.exactPlus S) v := by
  unfold Value.total
  split
  · exact (foldl_exactPlus_ofInt S _ marks).symm
  · rfl

theorem total_nil (v : Value) : v.total S [] = v := by
  rw [total_eq_foldl, List.foldl_nil]

theorem total_snoc (v : Value) (marks : List Bool) (one : Bool) :
    v.total S (marks ++ [one]) = (v.total S marks).exactPlus S one := by
  rw [total_eq_foldl, total_eq_foldl, List.foldl_append, List.foldl_cons, List.foldl_nil]

/-- The sum is the exact one unless it leaves 64 bits. -/
theorem plus_eq_exactPlus_iff (v : Value) (one : Bool) :
    v.plus S one = v.exactPlus S one ↔
      ∀ i, one = true → v.numeric S = .integer i → i < maxInteger := by
  cases one with
  | false => exact iff_of_true rfl fun i h => absurd h Bool.false_ne_true
  | true =>
    have hplus : v.plus S true = (v.numeric S).succ S := rfl
    have hexact : v.exactPlus S true = (v.numeric S).exactSucc S := rfl
    rw [hplus, hexact]
    cases v.numeric S with
    | real f => exact iff_of_true rfl fun i _ h => by cases h
    | integer i =>
      constructor
      · intro h j _ hj
        cases hj
        by_contra hlt
        rw [Number.succ, if_neg hlt] at h
        cases h
      · intro h
        exact if_pos (h i rfl rfl)

/-! ### What a column takes -/

/-- The values that a statement can store in a column that is `NOT NULL`. -/
def storable : JsonValue → Bool
  | .bool _ => true
  | .int i => fits i
  | .float .nan => false
  | .float _ => true
  | .str s => encodable s
  | .null | .list _ | .object _ => false

theorem bindText_isOk {s : Str} : (∃ t, bindText s = .ok t) ↔ encodable s = true := by
  unfold bindText
  split
  · rename_i h
    exact iff_of_true ⟨s, rfl⟩ h
  · rename_i h
    exact iff_of_false (fun ⟨t, ht⟩ => by cases ht) h

theorem bindText_eq_ok {s t : Str} (h : bindText s = .ok t) : t = s := by
  unfold bindText at h
  split at h
  · exact (Except.ok.inj h).symm
  · cases h

theorem bindNotNull_isOk {v : JsonValue} : (∃ b, bindNotNull v = .ok b) ↔ storable v = true := by
  cases v with
  | null | list _ | object _ => exact iff_of_false (fun ⟨b, hb⟩ => by cases hb) Bool.false_ne_true
  | bool b => exact iff_of_true ⟨.integer b.toNat, rfl⟩ rfl
  | int i =>
    by_cases h : fits i = true
    · have hbind : bindNotNull (.int i) = .ok (.integer i) := by
        rw [bindNotNull, bindValue, if_pos h]
        rfl
      exact iff_of_true ⟨.integer i, hbind⟩ h
    · have hbind : bindNotNull (.int i) = .error .overflow := by
        rw [bindNotNull, bindValue, if_neg h]
        rfl
      exact iff_of_false (fun ⟨b, hb⟩ => by cases hbind.symm.trans hb) h
  | float f =>
    cases f with
    | nan => exact iff_of_false (fun ⟨b, hb⟩ => by cases hb) Bool.false_ne_true
    | finite r => exact iff_of_true ⟨.real (.finite r), rfl⟩ rfl
    | infinity => exact iff_of_true ⟨.real .infinity, rfl⟩ rfl
    | negInfinity => exact iff_of_true ⟨.real .negInfinity, rfl⟩ rfl
  | str s =>
    by_cases h : encodable s = true
    · have hbind : bindNotNull (.str s) = .ok (.text s) := by
        rw [bindNotNull, bindValue, bindText, if_pos h]
        rfl
      exact iff_of_true ⟨.text s, hbind⟩ h
    · have hbind : bindNotNull (.str s) = .error .encoding := by
        rw [bindNotNull, bindValue, bindText, if_neg h]
        rfl
      exact iff_of_false (fun ⟨b, hb⟩ => by cases hbind.symm.trans hb) h

theorem integerColumn_isOk {v : JsonValue} :
    (∃ w, integerColumn S v = .ok w) ↔ storable v = true := by
  rw [← bindNotNull_isOk, integerColumn]
  cases bindNotNull v with
  | ok b => exact iff_of_true ⟨b.column S, rfl⟩ ⟨b, rfl⟩
  | error e => exact iff_of_false (fun ⟨w, hw⟩ => by cases hw) (fun ⟨b, hb⟩ => by cases hb)

end Sql
