import Recertia.Lib.JsonText

/-! `json.loads` of flat objects: string keys, and values that are strings or `null`. -/
namespace Json

def hexValue (c : Char) : Option ℕ :=
  if c.isDigit then some (c.toNat - 48)
  else if 97 ≤ c.toNat ∧ c.toNat ≤ 102 then some (c.toNat - 87)
  else if 65 ≤ c.toNat ∧ c.toNat ≤ 70 then some (c.toNat - 55)
  else none

def readHex4 : List Char → Option (ℕ × List Char)
  | a :: b :: c :: d :: cs => do
    return (4096 * (← hexValue a) + 256 * (← hexValue b) + 16 * (← hexValue c) + (← hexValue d), cs)
  | _ => none

/-- The rest of a `\u` escape. A surrogate without its pair is no character. -/
def readUnicode (cs : List Char) : Option (Char × List Char) := do
  let (unit, cs) ← readHex4 cs
  if 55296 ≤ unit ∧ unit < 56320 then
    match cs with
    | '\\' :: 'u' :: cs =>
      let (low, cs) ← readHex4 cs
      if 56320 ≤ low ∧ low < 57344 then
        return (Char.ofNat (65536 + 1024 * (unit - 55296) + (low - 56320)), cs)
      else none
    | _ => none
  else if 56320 ≤ unit ∧ unit < 57344 then none
  else return (Char.ofNat unit, cs)

/-- One character of a string, escaped or not. -/
def readChar : List Char → Option (Char × List Char)
  | '\\' :: 'u' :: cs => readUnicode cs
  | '\\' :: c :: cs =>
    if c = '"' ∨ c = '\\' ∨ c = '/' ∨ c = 'b' ∨ c = 'f' ∨ c = 'n' ∨ c = 'r' ∨ c = 't' then
      some (shortEscape c, cs)
    else none
  | c :: cs => if 32 ≤ c.toNat ∧ c ≠ '\\' then some (c, cs) else none
  | [] => none

/-- The characters up to the closing quote. -/
def readBody : ℕ → List Char → Option (List Char × List Char)
  | 0, _ => none
  | fuel + 1, cs =>
    if cs.head? = some '"' then some ([], cs.tail)
    else do
      let (c, cs) ← readChar cs
      let (body, cs) ← readBody fuel cs
      return (c :: body, cs)

def readString : List Char → Option (String × List Char)
  | '"' :: cs => (readBody (cs.length + 1) cs).map fun (body, cs) => (String.ofList body, cs)
  | _ => none

/-- A string or `null`. -/
def readScalar : List Char → Option (Option String × List Char)
  | 'n' :: 'u' :: 'l' :: 'l' :: cs => some (none, cs)
  | cs => (readString cs).map fun (s, cs) => (some s, cs)

def skipSpace (cs : List Char) : List Char :=
  cs.dropWhile fun c => c = ' ' || c = '\t' || c = '\n' || c = '\r'

/-- The members of an object up to its closing brace. -/
def readMembers : ℕ → List Char → Option (List (String × Option String) × List Char)
  | 0, _ => none
  | fuel + 1, cs => do
    let (key, cs) ← readString cs
    match skipSpace cs with
    | ':' :: cs =>
      let (value, cs) ← readScalar (skipSpace cs)
      match skipSpace cs with
      | '\x7d' :: cs => return ([(key, value)], cs)
      | ',' :: cs =>
        let (members, cs) ← readMembers fuel (skipSpace cs)
        return ((key, value) :: members, cs)
      | _ => none
    | _ => none

/-- The members of a flat object, where the text is one. -/
def readFlat (cs : List Char) : Option (List (String × Option String)) :=
  match skipSpace cs with
  | '\x7b' :: cs =>
    match skipSpace cs with
    | '\x7d' :: cs => if skipSpace cs = [] then some [] else none
    | cs => do
      let (members, cs) ← readMembers (cs.length + 1) cs
      if skipSpace cs = [] then some members else none
  | _ => none

/-- The value of a string or of `None`. -/
def scalar : Option String → Value
  | none => .null
  | some s => .str s

end Json
