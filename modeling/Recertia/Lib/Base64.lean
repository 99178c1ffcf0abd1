import Mathlib.Data.List.Basic

/-! URL-safe base64 without padding. -/
namespace Base64

def encodeDigit (n : ℕ) : Char :=
  if n < 26 then Char.ofNat (65 + n)
  else if n < 52 then Char.ofNat (71 + n)
  else if n < 62 then Char.ofNat (n - 4)
  else if n = 62 then '-' else '_'

/-- The digits of the URL-safe alphabet, and the two of the plain one, which decoding takes
as well. -/
def decodeDigit (c : Char) : Option ℕ :=
  if c.isUpper then some (c.toNat - 65)
  else if c.isLower then some (c.toNat - 71)
  else if c.isDigit then some (c.toNat + 4)
  else if c = '-' ∨ c = '+' then some 62
  else if c = '_' ∨ c = '/' then some 63
  else none

/-- `urlsafe_b64encode(data).rstrip("=")` -/
def encode : List ℕ → List Char
  | a :: b :: c :: rest =>
    encodeDigit (a / 4) :: encodeDigit (a % 4 * 16 + b / 16) ::
      encodeDigit (b % 16 * 4 + c / 64) :: encodeDigit (c % 64) :: encode rest
  | [a, b] =>
    [encodeDigit (a / 4), encodeDigit (a % 4 * 16 + b / 16), encodeDigit (b % 16 * 4)]
  | [a] => [encodeDigit (a / 4), encodeDigit (a % 4 * 16)]
  | [] => []

/-- The bytes of one group of four digits: one for each digit after the first. -/
def groupBytes (x y : ℕ) : List ℕ → List ℕ
  | [] => [x * 4 + y / 16]
  | [z] => [x * 4 + y / 16, y % 16 * 16 + z / 4]
  | z :: w :: _ => [x * 4 + y / 16, y % 16 * 16 + z / 4, z % 4 * 64 + w]

/-- Strict decoding: groups of four, padding at the end of the last one only. -/
def decodeGroups : List Char → Option (List ℕ)
  | [] => some []
  | a :: b :: c :: d :: rest => do
    let x ← decodeDigit a
    let y ← decodeDigit b
    if rest = [] ∧ d = '=' then
      if c = '=' then some (groupBytes x y [])
      else return groupBytes x y [← decodeDigit c]
    else
      let z ← decodeDigit c
      let w ← decodeDigit d
      return groupBytes x y [z, w] ++ (← decodeGroups rest)
  | _ => none

def padding (cs : List Char) : List Char := List.replicate ((4 - cs.length % 4) % 4) '='

/-- `b64decode(padded, altchars=b"-_", validate=True)`, of the text with its padding put back. -/
def decode (cs : List Char) : Option (List ℕ) := decodeGroups (cs ++ padding cs)

end Base64
