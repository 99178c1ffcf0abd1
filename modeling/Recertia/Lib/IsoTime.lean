import Mathlib.Data.Prod.Lex
import Mathlib.Data.String.Basic

/-! Moments in UTC, their ISO texts, and that the order of the texts is the order in time. -/

/-- `n` in `w` decimal digits. -/
def pad : ℕ → ℕ → List Char
  | 0, _ => []
  | w + 1, n => Nat.digitChar (n / 10 ^ w) :: pad w (n % 10 ^ w)

/-- The number in the first `w` characters, all of them digits. -/
def readPad : ℕ → List Char → Option (ℕ × List Char)
  | 0, cs => some (0, cs)
  | _ + 1, [] => none
  | w + 1, c :: cs =>
    if c.isDigit then (readPad w cs).map fun (n, rest) => ((c.toNat - 48) * 10 ^ w + n, rest)
    else none

def isLeap (year : ℕ) : Bool := year % 4 == 0 && (year % 100 != 0 || year % 400 == 0)

def daysInMonth (year month : ℕ) : ℕ :=
  if month = 2 then if isLeap year then 29 else 28
  else if month = 4 ∨ month = 6 ∨ month = 9 ∨ month = 11 then 30 else 31

/-- The fields of a `datetime`. -/
structure Clock where
  year : ℕ
  month : ℕ
  day : ℕ
  hour : ℕ
  minute : ℕ
  second : ℕ
  microsecond : ℕ
  deriving DecidableEq, Repr

/-- The ranges that `datetime` enforces. -/
def Clock.Valid (c : Clock) : Prop :=
  (1 ≤ c.year ∧ c.year ≤ 9999) ∧ (1 ≤ c.month ∧ c.month ≤ 12) ∧
  (1 ≤ c.day ∧ c.day ≤ daysInMonth c.year c.month) ∧ c.hour < 24 ∧ c.minute < 60 ∧
  c.second < 60 ∧ c.microsecond < 1000000

instance (c : Clock) : Decidable c.Valid := by
  unfold Clock.Valid
  infer_instance

/-- A `datetime` in UTC. -/
structure DateTime where
  clock : Clock
  valid : clock.Valid
  deriving DecidableEq

namespace DateTime

/-- Year to second, in the order in which Python compares them. -/
def seconds (d : DateTime) : ℕ ×ₗ ℕ ×ₗ ℕ ×ₗ ℕ ×ₗ ℕ ×ₗ ℕ :=
  toLex (d.clock.year, toLex (d.clock.month, toLex (d.clock.day, toLex (d.clock.hour,
    toLex (d.clock.minute, d.clock.second)))))

def fields (d : DateTime) : (ℕ ×ₗ ℕ ×ₗ ℕ ×ₗ ℕ ×ₗ ℕ ×ₗ ℕ) ×ₗ ℕ :=
  toLex (d.seconds, d.clock.microsecond)

theorem fields_injective : Function.Injective fields := by
  intro d e h
  obtain ⟨⟨y, mo, d, h, mi, s, us⟩, hd⟩ := d
  obtain ⟨⟨y', mo', d', h', mi', s', us'⟩, he⟩ := e
  simp only [fields, seconds, EmbeddingLike.apply_eq_iff_eq, Prod.mk.injEq] at h
  obtain ⟨⟨rfl, rfl, rfl, rfl, rfl, rfl⟩, rfl⟩ := h
  rfl

instance : LinearOrder DateTime := LinearOrder.lift' fields fields_injective

/-- `isoformat(sep=sep, timespec="seconds")`, without the offset. -/
def secondsText (sep : Char) (d : DateTime) : List Char :=
  pad 4 d.clock.year ++ '-' :: (pad 2 d.clock.month ++ '-' :: (pad 2 d.clock.day ++ sep ::
    (pad 2 d.clock.hour ++ ':' :: (pad 2 d.clock.minute ++ ':' :: pad 2 d.clock.second))))

/-- The part of `isoformat()` after the seconds. -/
def fraction (d : DateTime) : List Char :=
  if d.clock.microsecond = 0 then [] else '.' :: pad 6 d.clock.microsecond

def utcSuffix : List Char := ['+', '0', '0', ':', '0', '0']

/-- `isoformat()` -/
def isoformat (d : DateTime) : String :=
  String.ofList (d.secondsText 'T' ++ (d.fraction ++ utcSuffix))

/-- What `datetime('now')` writes in SQLite. -/
def sqliteText (d : DateTime) : String := String.ofList (d.secondsText ' ')

/-- A date and a time, and the offset that is written with them, if any. -/
abbrev Parsed := DateTime × Option ℤ

/-- The end of an ISO text: no offset, or the one of UTC. -/
def readOffset (c : Clock) (cs : List Char) : Option Parsed :=
  if h : c.Valid then
    if cs = [] then some (⟨c, h⟩, none)
    else if cs = utcSuffix then some (⟨c, h⟩, some 0)
    else none
  else none

def readFraction (c : Clock) (cs : List Char) : Option Parsed :=
  match cs with
  | '.' :: cs => do
    let (us, cs) ← readPad 6 cs
    readOffset { c with microsecond := us } cs
  | cs => readOffset c cs

/-- The character, and what follows it. -/
def skip (c : Char) : List Char → Option (List Char)
  | [] => none
  | d :: cs => if d = c then some cs else none

/-- The two forms of text that the program writes, with any character between date and time. -/
def readIso (cs : List Char) : Option Parsed := do
  let (y, cs) ← readPad 4 cs
  let cs ← skip '-' cs
  let (mo, cs) ← readPad 2 cs
  let cs ← skip '-' cs
  let (d, cs) ← readPad 2 cs
  let cs ← cs.tail?
  let (h, cs) ← readPad 2 cs
  let cs ← skip ':' cs
  let (mi, cs) ← readPad 2 cs
  let cs ← skip ':' cs
  let (s, cs) ← readPad 2 cs
  readFraction ⟨y, mo, d, h, mi, s, 0⟩ cs

end DateTime

/-- The parts of `datetime` that only texts from elsewhere need: the forms of ISO text that
the program does not write, and the shift of a moment to UTC by an offset that is not zero. -/
structure Calendar where
  otherForms : String → Option DateTime.Parsed
  shift : DateTime → ℤ → Option DateTime

/-- `datetime.fromisoformat(text)` -/
def Calendar.fromisoformat (cal : Calendar) (text : String) : Option DateTime.Parsed :=
  (DateTime.readIso text.toList).or (cal.otherForms text)

/-- `parsed.astimezone(UTC)`, which may overflow. -/
def Calendar.astimezoneUtc (cal : Calendar) (d : DateTime) (offset : ℤ) : Option DateTime :=
  if offset = 0 then some d else cal.shift d offset

namespace DateTime

end DateTime
