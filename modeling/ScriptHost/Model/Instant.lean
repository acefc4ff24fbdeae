import ScriptHost.Decimal.Basic
import ScriptHost.Text.Blank

/-!
# Instants

A moment in universal time, by the proleptic Gregorian calendar and to the
nanosecond; a minute may have a sixty-first second. It is written
`2024-01-02T03:04:05.120Z` in documents and `2024-01-02 03:04:05.120 UTC` for
people, with no fraction or one of three, six or nine digits, whichever is
exact. The reader takes a local time with its distance from universal time,
one or two digits a field, and blanks between the parts.
-/

namespace ScriptHost

structure Day where
  year : Int
  month : Nat
  day : Nat
  deriving DecidableEq, Repr, Inhabited

namespace Day

def isLeap (year : Int) : Bool := year % 4 == 0 && (year % 100 != 0 || year % 400 == 0)

def lengthOf (year : Int) (month : Nat) : Nat :=
  if month == 2 then (if isLeap year then 29 else 28)
  else if month == 4 || month == 6 || month == 9 || month == 11 then 30
  else 31

/-- A day of the calendar, within the years that are kept. -/
def ofParts? (year : Int) (month day : Nat) : Option Day :=
  if -262143 ≤ year ∧ year ≤ 262142 ∧ 1 ≤ month ∧ month ≤ 12 ∧
      1 ≤ day ∧ day ≤ lengthOf year month
  then some ⟨year, month, day⟩ else none

def next? (d : Day) : Option Day :=
  if d.day < lengthOf d.year d.month then ofParts? d.year d.month (d.day + 1)
  else if d.month < 12 then ofParts? d.year (d.month + 1) 1
  else ofParts? (d.year + 1) 1 1

def previous? (d : Day) : Option Day :=
  if 1 < d.day then ofParts? d.year d.month (d.day - 1)
  else if 1 < d.month then ofParts? d.year (d.month - 1) (lengthOf d.year (d.month - 1))
  else ofParts? (d.year - 1) 12 31

/-- Four digits for the years 0 to 9999, else a sign and at least four. -/
def yearText (year : Int) : String :=
  if 0 ≤ year ∧ year ≤ 9999 then Decimal.padded 4 year.toNat
  else (if year < 0 then "-" else "+") ++ Decimal.padded 4 year.natAbs

def text (d : Day) : String :=
  yearText d.year ++ "-" ++ Decimal.padded 2 d.month ++ "-" ++ Decimal.padded 2 d.day

end Day

/-- A moment: the day, the minute of the day, the second of the minute (up to 60) and its
nanoseconds. -/
structure Instant where
  day : Day
  minute : Nat
  second : Nat
  nanos : Nat
  deriving DecidableEq, Repr, Inhabited

namespace Instant

def minuteText (t : Instant) : String :=
  Decimal.padded 2 (t.minute / 60) ++ ":" ++ Decimal.padded 2 (t.minute % 60)

def fractionText (nanos : Nat) : String :=
  if nanos = 0 then ""
  else if nanos % 1000000 = 0 then "." ++ Decimal.padded 3 (nanos / 1000000)
  else if nanos % 1000 = 0 then "." ++ Decimal.padded 6 (nanos / 1000)
  else "." ++ Decimal.padded 9 nanos

def clockText (t : Instant) : String :=
  t.minuteText ++ ":" ++ Decimal.padded 2 t.second ++ fractionText t.nanos

/-- The text in documents. -/
def encoded (t : Instant) : String := t.day.text ++ "T" ++ t.clockText ++ "Z"

/-- The text for people. -/
def text (t : Instant) : String := t.day.text ++ " " ++ t.clockText ++ " UTC"

def brief (t : Instant) : String := t.day.text ++ " " ++ t.minuteText

/-! ## Reading -/

def skipBlanks (cs : List Char) : List Char := cs.dropWhile Text.isBlank

/-- The number that at most `width` digits spell; there has to be one. -/
def number? (width : Nat) (cs : List Char) : Option (Nat × List Char) :=
  let digits := (cs.take width).takeWhile Char.isDigit
  if digits.isEmpty then none
  else some (digits.foldl (fun n c => n * 10 + (c.toNat - 48)) 0, cs.drop digits.length)

/-- A number after blanks. -/
def field? (width : Nat) (cs : List Char) : Option (Nat × List Char) :=
  number? width (skipBlanks cs)

/-- A year: four digits, or any number of them behind a sign. -/
def year? (cs : List Char) : Option (Int × List Char) :=
  match skipBlanks cs with
  | '-' :: rest => (number? rest.length rest).map fun (n, rest) => (-(n : Int), rest)
  | '+' :: rest => (number? rest.length rest).map fun (n, rest) => ((n : Int), rest)
  | cs => (number? 4 cs).map fun (n, rest) => ((n : Int), rest)

def mark? (c : Char) (cs : List Char) : Option (List Char) :=
  match skipBlanks cs with
  | d :: rest => if d = c then some rest else none
  | [] => none

/-- The nanoseconds of a fraction, if there is one; digits beyond the ninth are dropped. -/
def fraction? : List Char → Option (Nat × List Char)
  | '.' :: cs =>
    (number? 9 cs).map fun (n, rest) =>
      (n * Nat.pow 10 (9 - (cs.length - rest.length)), rest.dropWhile Char.isDigit)
  | cs => some (0, cs)

/-- The distance from universal time in minutes: `Z`, `UTC`, or a sign, two digits of hours,
colons or blanks, two digits of minutes. -/
def offset? (cs : List Char) : Option (Int × List Char) :=
  let signed (sign : Int) (cs : List Char) : Option (Int × List Char) :=
    match cs with
    | h :: h' :: rest =>
      if h.isDigit && h'.isDigit then
        match rest.dropWhile (fun c => c == ':' || Text.isBlank c) with
        | m :: m' :: rest =>
          if m.isDigit && m'.isDigit && m.toNat < 54 then
            let hours := (h.toNat - 48) * 10 + (h'.toNat - 48)
            let minutes := (m.toNat - 48) * 10 + (m'.toNat - 48)
            if hours < 24 then some (sign * (hours * 60 + minutes : Nat), rest) else none
          else none
        | _ => none
      else none
    | _ => none
  if (cs.take 3).map Char.toUpper = ['U', 'T', 'C'] then some (0, cs.drop 3)
  else match cs with
    | 'Z' :: rest | 'z' :: rest => some (0, rest)
    | '+' :: rest => signed 1 rest
    | '-' :: rest => signed (-1) rest
    | c :: rest => if c.toNat = 0x2212 then signed (-1) rest else none
    | [] => none

/-- The same moment in universal time, for a local time `offset` minutes ahead of it. -/
def ofLocal? (day : Day) (minute : Nat) (offset : Int) (second nanos : Nat) : Option Instant :=
  let m := (minute : Int) - offset
  if m < 0 then day.previous?.map fun d => ⟨d, (m + 1440).toNat, second, nanos⟩
  else if 1440 ≤ m then day.next?.map fun d => ⟨d, (m - 1440).toNat, second, nanos⟩
  else some ⟨day, m.toNat, second, nanos⟩

def parse? (s : String) : Option Instant := do
  let (year, cs) ← year? s.toList
  let cs ← mark? '-' cs
  let (month, cs) ← field? 2 cs
  let cs ← mark? '-' cs
  let (dayOfMonth, cs) ← field? 2 cs
  let cs ← match cs with
    | 'T' :: cs | 't' :: cs | ' ' :: cs => some cs
    | _ => none
  let (hour, cs) ← field? 2 cs
  let cs ← mark? ':' cs
  let (minute, cs) ← field? 2 cs
  let cs ← mark? ':' cs
  let (second, cs) ← field? 2 cs
  let (nanos, cs) ← fraction? cs
  let (offset, cs) ← offset? (skipBlanks cs)
  if (skipBlanks cs).isEmpty && hour < 24 && minute < 60 && second ≤ 60 then
    let day ← Day.ofParts? year month dayOfMonth
    ofLocal? day (hour * 60 + minute) offset second nanos
  else none

end Instant

end ScriptHost
