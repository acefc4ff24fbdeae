import ScriptHost.Toml.Basic
import ScriptHost.Toml.Form

/-!
# Numbers, dates and times

Underscores may stand between digits. Whole numbers have 64 bits and a sign;
in base sixteen, eight and two they are written without one. Every reader
takes the longest text of its kind and gives what follows it.
-/

namespace ScriptHost.Toml

abbrev Digits := List Char

/-- More digits, each possibly behind an underscore; an underscore needs a digit after it. -/
def moreDigits? (isDigit : Char → Bool) : List Char → Option (Digits × List Char)
  | '_' :: c :: rest =>
    if isDigit c then push [c] (moreDigits? isDigit rest) else none
  | ['_'] => none
  | c :: rest => if isDigit c then push [c] (moreDigits? isDigit rest) else some ([], c :: rest)
  | [] => some ([], [])

def digits? (isDigit : Char → Bool) : List Char → Option (Digits × List Char)
  | c :: rest => if isDigit c then push [c] (moreDigits? isDigit rest) else none
  | [] => none

/-- A decimal numeral without a leading zero. -/
def plain? : List Char → Option (Digits × List Char)
  | '0' :: rest => some (['0'], rest)
  | cs => digits? Char.isDigit cs

def sign : List Char → Bool × List Char
  | '-' :: rest => (true, rest)
  | '+' :: rest => (false, rest)
  | cs => (false, cs)

def decimal (digits : Digits) : Nat := digits.foldl (fun n c => n * 10 + Text.digitValue c) 0

def integer? (negative : Bool) (n : Nat) : Option Value :=
  if negative then if n ≤ Nat.pow 2 63 then some (.integer (-n)) else none
  else if n < Nat.pow 2 63 then some (.integer n) else none

/-- A numeral in base `2 ^ bits`. -/
def powerBase? (bits : Nat) (cs : List Char) : Option (Value × List Char) :=
  let value? (c : Char) : Option Nat :=
    (hexNumber? [c]).bind fun d => if d < Nat.pow 2 bits then some d else none
  (digits? (fun c => (value? c).isSome) cs).bind fun (digits, rest) =>
    (integer? false (digits.foldl (fun n c => n * Nat.pow 2 bits + (value? c).getD 0) 0)).map
      fun v => (v, rest)

def exponent? (cs : List Char) : Option (Int × List Char) :=
  let (negative, cs) := sign cs
  (digits? Char.isDigit cs).map fun (digits, rest) =>
    (if negative then -(decimal digits : Int) else decimal digits, rest)

/-- A float; one beyond the largest is infinite, which only a negative one may be. -/
def float? (negative : Bool) (digits fraction : Digits) (exponent : Int) : Option Value :=
  match Binary64.ofDecimal negative (decimal (digits ++ fraction)) (exponent - fraction.length) with
  | some x => some (.float x)
  | none => if negative then some (.float (.infinity true)) else none

/-- What follows the digits of a number decides whether it is a float. -/
def afterDigits? (negative : Bool) (digits : Digits) : List Char → Option (Value × List Char)
  | '.' :: rest =>
    (digits? Char.isDigit rest).bind fun (fraction, rest) =>
      match rest with
      | 'e' :: more | 'E' :: more =>
        (exponent? more).bind fun (e, rest) =>
          (float? negative digits fraction e).map fun v => (v, rest)
      | rest => (float? negative digits fraction 0).map fun v => (v, rest)
  | 'e' :: more | 'E' :: more =>
    (exponent? more).bind fun (e, rest) =>
      (float? negative digits [] e).map fun v => (v, rest)
  | rest => (integer? negative (decimal digits)).map fun v => (v, rest)

def number? (cs : List Char) : Option (Value × List Char) :=
  match cs with
  | '0' :: 'x' :: rest => powerBase? 4 rest
  | '0' :: 'o' :: rest => powerBase? 3 rest
  | '0' :: 'b' :: rest => powerBase? 1 rest
  | cs =>
    let (negative, rest) := sign cs
    match rest with
    | 'i' :: 'n' :: 'f' :: rest => some (.float (.infinity negative), rest)
    | 'n' :: 'a' :: 'n' :: rest => some (.float .nan, rest)
    | rest =>
      (plain? rest).bind fun (digits, rest) => afterDigits? negative digits rest

/-! ## Dates and times -/

/-- A field of exactly so many digits, with bounds. -/
def field? (size low high : Nat) (cs : List Char) : Option (Nat × List Char) :=
  let digits := cs.take size
  let n := decimal digits
  if digits.length = size ∧ digits.all Char.isDigit ∧ low ≤ n ∧ n ≤ high then
    some (n, cs.drop size)
  else none

def expect? (c : Char) : List Char → Option (List Char)
  | d :: rest => if c == d then some rest else none
  | [] => none

def daysInMonth (year month : Nat) : Nat :=
  if month = 2 then
    if year % 4 = 0 ∧ (year % 100 ≠ 0 ∨ year % 400 = 0) then 29 else 28
  else if month = 4 ∨ month = 6 ∨ month = 9 ∨ month = 11 then 30
  else 31

def date? (cs : List Char) : Option (List Char) := do
  let (year, cs) ← field? 4 0 9999 cs
  let cs ← expect? '-' cs
  let (month, cs) ← field? 2 1 12 cs
  let cs ← expect? '-' cs
  let (day, cs) ← field? 2 1 31 cs
  if day ≤ daysInMonth year month then some cs else none

def clock? (cs : List Char) : Option (List Char) := do
  let (_, cs) ← field? 2 0 23 cs
  let cs ← expect? ':' cs
  let (_, cs) ← field? 2 0 59 cs
  return cs

def time? (cs : List Char) : Option (List Char) := do
  let cs ← clock? cs
  let cs ← expect? ':' cs
  let (_, cs) ← field? 2 0 60 cs
  match cs with
  | '.' :: c :: rest =>
    if c.isDigit then some (rest.dropWhile Char.isDigit) else none
  | ['.'] => none
  | cs => some cs

def offset? : List Char → Option (List Char)
  | 'Z' :: rest | 'z' :: rest => some rest
  | '+' :: rest | '-' :: rest => clock? rest
  | cs => some cs

/-- Whether a time follows a date: after a mark, or after a blank if an hour comes next. -/
def hasTime : List Char → Bool
  | c :: rest =>
    (c == 'T' || c == 't' || c == ' ') &&
      match field? 2 0 23 rest with
      | some (_, ':' :: _) => true
      | _ => false
  | [] => false

def moment? (cs : List Char) : Option (List Char) :=
  if (cs.take 4).all Char.isDigit && cs[4]? == some '-' then
    (date? cs).bind fun rest =>
      if hasTime rest then (time? rest.tail).bind offset? else some rest
  else time? cs

def isMoment (cs : List Char) : Bool :=
  ((cs.take 4).all Char.isDigit && cs[4]? == some '-') ||
    ((cs.take 2).all Char.isDigit && cs[2]? == some ':')

end ScriptHost.Toml
