import ScriptHost.Text.Utf8
import ScriptHost.Decimal.Reading
import ScriptHost.Decimal.Shortest

/-!
# JSON tokens

A JSON text is read and written as a list of tokens. A `text` token keeps
`none` when it is closed properly but spells no text (a lone surrogate, bad
UTF-8): that is an error only for a reader that wants its content. A `broken`
token stands for the place where the characters stop making sense; it records
what a reader that wants the value reports and what one that skips it reports.
-/

namespace ScriptHost

/-- Why a JSON text is refused: no JSON, JSON of the wrong shape, or an early end. -/
inductive Failure where
  | malformed
  | mismatched
  | truncated
  deriving DecidableEq, Repr, Inhabited

namespace Json

inductive Token where
  | openArray
  | closeArray
  | openObject
  | closeObject
  | comma
  | colon
  | null
  | bool (b : Bool)
  | number (literal : String)
  | text (content : Option String)
  | broken (quoted : Bool) (read skipped : Failure)
  deriving DecidableEq, Repr, Inhabited

/-- A number as a reader sees it: whole numbers of 64 bits stay exact. -/
inductive Number where
  | whole (n : Int)
  | float (x : Binary64)
  deriving DecidableEq, Repr

namespace Number

def digitsValue (digits : List Char) : Nat :=
  digits.foldl (fun n c => n * 10 + (c.toNat - 48)) 0

def signedValue : List Char → Int
  | '-' :: digits => -(digitsValue digits : Int)
  | '+' :: digits => digitsValue digits
  | digits => digitsValue digits

def fractionDigits : List Char → List Char
  | '.' :: rest => rest.takeWhile Char.isDigit
  | _ => []

def exponentPart (rest : List Char) : Option (List Char) :=
  match rest.dropWhile (fun c => c == '.' || c.isDigit) with
  | _ :: exponent => some exponent
  | [] => none

/-- The value of a literal without its sign; `none` if it is too large for a double.
Whole numbers beyond 64 bits, and a negative zero, are doubles. -/
def ofUnsigned (negative : Bool) (chars : List Char) : Option Number :=
  let whole := chars.takeWhile Char.isDigit
  let rest := chars.dropWhile Char.isDigit
  let n := digitsValue whole
  if rest.isEmpty && (if negative then n != 0 && n ≤ Nat.pow 2 63 else n < UInt64.size) then
    some (.whole (if negative then -(n : Int) else n))
  else
    let fraction := fractionDigits rest
    let exponent := ((exponentPart rest).map signedValue).getD 0
    (Binary64.ofDecimal negative (digitsValue (whole ++ fraction))
      (exponent - fraction.length)).map .float

def ofLiteral? (literal : String) : Option Number :=
  match literal.toList with
  | '-' :: rest => ofUnsigned true rest
  | chars => ofUnsigned false chars

/-- How doubles are written: positional from `1e-5` up to `1e16`, always with a point or an
exponent, the exponent signed. -/
def floatLiteral (x : Binary64) : String :=
  let sign := if x.negative then "-" else ""
  if x.exponentField = 0 ∧ x.fractionField = 0 then sign ++ "0.0"
  else
    let d := x.shortest
    let digits := (toString d.digits).toList
    let point : Int := digits.length + d.exponent
    let body : List Char :=
      if 0 ≤ d.exponent ∧ point ≤ 16 then
        digits ++ List.replicate d.exponent.toNat '0' ++ ['.', '0']
      else if 0 < point ∧ point ≤ 16 then
        digits.take point.toNat ++ '.' :: digits.drop point.toNat
      else if -5 < point ∧ point ≤ 0 then
        ['0', '.'] ++ List.replicate point.natAbs '0' ++ digits
      else
        let exponent := point - 1
        let mantissa := match digits with
          | [d] => [d]
          | d :: more => d :: '.' :: more
          | [] => []
        mantissa ++ ['e', if exponent < 0 then '-' else '+'] ++ (toString exponent.natAbs).toList
    sign ++ String.ofList body

end Number

namespace Token

def int (n : Int) : Token := .number (toString n)

/-- A double; one that is not finite is written as `null`. -/
def float (x : Binary64) : Token :=
  if x.isFinite then .number (Number.floatLiteral x) else .null

def string (s : String) : Token := .text (some s)

end Token

end Json

end ScriptHost
