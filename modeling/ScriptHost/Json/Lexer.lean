import ScriptHost.Json.Token

/-!
# From bytes to tokens

The lexer reads one byte at a time. Between tokens it skips blanks; inside a
word, a number or a quoted text it is in a mode that says what may follow.
The first byte that fits nowhere ends the list with a `broken` token.
-/

namespace ScriptHost.Json

inductive NumberPlace where
  | sign
  | zero
  | digits
  | point
  | fraction
  | exponent
  | exponentSign
  | exponentDigits
  deriving DecidableEq, Repr

namespace NumberPlace

def complete : NumberPlace → Bool
  | zero | digits | fraction | exponentDigits => true
  | _ => false

def isDigit (b : UInt8) : Bool := 48 ≤ b && b ≤ 57

def isExponentMark (b : UInt8) : Bool := b == 101 || b == 69

def next (b : UInt8) : NumberPlace → Option NumberPlace
  | sign => if b == 48 then some zero else if isDigit b then some digits else none
  | zero => if b == 46 then some point else if isExponentMark b then some exponent else none
  | digits =>
    if isDigit b then some digits
    else if b == 46 then some point
    else if isExponentMark b then some exponent
    else none
  | point => if isDigit b then some fraction else none
  | fraction =>
    if isDigit b then some fraction
    else if isExponentMark b then some exponent
    else none
  | exponent =>
    if isDigit b then some exponentDigits
    else if b == 43 || b == 45 then some exponentSign
    else none
  | exponentSign | exponentDigits => if isDigit b then some exponentDigits else none

end NumberPlace

inductive Escape where
  | none
  | backslash
  | hex (read value : Nat) (valid : Bool)
  deriving DecidableEq, Repr

/-- A quoted text being read: its bytes so far (last first), a high surrogate that waits for its
low half, and whether a surrogate was left alone. -/
structure Quoted where
  seen : Bytes
  pending : Option Nat
  lone : Bool
  escape : Escape
  deriving DecidableEq, Repr

namespace Quoted

def push (q : Quoted) (c : Nat) : Quoted :=
  { q with seen := (String.utf8EncodeChar (Char.ofNat c)).reverse ++ q.seen, escape := .none }

/-- A `\u` escape is complete: join surrogates, note those that stay alone. -/
def unit (q : Quoted) (u : Nat) : Quoted :=
  let high := 0xd800 ≤ u ∧ u < 0xdc00
  let low := 0xdc00 ≤ u ∧ u < 0xe000
  match q.pending with
  | some h =>
    if low then
      { q with pending := none }.push (0x10000 + (h - 0xd800) * 0x400 + (u - 0xdc00))
    else { q with pending := none, lone := true, escape := .none }
  | none =>
    if high then { q with pending := some u, escape := .none }
    else if low then { q with lone := true, escape := .none }
    else q.push u

def settle (q : Quoted) : Quoted :=
  { q with lone := q.lone || q.pending.isSome, pending := none }

def content (q : Quoted) : Option String :=
  if q.settle.lone then none else Text.ofBytes? q.seen.reverse

end Quoted

inductive Mode where
  | between
  | word (rest : Bytes) (token : Token)
  | number (place : NumberPlace) (seen : Bytes)
  | quoted (q : Quoted)
  | stopped
  deriving DecidableEq, Repr

/-- The tokens read so far (last first) and what is being read. -/
structure Lexer where
  tokens : List Token
  mode : Mode
  deriving DecidableEq, Repr

namespace Lexer

def start : Lexer := ⟨[], .between⟩

def emit (l : Lexer) (t : Token) : Lexer := ⟨t :: l.tokens, .between⟩

def stop (l : Lexer) (quoted : Bool) (read skipped : Failure) : Lexer :=
  ⟨.broken quoted read skipped :: l.tokens, .stopped⟩

def enter (l : Lexer) (m : Mode) : Lexer := { l with mode := m }

def isBlank (b : UInt8) : Bool := b == 32 || b == 10 || b == 13 || b == 9

def begin (l : Lexer) (b : UInt8) : Lexer :=
  if isBlank b then l.enter .between
  else if b == 91 then l.emit .openArray
  else if b == 93 then l.emit .closeArray
  else if b == 123 then l.emit .openObject
  else if b == 125 then l.emit .closeObject
  else if b == 44 then l.emit .comma
  else if b == 58 then l.emit .colon
  else if b == 34 then l.enter (.quoted ⟨[], none, false, .none⟩)
  else if b == 45 then l.enter (.number .sign [b])
  else if b == 48 then l.enter (.number .zero [b])
  else if NumberPlace.isDigit b then l.enter (.number .digits [b])
  else if b == 110 then l.enter (.word [117, 108, 108] .null)
  else if b == 116 then l.enter (.word [114, 117, 101] (.bool true))
  else if b == 102 then l.enter (.word [97, 108, 115, 101] (.bool false))
  else l.stop false .malformed .malformed

/-- A byte of a number. A zero is not followed by a digit. -/
def inNumber (l : Lexer) (place : NumberPlace) (seen : Bytes) (b : UInt8) : Lexer :=
  match place.next b with
  | some next => l.enter (.number next (b :: seen))
  | none =>
    if place.complete && !(place == .zero && NumberPlace.isDigit b) then
      (l.emit (.number (Text.ofAscii seen.reverse))).begin b
    else l.stop false .malformed .malformed

def simpleEscape (b : UInt8) : Option Nat :=
  if b == 34 || b == 92 || b == 47 then some b.toNat
  else if b == 98 then some 8
  else if b == 102 then some 12
  else if b == 110 then some 10
  else if b == 114 then some 13
  else if b == 116 then some 9
  else none

def inQuoted (l : Lexer) (q : Quoted) (b : UInt8) : Lexer :=
  match q.escape with
  | .none =>
    if b == 34 then l.emit (.text q.content)
    else if b == 92 then l.enter (.quoted { q with escape := .backslash })
    else if b < 32 then l.stop true .malformed .malformed
    else
      let q := q.settle
      l.enter (.quoted { q with seen := b :: q.seen })
  | .backslash =>
    if b == 117 then l.enter (.quoted { q with escape := .hex 0 0 true })
    else match simpleEscape b with
      | some c => l.enter (.quoted (q.settle.push c))
      | none => l.stop true .malformed .malformed
  | .hex read value valid =>
    let value' := value * 16 + (Text.hexValue? b).getD 0
    let valid' := valid && (Text.hexValue? b).isSome
    if read < 3 then l.enter (.quoted { q with escape := .hex (read + 1) value' valid' })
    else if valid' then l.enter (.quoted (q.unit value'))
    else l.stop true .malformed .malformed

def step (l : Lexer) (b : UInt8) : Lexer :=
  match l.mode with
  | .between => l.begin b
  | .word [] _ => l.stop false .malformed .malformed
  | .word [last] token => if b == last then l.emit token else l.stop false .malformed .malformed
  | .word (c :: rest) token =>
    if b == c then l.enter (.word rest token) else l.stop false .malformed .malformed
  | .number place seen => l.inNumber place seen b
  | .quoted q => l.inQuoted q b
  | .stopped => l

def finish (l : Lexer) : List Token :=
  match l.mode with
  | .between | .stopped => l.tokens.reverse
  | .word _ _ => (l.stop false .truncated .truncated).tokens.reverse
  | .number place seen =>
    if place.complete then (l.emit (.number (Text.ofAscii seen.reverse))).tokens.reverse
    else (l.stop false .truncated .malformed).tokens.reverse
  | .quoted q =>
    (l.stop true (if q.lone then .malformed else .truncated) .truncated).tokens.reverse

end Lexer

def lex (bytes : Bytes) : List Token := (bytes.foldl Lexer.step Lexer.start).finish

end ScriptHost.Json
