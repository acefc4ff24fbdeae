import ScriptHost.Environment.Basic
import ScriptHost.Text.Blank
import ScriptHost.Text.Utf8
import ScriptHost.Text.Visible

/-!
# Files of variables

A file beside the program may set variables that the environment leaves unset,
one assignment a line. Values may be quoted: between single quotes everything
stands for itself, between double quotes and outside quotes a backslash
escapes and a dollar sign brings in another variable. A quoted value may go on
over several lines. The first line that makes no sense ends the reading; what
stands before it counts.
-/

namespace ScriptHost.Environment

/-! ## Lines -/

/-- Where in a line a character stands, as far as its end is concerned. A blank outside quotes
counts only up to the next character. -/
inductive Place where
  | plain
  | blank
  | escape
  | single
  | singleEscape
  | double
  | doubleEscape
  deriving DecidableEq, Repr, Inhabited

namespace Place

/-- Outside quotes, whatever came before. -/
def opening (c : Char) : Place :=
  if c = '\\' then escape
  else if c = '"' then double
  else if c = '\'' then single
  else plain

def next (p : Place) (c : Char) : Place :=
  match p with
  | plain => if Text.isBlank c && c != '\n' && c != '\r' then blank else opening c
  | blank => opening c
  | escape => plain
  | single => if c = '\\' then singleEscape else if c = '\'' then plain else single
  | singleEscape => single
  | double => if c = '\\' then doubleEscape else if c = '"' then plain else double
  | doubleEscape => double

end Place

def nextLine (cs : List Char) : List Char := (cs.dropWhile (· != '\n')).drop 1

/-- The first assignment of a text, and what follows it: up to an end of line outside quotes, or to
a comment behind a blank. A text that ends elsewhere has none. -/
def assignment? : Place → List Char → Option (List Char × List Char)
  | .plain, [] => some ([], [])
  | _, [] => none
  | p, c :: cs =>
    if p = .blank ∧ c = '#' then some ([], nextLine cs)
    else if p.next c = .plain ∧ c = '\n' then some ([], cs)
    else (assignment? (p.next c) cs).map fun (line, rest) => (c :: line, rest)

def isComment (cs : List Char) : Bool :=
  ((cs.takeWhile (· != '\n')).dropWhile Text.isBlank).head? == some '#'

/-- The assignments of a text, comments left out, up to the first that has no end. -/
def assignments : Nat → List Char → List (List Char)
  | 0, _ | _, [] => []
  | fuel + 1, cs =>
    if isComment cs then assignments fuel (nextLine cs)
    else match assignment? .plain cs with
      | none => []
      | some (line, rest) => line :: assignments fuel rest

/-! ## Values -/

/-- How far the reading of a value has got. `quoted` says whether it goes on between double
quotes. -/
inductive Reading where
  | plain
  | single
  | double
  | escape (quoted : Bool)
  | reference (quoted braced : Bool) (name : List Char)
  | ended
  | comment
  deriving DecidableEq, Repr, Inhabited

/-- Letters and digits; beyond ASCII every visible character counts as one. -/
def isNameChar (c : Char) : Bool := c.isAlphanum || (128 ≤ c.toNat && Text.isVisible c)

def chars (env : Environment) (name : List Char) : List Char :=
  ((env.get? (String.ofList name)).getD "").toList

namespace Reading

def resume (quoted : Bool) : Reading := if quoted then double else plain

/-- One character further: what it adds to the value, and how the reading goes on. -/
def next (env : Environment) (r : Reading) (c : Char) : Option (List Char × Reading) :=
  match r with
  | ended =>
    if c = ' ' ∨ c = '\t' then some ([], ended)
    else if c = '#' then some ([], comment)
    else none
  | comment => some ([], comment)
  | escape quoted =>
    if c = 'n' then some (['\n'], resume quoted)
    else if c = '\\' ∨ c = '\'' ∨ c = '"' ∨ c = '$' ∨ c = ' ' then some ([c], resume quoted)
    else none
  | single => if c = '\'' then some ([], plain) else some ([c], single)
  | reference quoted true name =>
    if c = '\x7d' then some (env.chars name, resume quoted)
    else some ([], reference quoted true (name ++ [c]))
  | reference quoted false name =>
    if isNameChar c then some ([], reference quoted false (name ++ [c]))
    else if c = '\x7b' ∧ name.isEmpty then some ([], reference quoted true [])
    else if c = '$' then some (env.chars name, reference quoted false [])
    else some (env.chars name ++ [c], resume quoted)
  | double =>
    if c = '$' then some ([], reference true false [])
    else if c = '"' then some ([], plain)
    else if c = '\\' then some ([], escape true)
    else some ([c], double)
  | plain =>
    if c = '$' then some ([], reference false false [])
    else if c = '\'' then some ([], single)
    else if c = '"' then some ([], double)
    else if c = '\\' then some ([], escape false)
    else if c = ' ' ∨ c = '\t' then some ([], ended)
    else some ([c], plain)

/-- What the end of the line adds; quotes and braces have to be closed by then. -/
def finish (env : Environment) : Reading → Option (List Char)
  | single | double | escape true | reference true _ _ | reference _ true _ => none
  | reference false false name => some (env.chars name)
  | plain | escape false | ended | comment => some []

end Reading

def value? (env : Environment) : Reading → List Char → Option (List Char)
  | r, [] => r.finish env
  | r, c :: cs =>
    match r.next env c with
    | none => none
    | some (out, r) => (value? env r cs).map (out ++ ·)

/-! ## Assignments -/

def skipBlank (cs : List Char) : List Char := cs.dropWhile Text.isBlank

/-- A name: a letter or an underscore first, then also digits and points. -/
def name? (cs : List Char) : Option (List Char × List Char) :=
  let isHead (c : Char) : Bool := c.isAlpha || c == '_'
  let isPart (c : Char) : Bool := c.isAlphanum || c == '_' || c == '.'
  match cs with
  | c :: _ => if isHead c then some (cs.takeWhile isPart, cs.dropWhile isPart) else none
  | [] => none

def equals? : List Char → Option (List Char)
  | '=' :: cs => some cs
  | _ => none

/-- The name before the equals sign, possibly behind the word `export`, and what follows. -/
def target? (cs : List Char) : Option (List Char × List Char) := do
  let (name, rest) ← name? cs
  match equals? (skipBlank rest) with
  | some rest => some (name, rest)
  | none =>
    if name = ['e', 'x', 'p', 'o', 'r', 't'] then
      let (name, rest) ← name? (skipBlank rest)
      let rest ← equals? (skipBlank rest)
      some (name, rest)
    else none

/-- Carry out one assignment; `none` if it makes no sense. A line without content is skipped. -/
def assign? (env : Environment) (line : List Char) : Option Environment :=
  match Text.trim line with
  | [] => some env
  | '#' :: _ => some env
  | cs => do
    let (name, rest) ← target? cs
    let value ← match skipBlank rest with
      | [] => some []
      | '#' :: _ => some []
      | rest => value? env .plain rest
    some (env.provide (String.ofList name) (String.ofList value))

def assignAll (env : Environment) : List (List Char) → Environment
  | [] => env
  | line :: lines =>
    match assign? env line with
    | some env => assignAll env lines
    | none => env

/-- The text of a file up to the first line that is none. -/
def validText : List Bytes → List Char
  | [] => []
  | line :: lines =>
    match Text.ofBytes? line with
    | some s => s.toList ++ validText lines
    | none => []

def bytesLines (data : Bytes) : List Bytes :=
  data.foldr (fun b lines =>
    if b = 10 then [b] :: lines
    else match lines with
      | line :: more => (b :: line) :: more
      | [] => [[b]]) []

def fileText (data : Bytes) : List Char :=
  match validText (bytesLines data) with
  | c :: cs => if c = '\ufeff' then cs else c :: cs
  | [] => []

def load (env : Environment) (data : Bytes) : Environment :=
  let cs := fileText data
  assignAll env (assignments cs.length cs)

def words (data : Bytes) : List String :=
  let isPart (c : Char) : Bool := c.isAlphanum || c == '_' || c == '.'
  let (word, done) := (fileText data).foldr (fun c (word, done) =>
    if isPart c then (c :: word, done)
    else ([], word :: done)) (([], []) : List Char × List (List Char))
  ((word :: done).filter (!·.isEmpty)).map String.ofList

end ScriptHost.Environment
