import ScriptHost.Toml.Number
import ScriptHost.Toml.Table

/-!
# Lines of a document

A document is a list of statements, one a line: a key with its value, the
header of a table, or the header of one more table of an array. Blank lines
and comments say nothing. Only a value may take several lines.
-/

namespace ScriptHost.Toml

/-- One expression of a document: `key = value`, `[table]` or `[[array of tables]]`, its dotted key
split into the path and the last name. -/
inductive Statement where
  | assign (path : List String) (key : String) (value : Value)
  | table (path : List String) (key : String)
  | tableOf (path : List String) (key : String)

def skipSpace (cs : List Char) : List Char := cs.dropWhile isSpace

def skipComment : List Char → List Char
  | '#' :: rest => rest.dropWhile isText
  | cs => cs

def lineEnd? (cs : List Char) : Option (List Char) :=
  match skipComment (skipSpace cs) with
  | [] => some []
  | cs => newline? cs

/-! ## Keys -/

def isKeyChar (c : Char) : Bool := c.isAlphanum || c == '_' || c == '-'

/-- One part of a key: bare, or a string on one line. -/
def part? (cs : List Char) : Option (String × List Char) :=
  let text (r : List Char × List Char) : String × List Char := (String.ofList r.1, r.2)
  match cs with
  | '"' :: rest => (Form.basic.read? rest).map text
  | '\'' :: rest => (Form.literal.read? rest).map text
  | cs =>
    if (cs.takeWhile isKeyChar).isEmpty then none
    else some (String.ofList (cs.takeWhile isKeyChar), cs.dropWhile isKeyChar)

/-- How many parts a key may have, and how deep values may nest, at most less one. -/
def depthLimit : Nat := 80

/-- The parts of a key, the last first, with blanks around each. -/
def parts? : Nat → List String → List Char → Option (List String × List Char)
  | 0, _, _ => none
  | fuel + 1, before, cs =>
    match part? (skipSpace cs) with
    | none => none
    | some (name, rest) =>
      match skipSpace rest with
      | '.' :: rest => parts? fuel (name :: before) rest
      | rest => some (name :: before, rest)

def key? (cs : List Char) : Option (List String × String × List Char) :=
  match parts? (depthLimit - 1) [] cs with
  | some (name :: before, rest) => some (before.reverse, name, rest)
  | _ => none

/-! ## Values -/

def skipBlank : Nat → List Char → List Char
  | 0, cs => cs
  | fuel + 1, cs =>
    match newline? (skipComment (skipSpace cs)) with
    | some rest => skipBlank fuel rest
    | none => skipSpace cs

def word? (word : List Char) (value : Value) (cs : List Char) : Option (Value × List Char) :=
  if word.isPrefixOf cs then some (value, cs.drop word.length) else none

/-- The items of an array, up to the closing bracket; a comma may follow the last. -/
def items? (value? : List Char → Option (Value × List Char)) :
    Nat → List Char → Option (List Value × List Char)
  | 0, _ => none
  | fuel + 1, cs =>
    match skipBlank cs.length cs with
    | ']' :: rest => some ([], rest)
    | cs => do
      let (v, rest) ← value? cs
      match skipBlank rest.length rest with
      | ',' :: rest => (items? value? fuel rest).map fun (vs, rest) => (v :: vs, rest)
      | ']' :: rest => some ([v], rest)
      | _ => none

def keyValue? (value? : List Char → Option (Value × List Char)) (cs : List Char) :
    Option (List String × String × Value × List Char) := do
  let (path, key, cs) ← key? cs
  let cs ← expect? '=' cs
  let (v, cs) ← value? (skipSpace cs)
  return (path, key, v, cs)

/-- The members of a table in braces, on one line, after those read before. -/
def members? (value? : List Char → Option (Value × List Char)) :
    Nat → Members → List Char → Option (Members × List Char)
  | 0, _, _ => none
  | fuel + 1, m, cs => do
    let (path, key, v, cs) ← keyValue? value? cs
    let m ← m.assign? path key v .braces
    match skipSpace cs with
    | ',' :: rest => members? value? fuel m rest
    | '}' :: rest => some (m, rest)
    | _ => none

/-- A value whose brackets nest less than `depth` deep. -/
def value? : Nat → List Char → Option (Value × List Char)
  | depth, cs =>
    match Form.open? cs with
    | some (form, rest) =>
      (form.read? rest).map fun (text, rest) => (.string (String.ofList text), rest)
    | none =>
      match depth, cs with
      | depth + 1, '[' :: rest =>
        (items? (value? depth) cs.length rest).map fun (vs, rest) => (.array vs, rest)
      | depth + 1, '{' :: rest =>
        match skipSpace rest with
        | '}' :: rest => some (.table .braces [], rest)
        | _ =>
          (members? (value? depth) cs.length [] rest).map fun (m, rest) =>
            (.table .braces m, rest)
      | _, 't' :: _ => word? ['t', 'r', 'u', 'e'] (.boolean true) cs
      | _, 'f' :: _ => word? ['f', 'a', 'l', 's', 'e'] (.boolean false) cs
      | _, cs =>
        if isMoment cs then (moment? cs).map fun rest => (.moment, rest) else number? cs

/-! ## Statements -/

def header? : List Char → Option (Statement × List Char)
  | '[' :: '[' :: rest => do
    let (path, key, rest) ← key? rest
    let rest ← (expect? ']' rest).bind (expect? ']')
    let rest ← lineEnd? rest
    return (.tableOf path key, rest)
  | '[' :: rest => do
    let (path, key, rest) ← key? rest
    let rest ← (expect? ']' rest).bind lineEnd?
    return (.table path key, rest)
  | _ => none

def line? (cs : List Char) : Option (Option Statement × List Char) :=
  match skipSpace cs with
  | [] => some (none, [])
  | '#' :: rest => (lineEnd? ('#' :: rest)).map fun rest => (none, rest)
  | '\n' :: rest => some (none, rest)
  | '\r' :: rest => (newline? ('\r' :: rest)).map fun rest => (none, rest)
  | '[' :: rest => (header? ('[' :: rest)).map fun (s, rest) => (some s, rest)
  | cs => do
    let (path, key, v, rest) ← keyValue? (value? (depthLimit - 1)) cs
    let rest ← lineEnd? rest
    return (some (.assign path key v), rest)

def statements? : Nat → List Char → Option (List Statement)
  | _, [] => some []
  | 0, _ => none
  | fuel + 1, cs => do
    let (s, rest) ← line? cs
    let more ← statements? fuel rest
    return s.toList ++ more

end ScriptHost.Toml
