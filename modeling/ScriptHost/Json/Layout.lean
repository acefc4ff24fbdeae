import ScriptHost.Json.Token

/-!
# Writing tokens

Two layouts of one token list: `compact` has no blanks; `indented` puts every
item on a line of its own, two spaces a level, and leaves empty brackets
closed.
-/

namespace ScriptHost.Json

def quoteChar (c : Char) : List Char :=
  if c = '"' then ['\\', '"']
  else if c = '\\' then ['\\', '\\']
  else if c = '\n' then ['\\', 'n']
  else if c = '\r' then ['\\', 'r']
  else if c = '\t' then ['\\', 't']
  else if c.toNat = 8 then ['\\', 'b']
  else if c.toNat = 12 then ['\\', 'f']
  else if c.toNat < 32 then
    ['\\', 'u', '0', '0', Text.hexDigit (c.toNat / 16), Text.hexDigit (c.toNat % 16)]
  else [c]

def quote (s : String) : String :=
  (s.foldl (fun out c => (quoteChar c).foldl String.push out) "\"").push '"'

def Token.written : Token → String
  | openArray => "["
  | closeArray => "]"
  | openObject => "\x7b"
  | closeObject => "\x7d"
  | comma => ","
  | colon => ":"
  | null => "null"
  | bool true => "true"
  | bool false => "false"
  | number literal => literal
  | text content => quote (content.getD "")
  | broken _ _ _ => ""

def compact (tokens : List Token) : String :=
  tokens.foldl (fun out t => out ++ t.written) ""

/-- The indented layout so far: the text, the level, and whether a bracket has just been opened. -/
structure Layout where
  out : String
  level : Nat
  fresh : Bool

namespace Layout

def newline (out : String) (level : Nat) : String := (out.push '\n').pushn ' ' (2 * level)

def add (l : Layout) (t : Token) : Layout :=
  let lead := if l.fresh then newline l.out l.level else l.out
  match t with
  | .openArray | .openObject => ⟨lead ++ t.written, l.level + 1, true⟩
  | .closeArray | .closeObject =>
    let level := l.level - 1
    ⟨(if l.fresh then l.out else newline l.out level) ++ t.written, level, false⟩
  | .comma => ⟨newline (l.out ++ t.written) l.level, l.level, false⟩
  | .colon => ⟨l.out ++ ": ", l.level, false⟩
  | _ => ⟨lead ++ t.written, l.level, false⟩

end Layout

def indented (tokens : List Token) : String :=
  (tokens.foldl Layout.add ⟨"", 0, false⟩).out

end ScriptHost.Json
