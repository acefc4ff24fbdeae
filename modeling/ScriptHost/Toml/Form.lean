import ScriptHost.Text.Numeral
import ScriptHost.Text.Utf8

/-!
# The forms of a string

A string is written in one of four forms: between double quotes with escapes,
between single quotes as it is, and both also over several lines, between
three quotes. `Form.write` is the written text, `Form.read?` reads from behind
the opening quotes. `Form.choose` is the plainest form that needs no escape.
-/

namespace ScriptHost.Toml

/-- Characters that stand for themselves in a comment and, quotes and backslash apart, in a
string: all but the controls, of which the tab is allowed. -/
def isText (c : Char) : Bool := c == '\t' || (32 ≤ c.toNat && c.toNat != 127)

def isSpace (c : Char) : Bool := c == ' ' || c == '\t'

def newline? : List Char → Option (List Char)
  | '\n' :: rest => some rest
  | '\r' :: '\n' :: rest => some rest
  | _ => none

theorem newline?_length {cs rest : List Char} (h : newline? cs = some rest) :
    rest.length < cs.length := by
  unfold newline? at h
  split at h
  · cases h; simp
  · cases h; simp only [List.length_cons]; omega
  · cases h

def skipNewline (cs : List Char) : List Char := (newline? cs).getD cs

/-- The four ways to quote a text: one line or many, with escapes or without. -/
inductive Form where
  | basic
  | literal
  | basicLines
  | literalLines
  deriving DecidableEq, Repr, Inhabited

def hexNumber? (digits : List Char) : Option Nat :=
  digits.foldl (fun n c => n.bind fun n =>
    if c.toNat < 128 then (Text.hexValue? (UInt8.ofNat c.toNat)).map (n * 16 + ·) else none)
    (some 0)

/-- The character that so many hexadecimal digits name; surrogates are no characters. -/
def codePoint? (size : Nat) (cs : List Char) : Option (Char × List Char) :=
  if cs.length < size then none
  else match hexNumber? (cs.take size) with
    | none => none
    | some n =>
      if n < 0xd800 ∨ (0xe000 ≤ n ∧ n < 0x110000) then some (Char.ofNat n, cs.drop size)
      else none

/-- The character of an escape, read from behind the backslash. -/
def escape? : List Char → Option (Char × List Char)
  | 'b' :: rest => some ('\x08', rest)
  | 't' :: rest => some ('\t', rest)
  | 'n' :: rest => some ('\n', rest)
  | 'f' :: rest => some ('\x0c', rest)
  | 'r' :: rest => some ('\r', rest)
  | '"' :: rest => some ('"', rest)
  | '\\' :: rest => some ('\\', rest)
  | 'u' :: rest => codePoint? 4 rest
  | 'U' :: rest => codePoint? 8 rest
  | _ => none

theorem codePoint?_length {size : Nat} {cs rest : List Char} {c : Char}
    (h : codePoint? size cs = some (c, rest)) : rest.length ≤ cs.length := by
  unfold codePoint? at h
  split at h
  · cases h
  · split at h
    · cases h
    · split at h
      · cases h; simp
      · cases h

theorem escape?_length {cs rest : List Char} {c : Char} (h : escape? cs = some (c, rest)) :
    rest.length < cs.length := by
  unfold escape? at h
  split at h
  case h_8 r => have := codePoint?_length h; simp only [List.length_cons]; omega
  case h_9 r => have := codePoint?_length h; simp only [List.length_cons]; omega
  case h_10 => cases h
  all_goals cases h; simp

/-- The blanks and ends of line that a backslash before an end of line joins. -/
def isJoined (c : Char) : Bool := isSpace c || c == '\n'

def skipLines : List Char → List Char
  | '\r' :: '\n' :: rest => skipLines rest
  | c :: rest => if isJoined c then skipLines rest else c :: rest
  | [] => []

theorem skipLines_length (cs : List Char) : (skipLines cs).length ≤ cs.length := by
  fun_induction skipLines cs with
  | case1 rest ih => simp only [List.length_cons]; omega
  | case2 c rest _ _ ih => simp only [List.length_cons]; omega
  | case3 => simp
  | case4 => simp

/-- What follows a joined line: read from behind a backslash with nothing but blanks after it. -/
def join? (cs : List Char) : Option (List Char) :=
  (newline? (cs.dropWhile isSpace)).map skipLines

theorem join?_length {cs rest : List Char} (h : join? cs = some rest) :
    rest.length < cs.length := by
  unfold join? at h
  cases hn : newline? (cs.dropWhile isSpace) with
  | none => simp [hn] at h
  | some r =>
    rw [hn, Option.map_some, Option.some.injEq] at h
    subst h
    have h1 := newline?_length hn
    have h2 := skipLines_length r
    have h3 := List.IsSuffix.length_le (List.dropWhile_suffix (l := cs) isSpace)
    omega

def push (front : List Char) : Option (List Char × List Char) → Option (List Char × List Char)
  | some (cs, rest) => some (front ++ cs, rest)
  | none => none

namespace Form

def readBasic? (cs : List Char) : Option (List Char × List Char) :=
  match cs with
  | [] => none
  | c :: rest =>
    if c = '"' then some ([], rest)
    else if c = '\\' then
      match _h : escape? rest with
      | some (e, rest') => push [e] (readBasic? rest')
      | none => none
    else if isText c then push [c] (readBasic? rest)
    else none
termination_by cs.length
decreasing_by
  · have := escape?_length _h; simp only [List.length_cons]; omega
  · simp

def readLiteral? : List Char → Option (List Char × List Char)
  | [] => none
  | c :: rest =>
    if c = '\'' then some ([], rest)
    else if isText c then push [c] (readLiteral? rest)
    else none

/-- The closing quotes: three, and up to two more that belong to the string. -/
def close? (quote : Char) (cs : List Char) : Option (List Char × List Char) :=
  let run := (cs.takeWhile (· == quote)).length
  if run < 3 then none
  else
    let inside := min (run - 3) 2
    some (List.replicate inside quote, cs.drop (inside + 3))

def readBasicLines? (cs : List Char) : Option (List Char × List Char) :=
  match cs with
  | [] => none
  | c :: rest =>
    if c = '"' then
      match close? '"' (c :: rest) with
      | some closed => some closed
      | none => push ['"'] (readBasicLines? rest)
    else if c = '\\' then
      match _h : join? rest with
      | some rest' => readBasicLines? rest'
      | none =>
        match _h : escape? rest with
        | some (e, rest') => push [e] (readBasicLines? rest')
        | none => none
    else if isText c then push [c] (readBasicLines? rest)
    else
      match _h : newline? (c :: rest) with
      | some rest' => push ['\n'] (readBasicLines? rest')
      | none => none
termination_by cs.length
decreasing_by
  · simp
  · have := join?_length _h; simp only [List.length_cons]; omega
  · have := escape?_length _h; simp only [List.length_cons]; omega
  · simp
  · exact newline?_length _h

def readLiteralLines? (cs : List Char) : Option (List Char × List Char) :=
  match cs with
  | [] => none
  | c :: rest =>
    if c = '\'' then
      match close? '\'' (c :: rest) with
      | some closed => some closed
      | none => push ['\''] (readLiteralLines? rest)
    else if isText c then push [c] (readLiteralLines? rest)
    else
      match _h : newline? (c :: rest) with
      | some rest' => push ['\n'] (readLiteralLines? rest')
      | none => none
termination_by cs.length
decreasing_by
  · simp
  · simp
  · exact newline?_length _h

/-- The text of a string, read from behind the opening quotes, and what follows it. An end of line
right after three opening quotes is dropped. -/
def read? : Form → List Char → Option (List Char × List Char)
  | basic, cs => readBasic? cs
  | literal, cs => readLiteral? cs
  | basicLines, cs => readBasicLines? (skipNewline cs)
  | literalLines, cs => readLiteralLines? (skipNewline cs)

def quotes : Form → List Char
  | basic => ['"']
  | literal => ['\'']
  | basicLines => ['"', '"', '"']
  | literalLines => ['\'', '\'', '\'']

def open? (cs : List Char) : Option (Form × List Char) :=
  if basicLines.quotes.isPrefixOf cs then some (basicLines, cs.drop 3)
  else if literalLines.quotes.isPrefixOf cs then some (literalLines, cs.drop 3)
  else if basic.quotes.isPrefixOf cs then some (basic, cs.drop 1)
  else if literal.quotes.isPrefixOf cs then some (literal, cs.drop 1)
  else none

/-! ## Writing -/

def control (c : Char) : List Char :=
  ['\\', 'u', '0', '0', upper (c.toNat / 16), upper (c.toNat % 16)]
where
  upper (n : Nat) : Char := if n < 10 then Char.ofNat (48 + n) else Char.ofNat (55 + n)

/-- The escapes of a string between double quotes. In several lines, ends of line and up to two
quotes in a row (`run` of them have just been written) stand as they are. -/
def escaped (lines : Bool) : Nat → List Char → List Char
  | _, [] => []
  | run, c :: cs =>
    if c = '"' then
      if run < (if lines then 2 else 0) then c :: escaped lines (run + 1) cs
      else '\\' :: '"' :: escaped lines 0 cs
    else
      (if c = '\n' then (if lines then ['\n'] else ['\\', 'n'])
      else if c = '\x08' then ['\\', 'b']
      else if c = '\t' then ['\\', 't']
      else if c = '\x0c' then ['\\', 'f']
      else if c = '\r' then ['\\', 'r']
      else if c = '\\' then ['\\', '\\']
      else if isText c then [c]
      else control c) ++ escaped lines 0 cs

def longestRun (c : Char) (cs : List Char) : Nat :=
  (cs.foldl (fun (run, longest) d =>
    if d == c then (run + 1, max longest (run + 1)) else (0, longest)) (0, 0)).2

/-- The first form of these that fits: on one line without a quote, a backslash or an escape;
between single quotes; over lines with double quotes, then with single ones; with escapes. -/
def choose (s : List Char) : Form :=
  let lines := s.contains '\n'
  let controls := s.any fun c => !isText c && c != '\n'
  let backslash := s.contains '\\'
  let double := longestRun '"' s
  let single := longestRun '\'' s
  if !controls && !backslash && double == 0 && !lines then basic
  else if !controls && single == 0 && !lines then literal
  else if !controls && !backslash && double ≤ 2 then basicLines
  else if !controls && single ≤ 2 then literalLines
  else if lines then basicLines
  else basic

/-- A string in a form. Over several lines, a string with an end of line starts on a line of its
own. -/
def write (f : Form) (s : List Char) : List Char :=
  let first := if s.contains '\n' then ['\n'] else []
  f.quotes ++ (match f with
    | basic => escaped false 0 s
    | literal => s
    | basicLines => first ++ escaped true 0 s
    | literalLines => first ++ s) ++ f.quotes

end Form

def writeString (s : String) : List Char := (Form.choose s.toList).write s.toList

end ScriptHost.Toml
