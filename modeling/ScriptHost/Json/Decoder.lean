import ScriptHost.Json.Lexer

/-!
# Reading typed values from tokens

A decoder takes the tokens from where its value starts and returns what is
left, or the first failure met from left to right. Two bounds are passed
along: `levels` is how many more brackets may be opened, `size` is at least
the number of tokens and bounds every loop over items.
-/

namespace ScriptHost.Json

/-- A reader of one value at the head of the tokens. -/
abbrev Decoder (α : Type) := List Token → Except Failure (α × List Token)

def maxLevels : Nat := 127

/-- What a reader reports that wants some other kind of value. -/
def unexpected : List Token → Failure
  | [] => .truncated
  | .broken _ read _ :: _ => read
  | .number literal :: _ =>
    if (Number.ofLiteral? literal).isSome then .mismatched else .malformed
  | .text none :: _ => .malformed
  | .text (some _) :: _ | .null :: _ | .bool _ :: _ | .openArray :: _ | .openObject :: _ =>
    .mismatched
  | _ => .malformed

namespace Decoder

def map {α β : Type} (f : α → β) (d : Decoder α) : Decoder β := fun ts =>
  match d ts with
  | .ok (a, rest) => .ok (f a, rest)
  | .error e => .error e

/-- Refuse values that `f` has no answer for. -/
def checked {α β : Type} (f : α → Option β) (d : Decoder α) : Decoder β := fun ts =>
  match d ts with
  | .ok (a, rest) =>
    match f a with
    | some b => .ok (b, rest)
    | none => .error .mismatched
  | .error e => .error e

def string : Decoder String
  | .text (some s) :: rest => .ok (s, rest)
  | ts => .error (unexpected ts)

def bool : Decoder Bool
  | .bool b :: rest => .ok (b, rest)
  | ts => .error (unexpected ts)

def null : Decoder Unit
  | .null :: rest => .ok ((), rest)
  | ts => .error (unexpected ts)

def parsed {α : Type} (parse : String → Option α) : Decoder α := checked parse string

def int (low high : Int) : Decoder Int
  | .number literal :: rest =>
    match Number.ofLiteral? literal with
    | some (.whole n) => if low ≤ n ∧ n ≤ high then .ok (n, rest) else .error .mismatched
    | some (.float _) => .error .mismatched
    | none => .error .malformed
  | ts => .error (unexpected ts)

/-- A double; whole numbers are taken too. -/
def float : Decoder Binary64
  | .number literal :: rest =>
    match Number.ofLiteral? literal with
    | some (.whole n) =>
      match Binary64.ofDecimal (n < 0) n.natAbs 0 with
      | some x => .ok (x, rest)
      | none => .error .malformed
    | some (.float x) => .ok (x, rest)
    | none => .error .malformed
  | ts => .error (unexpected ts)

/-! ## Skipping -/

/-- What the value being skipped goes on with. -/
inductive Awaits where
  | value
  | opened
  | separator
  | key
  | colon
  deriving DecidableEq, Repr

inductive Bracket where
  | array
  | object
  deriving DecidableEq, Repr

/-- What may follow a value inside these brackets. -/
def skipFrom : Awaits → List Bracket → List Token → Except Failure (List Token)
  | _, _, [] => .error .truncated
  | .separator, [], ts => .ok ts
  | .separator, b :: bs, t :: ts =>
    match b, t with
    | .array, .comma => skipFrom .value (b :: bs) ts
    | .object, .comma => skipFrom .key (b :: bs) ts
    | .array, .closeArray | .object, .closeObject =>
      if bs.isEmpty then .ok ts else skipFrom .separator bs ts
    | _, _ => .error .malformed
  | .colon, bs, t :: ts =>
    match t with
    | .colon => skipFrom .value bs ts
    | _ => .error .malformed
  | .key, bs, t :: ts =>
    match t with
    | .text _ => skipFrom .colon bs ts
    | .broken true _ skipped => .error skipped
    | _ => .error .malformed
  | .opened, bs, t :: ts =>
    match bs, t with
    | .array :: bs', .closeArray | .object :: bs', .closeObject =>
      if bs'.isEmpty then .ok ts else skipFrom .separator bs' ts
    | .object :: _, .text _ => skipFrom .colon bs ts
    | .object :: _, .broken true _ skipped => .error skipped
    | .object :: _, _ => .error .malformed
    | _, .openArray => skipFrom .opened (.array :: bs) ts
    | _, .openObject => skipFrom .opened (.object :: bs) ts
    | _, .broken _ _ skipped => .error skipped
    | _, .null | _, .bool _ | _, .number _ | _, .text _ => skipFrom .separator bs ts
    | _, _ => .error .malformed
  | .value, bs, t :: ts =>
    match t with
    | .openArray => skipFrom .opened (.array :: bs) ts
    | .openObject => skipFrom .opened (.object :: bs) ts
    | .broken _ _ skipped => .error skipped
    | .null | .bool _ | .number _ | .text _ =>
      if bs.isEmpty then .ok ts else skipFrom .separator bs ts
    | _ => .error .malformed

/-- Pass over one value of any kind, looking at its outline only. -/
def skip (ts : List Token) : Except Failure (List Token) := skipFrom .value [] ts

/-! ## Arrays -/

/-- Where an array goes on, or `none` at its closing bracket. -/
def nextItem (first : Bool) : List Token → Except Failure (Option (List Token))
  | [] => .error .truncated
  | .closeArray :: _ => .ok none
  | .comma :: rest =>
    if first then .ok (some (.comma :: rest))
    else match rest with
      | [] => .error .truncated
      | .closeArray :: _ => .error .malformed
      | _ => .ok (some rest)
  | ts => if first then .ok (some ts) else .error .malformed

def arrayEnd : List Token → Except Failure (List Token)
  | [] => .error .truncated
  | .closeArray :: rest => .ok rest
  | _ => .error .malformed

def items {α : Type} (item : Decoder α) : Nat → Bool → List α → Decoder (List α)
  | 0, _, _, _ => .error .malformed
  | fuel + 1, first, taken, ts =>
    match nextItem first ts with
    | .error e => .error e
    | .ok none =>
      match arrayEnd ts with
      | .error e => .error e
      | .ok rest => .ok (taken.reverse, rest)
    | .ok (some ts) =>
      match item ts with
      | .error e => .error e
      | .ok (a, rest) => items item fuel false (a :: taken) rest

def array {α : Type} (size levels : Nat) (item : Nat → Decoder α) : Decoder (List α)
  | .openArray :: rest =>
    match levels with
    | 0 => .error .malformed
    | levels + 1 => items (item levels) (size + 1) true [] rest
  | ts => .error (unexpected ts)

def counted {α : Type} (item : Decoder α) : Nat → Bool → List α → Decoder (List α)
  | 0, _, taken, ts => .ok (taken.reverse, ts)
  | count + 1, first, taken, ts =>
    match nextItem first ts with
    | .error e => .error e
    | .ok none => .error .mismatched
    | .ok (some ts) =>
      match item ts with
      | .error e => .error e
      | .ok (a, rest) => counted item count false (a :: taken) rest

def tuple {α : Type} (levels count : Nat) (item : Decoder α) : Decoder (List α)
  | .openArray :: rest =>
    match levels with
    | 0 => .error .malformed
    | _ + 1 =>
      match counted item count true [] rest with
      | .error e => .error e
      | .ok (as, rest) =>
        match arrayEnd rest with
        | .error e => .error e
        | .ok rest => .ok (as, rest)
  | ts => .error (unexpected ts)

/-! ## Objects -/

def keyHere : List Token → Except Failure (String × List Token)
  | [] => .error .truncated
  | .text (some key) :: rest => .ok (key, rest)
  | .broken true read _ :: _ => .error read
  | _ => .error .malformed

/-- The next key of an object, or `none` at its closing bracket. -/
def nextKey (first : Bool) : List Token → Except Failure (Option String × List Token)
  | [] => .error .truncated
  | .closeObject :: rest => .ok (none, rest)
  | ts =>
    match first, ts with
    | false, .comma :: rest => (keyHere rest).map fun (key, rest) => (some key, rest)
    | true, ts => (keyHere ts).map fun (key, rest) => (some key, rest)
    | _, _ => .error .malformed

def colon : List Token → Except Failure (List Token)
  | [] => .error .truncated
  | .colon :: rest => .ok rest
  | _ => .error .malformed

/-- What to do with a member: how to read its value into the draft of the record, or `none` to
skip it. A key that may not come again is refused at once. -/
abbrev Field (δ : Type) := δ → String → Except Failure (Option (Decoder δ))

def members {δ : Type} (field : Field δ) : Nat → Bool → δ → Decoder δ
  | 0, _, _, _ => .error .malformed
  | fuel + 1, first, draft, ts =>
    match nextKey first ts with
    | .error e => .error e
    | .ok (none, rest) => .ok (draft, rest)
    | .ok (some key, rest) =>
      match field draft key with
      | .error e => .error e
      | .ok reader =>
        match colon rest with
        | .error e => .error e
        | .ok rest =>
          match reader with
          | none =>
            match skip rest with
            | .error e => .error e
            | .ok rest => members field fuel false draft rest
          | some reader =>
            match reader rest with
            | .error e => .error e
            | .ok (draft, rest) => members field fuel false draft rest

/-- The values of the named fields in order; an array may stop early. -/
def positions {δ : Type} (field : Field δ) : List String → Bool → δ → Decoder δ
  | [], _, draft, ts => .ok (draft, ts)
  | name :: names, first, draft, ts =>
    match nextItem first ts with
    | .error e => .error e
    | .ok none => .ok (draft, ts)
    | .ok (some ts) =>
      match field draft name with
      | .error e => .error e
      | .ok none => .error .mismatched
      | .ok (some reader) =>
        match reader ts with
        | .error e => .error e
        | .ok (draft, rest) => positions field names false draft rest

/-- A record, written as an object or as the array of its fields in order. `finish` fills in
what may be missing and refuses what may not. -/
def record {δ α : Type} (size levels : Nat) (names : List String) (start : δ)
    (field : Nat → Field δ) (finish : δ → Option α) : Decoder α
  | .openObject :: rest =>
    match levels with
    | 0 => .error .malformed
    | levels + 1 =>
      match members (field levels) (size + 1) true start rest with
      | .error e => .error e
      | .ok (draft, rest) =>
        match finish draft with
        | some a => .ok (a, rest)
        | none => .error .mismatched
  | .openArray :: rest =>
    match levels with
    | 0 => .error .malformed
    | levels + 1 =>
      match positions (field levels) names true start rest with
      | .error e => .error e
      | .ok (draft, rest) =>
        match finish draft with
        | none => .error .mismatched
        | some a =>
          match arrayEnd rest with
          | .error e => .error e
          | .ok rest => .ok (a, rest)
  | ts => .error (unexpected ts)

def once {δ α : Type} (old : Option α) (reader : Decoder α) (put : α → δ) :
    Except Failure (Option (Decoder δ)) :=
  match old with
  | some _ => .error .mismatched
  | none => .ok (some (map put reader))

/-- An object whose keys are names; a name that comes again replaces its value. -/
def dictionary {α δ : Type} (size levels : Nat) (item : Nat → Decoder α) (start : δ)
    (insert : δ → String → α → δ) : Decoder δ
  | .openObject :: rest =>
    match levels with
    | 0 => .error .malformed
    | levels + 1 =>
      members (fun draft key =>
        .ok (some (map (insert draft key) (item levels))))
        (size + 1) true start rest
  | ts => .error (unexpected ts)

/-- One of a set of names, as a text or as the key of `{name: null}`. -/
def choice {α : Type} (levels : Nat) (parse : String → Option α) : Decoder α
  | [] => .error .truncated
  | .text (some name) :: rest =>
    match parse name with
    | some a => .ok (a, rest)
    | none => .error .mismatched
  | .broken true read _ :: _ => .error read
  | .openObject :: rest =>
    if levels = 0 then .error .malformed
    else match parsed parse rest with
      | .error e => .error e
      | .ok (a, rest) =>
        match colon rest with
        | .error e => .error e
        | .ok rest =>
          match null rest with
          | .error e => .error e
          | .ok (_, .closeObject :: rest) => .ok (a, rest)
          | .ok (_, []) => .error .truncated
          | .ok _ => .error .malformed
  | _ => .error .malformed

end Decoder

/-- Read a whole text. `decoder` gets the bounds on size and nesting. -/
def decode {α : Type} (decoder : Nat → Nat → Decoder α) (bytes : Bytes) : Except Failure α :=
  let tokens := lex bytes
  match decoder tokens.length maxLevels tokens with
  | .error e => .error e
  | .ok (a, []) => .ok a
  | .ok (_, _ :: _) => .error .malformed

end ScriptHost.Json
