import ScriptHost.Json.Decoder
import ScriptHost.Json.Layout

/-!
# JSON values

A JSON text as a tree, for readers that do not know yet what they want.
Members keep their order.
-/

namespace ScriptHost

/-- A JSON document as a tree; the fields of an object are in the order of the text. -/
inductive Json where
  | null
  | bool (b : Bool)
  | whole (n : Int)
  | float (x : Binary64)
  | text (s : String)
  | array (items : List Json)
  | object (members : List (String × Json))
  deriving Inhabited

namespace Json

def arrayTokens (items : List (List Token)) : List Token :=
  .openArray :: (items.intersperse [.comma]).flatten ++ [.closeArray]

def objectTokens (members : List (String × List Token)) : List Token :=
  .openObject ::
    ((members.map fun (key, value) => .string key :: .colon :: value).intersperse [.comma]).flatten
    ++ [.closeObject]

mutual

def tokens : Json → List Token
  | null => [.null]
  | bool b => [.bool b]
  | whole n => [.int n]
  | float x => [.float x]
  | text s => [.string s]
  | array items => arrayTokens (itemTokens items)
  | object members => objectTokens (memberTokens members)

def itemTokens : List Json → List (List Token)
  | [] => []
  | item :: items => item.tokens :: itemTokens items

def memberTokens : List (String × Json) → List (String × List Token)
  | [] => []
  | (key, value) :: members => (key, value.tokens) :: memberTokens members

end

def render (j : Json) : String := compact j.tokens

def anyValue (size : Nat) : Nat → Decoder Json
  | 0, ts =>
    match ts with
    | .null :: rest => .ok (.null, rest)
    | .bool b :: rest => .ok (.bool b, rest)
    | .text (some s) :: rest => .ok (.text s, rest)
    | .number literal :: rest =>
      match Number.ofLiteral? literal with
      | some (.whole n) => .ok (.whole n, rest)
      | some (.float x) => .ok (.float x, rest)
      | none => .error .malformed
    | .openArray :: _ | .openObject :: _ => .error .malformed
    | ts => .error (unexpected ts)
  | levels + 1, ts =>
    match ts with
    | .openArray :: rest =>
      Decoder.map .array (Decoder.items (anyValue size levels) (size + 1) true []) rest
    | .openObject :: rest =>
      Decoder.map (fun taken => .object taken.reverse)
        (Decoder.members (fun taken key =>
          .ok (some (Decoder.map (fun value => (key, value) :: taken) (anyValue size levels))))
          (size + 1) true []) rest
    | ts => anyValue size 0 ts

def parse (bytes : Bytes) : Except Failure Json := decode anyValue bytes

/-- The value of a member, the first of that name. -/
def get? (j : Json) (key : String) : Option Json :=
  match j with
  | object members => members.lookup key
  | _ => none

def text? : Json → Option String
  | text s => some s
  | _ => none

def whole? : Json → Option Int
  | whole n => some n
  | _ => none

def bool? : Json → Option Bool
  | bool b => some b
  | _ => none

def items : Json → List Json
  | array items => items
  | _ => []

def members : Json → List (String × Json)
  | object members => members
  | _ => []

end Json

end ScriptHost
