import ScriptHost.Decimal.Fixed
import ScriptHost.Json.Tree
import ScriptHost.Model.Uuid

/-!
# Values

What events carry and script variables hold. The engine never computes with
values; it stores them, shows them and hands them back. In documents a value
is `{"type": …, "value": …}`; the reader takes the two in either order and
also as a pair, and then has to keep a content until its type is known.
-/

namespace ScriptHost

open Json (Token Decoder)

inductive Value where
  | integer (n : Int64)
  | float (x : Binary64)
  | string (s : String)
  | key (id : Uuid)
  | vector (x y z : Binary64)
  | rotation (x y z s : Binary64)
  | list (items : List Value)
  deriving Inhabited

namespace Value

/-- The components of a vector or rotation, five places each. -/
def components (xs : List Binary64) : String :=
  "<" ++ ", ".intercalate (xs.map (Binary64.fixed 5)) ++ ">"

mutual

/-- The text of a value; the items of a list follow one another with nothing between. -/
def text : Value → String
  | integer n => toString n.toInt
  | float x => x.fixed 6
  | string s => s
  | key id => id.text
  | vector x y z => components [x, y, z]
  | rotation x y z s => components [x, y, z, s]
  | list items => itemsText items

def itemsText : List Value → String
  | [] => ""
  | v :: vs => v.text ++ itemsText vs

end

def string? : Value → Option String
  | string s => some s
  | _ => none

def integer? : Value → Option Int64
  | integer n => some n
  | _ => none

/-! ## Written form -/

def tagged (type : String) (content : List Token) : List Token :=
  Json.objectTokens [("type", [.string type]), ("value", content)]

def floatTokens (xs : List Binary64) : List Token :=
  Json.arrayTokens (xs.map fun x => [.float x])

mutual

def tokens : Value → List Token
  | integer n => tagged "integer" [.int n.toInt]
  | float x => tagged "float" [.float x]
  | string s => tagged "string" [.string s]
  | key id => tagged "key" [.string id.text]
  | vector x y z => tagged "vector" (floatTokens [x, y, z])
  | rotation x y z s => tagged "rotation" (floatTokens [x, y, z, s])
  | list items => tagged "list" (Json.arrayTokens (itemTokens items))

def itemTokens : List Value → List (List Token)
  | [] => []
  | v :: vs => v.tokens :: itemTokens vs

end

/-! ## Reading -/

/-- The type of a value, as documents name it. -/
inductive Kind where
  | integer
  | float
  | string
  | key
  | vector
  | rotation
  | list
  deriving DecidableEq, Repr

def Kind.parse? : String → Option Kind
  | "integer" => some .integer
  | "float" => some .float
  | "string" => some .string
  | "key" => some .key
  | "vector" => some .vector
  | "rotation" => some .rotation
  | "list" => some .list
  | _ => none

def ofVector? : List Binary64 → Option Value
  | [x, y, z] => some (.vector x y z)
  | _ => none

def ofRotation? : List Binary64 → Option Value
  | [x, y, z, s] => some (.rotation x y z s)
  | _ => none

def least : Int := Int64.minValue.toInt

def greatest : Int := Int64.maxValue.toInt

/-! ### From a content that was kept -/

def floatOfJson? : Json → Option Binary64
  | .whole n => Binary64.ofDecimal (n < 0) n.natAbs 0
  | .float x => some x
  | _ => none

/-- A kind, as its name or as the only key of an object that holds nothing. -/
def Kind.ofJson? : Json → Option Kind
  | .text s => Kind.parse? s
  | .object [(name, .null)] | .object [(name, .object [])] => Kind.parse? name
  | _ => none

/-- The only member of that name; none if the name comes twice or not at all. -/
def single? (members : List (String × Json)) (name : String) : Option Json :=
  match members.filter (·.1 == name) with
  | [(_, value)] => some value
  | _ => none

mutual

def ofContent? : Kind → Json → Option Value
  | .integer, .whole n =>
    if least ≤ n ∧ n ≤ greatest then some (.integer (Int64.ofInt n)) else none
  | .float, j => (floatOfJson? j).map .float
  | .string, .text s => some (.string s)
  | .key, .text s => (Uuid.parse? s).map .key
  | .vector, .array js => (js.mapM floatOfJson?).bind ofVector?
  | .rotation, .array js => (js.mapM floatOfJson?).bind ofRotation?
  | .list, .array js => (ofContents? js).map .list
  | _, _ => none

def ofContents? : List Json → Option (List Value)
  | [] => some []
  | j :: js =>
    match ofJson? j with
    | none => none
    | some v => (ofContents? js).map (v :: ·)

def ofJson? : Json → Option Value
  | .array [kind, content] =>
    match Kind.ofJson? kind with
    | some k => ofContent? k content
    | none => none
  | .object members =>
    match (single? members "type").bind Kind.ofJson? with
    | some k => ofMember? k members
    | none => none
  | _ => none

/-- The value in the only `value` member. -/
def ofMember? (kind : Kind) : List (String × Json) → Option Value
  | [] => none
  | (name, content) :: members =>
    if name = "value" then
      if members.any (·.1 == "value") then none else ofContent? kind content
    else ofMember? kind members

end

/-! ### From tokens -/

inductive Draft where
  | start
  | kind (k : Kind)
  | content (j : Json)
  | done (v : Value)

def content (levels : Nat) (items : Decoder (List Value)) : Kind → Decoder Value
  | .integer => Decoder.map (fun n => .integer (Int64.ofInt n)) (Decoder.int least greatest)
  | .float => Decoder.map .float Decoder.float
  | .string => Decoder.map .string Decoder.string
  | .key => Decoder.map .key (Decoder.parsed Uuid.parse?)
  | .vector => Decoder.checked ofVector? (Decoder.tuple levels 3 Decoder.float)
  | .rotation => Decoder.checked ofRotation? (Decoder.tuple levels 4 Decoder.float)
  | .list => Decoder.map .list items

def field (size : Nat) (items : Nat → Decoder (List Value)) (levels : Nat) : Decoder.Field Draft
  | draft, "type" =>
    match draft with
    | .start => .ok (some (Decoder.map .kind (Decoder.choice levels Kind.parse?)))
    | .content j =>
      .ok (some (Decoder.checked (fun k => (ofContent? k j).map .done)
        (Decoder.choice levels Kind.parse?)))
    | _ => .error .mismatched
  | draft, "value" =>
    match draft with
    | .start => .ok (some (Decoder.map .content (Json.anyValue size levels)))
    | .kind k => .ok (some (Decoder.map .done (content levels (items levels) k)))
    | _ => .error .mismatched
  | _, _ => .ok none

def Draft.finish? : Draft → Option Value
  | .done v => some v
  | _ => none

/-- A value. Each list takes two levels: the value's own brackets and the list's. -/
def decoder (size : Nat) : Nat → Decoder Value
  | 0 => Decoder.record size 0 [] Draft.start (fun _ _ _ => .ok none) Draft.finish?
  | 1 => Decoder.record size 1 ["type", "value"] .start
      (field size fun _ => Decoder.array size 0 fun _ _ => .error .malformed) Draft.finish?
  | levels + 2 => Decoder.record size (levels + 2) ["type", "value"] .start
      (field size fun _ => Decoder.array size (levels + 1) fun _ => decoder size levels)
      Draft.finish?

def parse (bytes : Bytes) : Except Failure Value := Json.decode decoder bytes

def render (v : Value) : String := Json.compact v.tokens

end Value

end ScriptHost
