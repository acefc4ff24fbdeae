import ScriptHost.Decimal.Reading

/-!
# TOML values

A document is a table. Where a table comes from decides what may still be
added to it, so every table bears its origin while a document is read.
-/

namespace ScriptHost.Toml

/-- How a table came to be. -/
inductive Origin where
  /-- A header names it, or it is the document itself. -/
  | header
  /-- Only headers of tables inside it name it. -/
  | implied
  /-- A dotted key made it. -/
  | dotted
  /-- It stands in braces, and is complete. -/
  | braces
  deriving DecidableEq, Repr, Inhabited

/-- Dates and times are known as such only. The tables of an array that headers make are kept
apart: the one being filled, and those before it. -/
inductive Value where
  | string (s : String)
  | integer (n : Int)
  | float (x : Binary64)
  | boolean (b : Bool)
  | moment
  | array (items : List Value)
  | table (origin : Origin) (members : List (String × Value))
  | tables (last : List (String × Value)) (before : List (List (String × Value)))
  deriving Inhabited

abbrev Members := List (String × Value)

end ScriptHost.Toml
