import ScriptHost.Toml.Statement

/-!
# Documents

The table that the statements of a text make.
-/

namespace ScriptHost.Toml

/-- The table so far, and the path of the open one. -/
structure Draft where
  root : Members
  table : List String

def Draft.take? (d : Draft) : Statement → Option Draft
  | .assign path key value =>
    (d.root.assignIn? d.table path key value).map fun root => ⟨root, d.table⟩
  | .table path key => (d.root.openTable? path key).map fun root => ⟨root, path ++ [key]⟩
  | .tableOf path key => (d.root.openArray? path key).map fun root => ⟨root, path ++ [key]⟩

def ofStatements? (statements : List Statement) : Option Members :=
  (statements.foldlM Draft.take? ⟨[], []⟩).map (·.root)

def skipMark : List Char → List Char
  | c :: cs => if c = '\ufeff' then cs else c :: cs
  | [] => []

def parse? (text : String) : Option Members :=
  let cs := skipMark text.toList
  (statements? cs.length cs).bind ofStatements?

end ScriptHost.Toml
