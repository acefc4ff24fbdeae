import ScriptHost.Toml.Basic

/-!
# Filling tables

No key is given twice, no table is opened twice, and a dotted key adds to
tables that dotted keys made only. Every change below gives `none` where a
document breaks one of these rules.
-/

namespace ScriptHost.Toml

namespace Members

def replace (key : String) (value : Value) (m : Members) : Members :=
  m.map fun (k, v) => if k == key then (k, value) else (k, v)

def add? (key : String) (value : Value) (m : Members) : Option Members :=
  if (m.lookup key).isSome then none else some (m ++ [(key, value)])

/-- Change the table at the end of a path. A path of a dotted key leads through tables that may
still grow, a path of a header through any but those in braces, and of an array of tables through
the last one. Missing tables are made. -/
def within? (dotted : Bool) (change : Origin → Members → Option Members) :
    List String → Origin → Members → Option Members
  | [], origin, m => change origin m
  | key :: path, _, m =>
    match m.lookup key with
    | none =>
      let origin := if dotted then .dotted else .implied
      (within? dotted change path origin []).bind fun inner =>
        m.add? key (.table origin inner)
    | some (.table origin inner) =>
      if origin = .braces ∨ (dotted ∧ origin = .header) then none
      else (within? dotted change path origin inner).map fun inner =>
        m.replace key (.table origin inner)
    | some (.tables last before) =>
      (within? dotted change path .header last).map fun last =>
        m.replace key (.tables last before)
    | some _ => none

def assign? (path : List String) (key : String) (value : Value) (origin : Origin) (m : Members) :
    Option Members :=
  within? true (fun origin m =>
    if !path.isEmpty && origin != .dotted then none else m.add? key value) path origin m

def openTable? (path : List String) (key : String) (m : Members) : Option Members :=
  within? false (fun _ m =>
    match m.lookup key with
    | none => m.add? key (.table .header [])
    | some (.table .implied inner) => some (m.replace key (.table .header inner))
    | some _ => none) path .header m

def openArray? (path : List String) (key : String) (m : Members) : Option Members :=
  within? false (fun _ m =>
    match m.lookup key with
    | none => m.add? key (.tables [] [])
    | some (.tables last before) => some (m.replace key (.tables [] (last :: before)))
    | some _ => none) path .header m

def assignIn? (table path : List String) (key : String) (value : Value) (m : Members) :
    Option Members :=
  within? false (assign? path key value) table .header m

end Members

end ScriptHost.Toml
