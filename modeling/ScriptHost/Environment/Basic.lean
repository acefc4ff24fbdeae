/-!
# The environment

The variables of a process.
-/

namespace ScriptHost

/-- Variables by name; of two with one name the first counts. -/
structure Environment where
  bindings : List (String × String)
  deriving DecidableEq, Repr, Inhabited

namespace Environment

def empty : Environment := ⟨[]⟩

def get? (env : Environment) (name : String) : Option String := env.bindings.lookup name

def provide (env : Environment) (name value : String) : Environment :=
  if (env.get? name).isSome then env else ⟨env.bindings ++ [(name, value)]⟩

theorem get?_provide (env : Environment) (name value other : String) :
    (env.provide name value).get? other =
      if other = name then some ((env.get? name).getD value) else env.get? other := by
  unfold provide
  cases h : env.get? name with
  | some v =>
    by_cases ho : other = name
    · simp [ho, h]
    · simp [ho]
  | none =>
    simp only [get?] at h ⊢
    by_cases ho : other = name
    · subst ho; simp [List.lookup_append, h]
    · have : (other == name) = false := by simpa using ho
      cases hl : List.lookup other env.bindings <;>
        simp [List.lookup_append, hl, List.lookup_cons, this, ho]

end Environment

end ScriptHost
