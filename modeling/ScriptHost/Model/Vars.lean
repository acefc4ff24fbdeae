import ScriptHost.Model.Value

/-!
# Variables

A script's global variables by name. The names are kept in ascending order
and each occurs once, so two sets of variables are equal exactly when they
bind the same values.
-/

namespace ScriptHost

/-- Put a binding where its name belongs, in place of an older one. -/
def insertSorted {α : Type} (name : String) (value : α) :
    List (String × α) → List (String × α)
  | [] => [(name, value)]
  | (n, v) :: rest =>
    if name < n then (name, value) :: (n, v) :: rest
    else if n < name then (n, v) :: insertSorted name value rest
    else (name, value) :: rest

theorem mem_insertSorted {α : Type} {name : String} {value : α} {l : List (String × α)}
    {p : String × α} (h : p ∈ insertSorted name value l) : p = (name, value) ∨ p ∈ l := by
  induction l with
  | nil => simpa [insertSorted] using h
  | cons q rest ih =>
    obtain ⟨n, v⟩ := q
    unfold insertSorted at h
    split at h
    · simpa using h
    · split at h
      · rcases List.mem_cons.1 h with h | h
        · exact .inr (h ▸ List.mem_cons_self)
        · exact (ih h).imp_right (List.mem_cons_of_mem _)
      · rcases List.mem_cons.1 h with h | h
        · exact .inl h
        · exact .inr (List.mem_cons_of_mem _ h)

theorem pairwise_insertSorted {α : Type} (name : String) (value : α) {l : List (String × α)}
    (h : l.Pairwise fun a b => a.1 < b.1) :
    (insertSorted name value l).Pairwise fun a b => a.1 < b.1 := by
  induction l with
  | nil => simp [insertSorted]
  | cons q rest ih =>
    obtain ⟨n, v⟩ := q
    have hr := (List.pairwise_cons.1 h).2
    have hn := (List.pairwise_cons.1 h).1
    unfold insertSorted
    split
    · rename_i hlt
      refine List.pairwise_cons.2 ⟨fun p hp => ?_, h⟩
      rcases List.mem_cons.1 hp with hp | hp
      · exact hp ▸ hlt
      · exact String.lt_trans hlt (hn p hp)
    · split
      · rename_i hlt
        refine List.pairwise_cons.2 ⟨fun p hp => ?_, ih hr⟩
        rcases mem_insertSorted hp with hp | hp
        · exact hp ▸ hlt
        · exact hn p hp
      · rename_i h1 h2
        have heq : name = n := String.le_antisymm (String.not_lt.1 h2) (String.not_lt.1 h1)
        exact List.pairwise_cons.2 ⟨fun p hp => heq ▸ hn p hp, hr⟩

/-- Values by name, in ascending order of the names. -/
structure Vars where
  bindings : List (String × Value)
  sorted : bindings.Pairwise fun a b => a.1 < b.1

namespace Vars

def empty : Vars := ⟨[], .nil⟩

instance : Inhabited Vars := ⟨empty⟩

@[ext] theorem ext {a b : Vars} (h : a.bindings = b.bindings) : a = b := by
  cases a; cases b; simpa using h

def insert (vars : Vars) (name : String) (value : Value) : Vars :=
  ⟨insertSorted name value vars.bindings, pairwise_insertSorted name value vars.sorted⟩

/-- Later bindings of a name replace earlier ones. -/
def ofList (bindings : List (String × Value)) : Vars :=
  bindings.foldl (fun vars (name, value) => vars.insert name value) empty

def get? (vars : Vars) (name : String) : Option Value := vars.bindings.lookup name

def filter (vars : Vars) (keep : String → Bool) : Vars :=
  ⟨vars.bindings.filter fun p => keep p.1, vars.sorted.filter _⟩

def tokens (vars : Vars) : List Json.Token :=
  Json.objectTokens (vars.bindings.map fun (name, value) => (name, value.tokens))

def decoder (size levels : Nat) : Json.Decoder Vars :=
  Json.Decoder.dictionary size levels (Value.decoder size) empty insert

end Vars

end ScriptHost
