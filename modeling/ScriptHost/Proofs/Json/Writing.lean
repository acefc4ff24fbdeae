import ScriptHost.Proofs.Json.Lexing
import ScriptHost.Json.Tree

/-!
# The tokens of one value

A block is what a writer emits for one value: it may be laid out as it is, it
begins like a value, and it opens brackets up to a certain depth, all of which
it closes.
-/

namespace ScriptHost.Json

/-- The deepest nesting of brackets in tokens that stand inside `depth` of them. -/
def deepest : Nat → List Token → Nat
  | depth, [] => depth
  | depth, t :: ts =>
    match t with
    | .openArray | .openObject => max depth (deepest (depth + 1) ts)
    | .closeArray | .closeObject => max depth (deepest (depth - 1) ts)
    | _ => deepest depth ts

/-- How deep the brackets of a text are nested. -/
def nesting (ts : List Token) : Nat := deepest 0 ts

theorem le_deepest (depth : Nat) (ts : List Token) : depth ≤ deepest depth ts := by
  induction ts with
  | nil => exact Nat.le_refl _
  | cons t ts ih => cases t <;> first | exact ih | exact Nat.le_max_left _ _

namespace Token

/-- Whether a value may begin with the token. -/
def isLead : Token → Bool
  | openArray | openObject | null | bool _ | number _ | text _ => true
  | _ => false

end Token

namespace Writable

variable {a b : List Token}

theorem append_mark (ha : Writable a) (hb : Writable b) {m : Token} (hm : m.Sound)
    (hn : m.isNumber = false) : Writable (a ++ m :: b) where
  sound := by
    intro t ht
    rcases List.mem_append.mp ht with ht | ht
    · exact ha.sound t ht
    rcases List.mem_cons.mp ht with rfl | ht
    · exact hm
    · exact hb.sound t ht
  apart := by
    refine List.isChain_append.mpr ⟨ha.apart, List.isChain_cons.mpr ⟨?_, hb.apart⟩, ?_⟩
    · intro t _ h
      rw [hn] at h
      cases h
    · rintro t _ t' ht' _
      cases ht'
      exact hn

theorem nil : Writable [] := ⟨nofun, .nil⟩

theorem mark_cons (hb : Writable b) {m : Token} (hm : m.Sound) (hn : m.isNumber = false) :
    Writable (m :: b) := nil.append_mark hb hm hn

end Writable

/-- The tokens of one value, `depth` brackets deep. -/
structure Block (ts : List Token) (depth : Nat) : Prop where
  writable : Writable ts
  lead : ∃ t rest, ts = t :: rest ∧ t.isLead = true
  deepest : ∀ d rest, deepest d (ts ++ rest) = max (d + depth) (deepest d rest)

namespace Block

theorem atom {t : Token} (sound : t.Sound) (lead : t.isLead = true)
    (flat : t ≠ .openArray ∧ t ≠ .openObject) : Block [t] 0 where
  writable := ⟨by simpa using sound, .singleton _⟩
  lead := ⟨t, [], rfl, lead⟩
  deepest d rest := by
    rw [Nat.add_zero, Nat.max_eq_right (le_deepest d rest)]
    cases t <;> first | rfl | exact absurd rfl flat.1 | exact absurd rfl flat.2 | cases lead

theorem null : Block [.null] 0 := atom trivial rfl ⟨nofun, nofun⟩

theorem bool (b : Bool) : Block [.bool b] 0 := atom trivial rfl ⟨nofun, nofun⟩

theorem int (n : Int) : Block [.int n] 0 := atom (numeral_toString n) rfl ⟨nofun, nofun⟩

theorem string (s : String) : Block [.string s] 0 := atom rfl rfl ⟨nofun, nofun⟩

theorem float (x : Binary64) : Block [.float x] 0 := by
  unfold Token.float
  split
  · next fin => exact atom (numeral_floatLiteral fin) rfl ⟨nofun, nofun⟩
  · exact null

end Block

/-! ## Arrays and objects -/

/-- The greatest of some numbers. -/
def greatest (ns : List Nat) : Nat := ns.foldr max 0

@[simp] theorem greatest_nil : greatest [] = 0 := rfl

@[simp] theorem greatest_cons (n : Nat) (ns : List Nat) :
    greatest (n :: ns) = max n (greatest ns) := rfl

theorem greatest_le {ns : List Nat} {n : Nat} : greatest ns ≤ n ↔ ∀ m ∈ ns, m ≤ n := by
  induction ns with
  | nil => simp
  | cons m ns ih => simp [ih]

/-- The items after the first, each behind its comma. -/
def moreItems (items : List (List Token)) : List Token := items.flatMap (.comma :: ·)

theorem flatten_intersperse (item : List Token) (items : List (List Token)) :
    ((item :: items).intersperse [.comma]).flatten = item ++ moreItems items := by
  induction items generalizing item with
  | nil => simp [moreItems]
  | cons next items ih =>
    rw [List.intersperse_cons_cons, List.flatten_cons, List.flatten_cons, ih]
    rfl

/-- The commas add no depth. -/
theorem Block.more {items : List (List Token)} {depths : List Nat}
    (h : List.Forall₂ Block items depths) : Writable (moreItems items) ∧ ∀ d rest,
      Json.deepest d (moreItems items ++ rest) = max (d + greatest depths) (Json.deepest d rest) := by
  induction h with
  | nil =>
    refine ⟨.nil, fun d rest => ?_⟩
    rw [greatest_nil, Nat.add_zero, Nat.max_eq_right (le_deepest d rest)]
    rfl
  | @cons item depth items depths block _ ih =>
    refine ⟨?_, fun d rest => ?_⟩
    · rw [show moreItems (item :: items) = .comma :: (item ++ moreItems items) from rfl]
      refine Writable.mark_cons ?_ trivial rfl
      cases items with
      | nil => rw [show moreItems [] = [] from rfl, List.append_nil]; exact block.writable
      | cons next items =>
        exact block.writable.append_mark (b := next ++ moreItems items)
          ⟨fun t ht => ih.1.sound t (List.mem_cons_of_mem _ ht),
            (List.isChain_cons.mp ih.1.apart).2⟩ trivial rfl
    · change Json.deepest d ((item ++ moreItems items) ++ rest) = _
      rw [List.append_assoc, block.deepest, ih.2, greatest_cons]
      omega

/-- What stands inside brackets. -/
theorem Block.inside {items : List (List Token)} {depths : List Nat}
    (h : List.Forall₂ Block items depths) : Writable (items.intersperse [.comma]).flatten ∧
      ∀ d rest, Json.deepest d ((items.intersperse [.comma]).flatten ++ rest) =
        max (d + greatest depths) (Json.deepest d rest) := by
  have more := Block.more h
  cases h with
  | nil => exact more
  | @cons item depth items depths block blocks =>
    rw [flatten_intersperse]
    exact ⟨⟨fun t ht => more.1.sound t (List.mem_cons_of_mem _ ht),
      (List.isChain_cons.mp more.1.apart).2⟩, more.2⟩

theorem Block.array {items : List (List Token)} {depths : List Nat}
    (h : List.Forall₂ Block items depths) : Block (arrayTokens items) (1 + greatest depths) where
  writable := ((Block.inside h).1.append_mark .nil (m := .closeArray) trivial rfl).mark_cons
    trivial rfl
  lead := ⟨.openArray, _, rfl, rfl⟩
  deepest d rest := by
    change max d (Json.deepest (d + 1) (((items.intersperse [.comma]).flatten ++ [.closeArray]) ++
      rest)) = _
    rw [List.append_assoc, (Block.inside h).2]
    change max d (max _ (max (d + 1) (Json.deepest d rest))) = _
    omega

/-- An array of values that are written alike. -/
theorem Block.array_map {α : Type} {tokens : α → List Token} {depth : α → Nat}
    (h : ∀ a, Block (tokens a) (depth a)) (values : List α) :
    Block (arrayTokens (values.map tokens)) (1 + greatest (values.map depth)) :=
  .array (List.forall₂_map_left_iff.mpr (List.forall₂_map_right_iff.mpr
    (List.forall₂_same.mpr fun a _ => h a)))

theorem Block.member {value : List Token} {depth : Nat} (h : Block value depth) (key : String) :
    Block (.string key :: .colon :: value) depth where
  writable := (h.writable.mark_cons (m := .colon) trivial rfl).mark_cons rfl rfl
  lead := ⟨_, _, rfl, rfl⟩
  deepest := h.deepest

theorem Block.object {members : List (String × List Token)} {depths : List Nat}
    (h : List.Forall₂ (fun m n => Block m.2 n) members depths) :
    Block (objectTokens members) (1 + greatest depths) := by
  have blocks : List.Forall₂ Block (members.map fun m => .string m.1 :: .colon :: m.2) depths :=
    List.forall₂_map_left_iff.mpr (h.imp fun m n block => block.member m.1)
  have inside := Block.inside blocks
  exact {
    writable := (inside.1.append_mark .nil (m := .closeObject) trivial rfl).mark_cons trivial rfl
    lead := ⟨.openObject, _, rfl, rfl⟩
    deepest := by
      intro d rest
      change max d (Json.deepest (d + 1) ((_ ++ [.closeObject]) ++ rest)) = _
      rw [List.append_assoc, inside.2]
      change max d (max _ (max (d + 1) (Json.deepest d rest))) = _
      omega }

theorem Block.nesting {ts : List Token} {depth : Nat} (h : Block ts depth) :
    nesting ts = depth := by
  have := h.deepest 0 []
  rw [List.append_nil] at this
  rw [Json.nesting, this]
  exact (Nat.max_eq_left (Nat.zero_le _)).trans (Nat.zero_add _)

/-! ## Sizes -/

theorem length_arrayTokens (items : List (List Token)) :
    (arrayTokens items).length = items.flatten.length + (items.length - 1) + 2 := by
  have more : ∀ items, (moreItems items).length = items.flatten.length + items.length := by
    intro items
    induction items with
    | nil => rfl
    | cons item items ih =>
      rw [show moreItems (item :: items) = .comma :: (item ++ moreItems items) from rfl]
      simp only [List.length_cons, List.length_append, List.flatten_cons, ih]
      omega
  cases items with
  | nil => rfl
  | cons item items =>
    unfold arrayTokens
    rw [flatten_intersperse]
    simp only [List.length_cons, List.length_append, List.length_nil, List.flatten_cons, more]
    omega

theorem count_le_array (items : List (List Token)) : items.length ≤ (arrayTokens items).length := by
  rw [length_arrayTokens]; omega

theorem length_le_array {item : List Token} {items : List (List Token)} (h : item ∈ items) :
    item.length ≤ (arrayTokens items).length := by
  have := (List.sublist_flatten_of_mem h).length_le
  rw [length_arrayTokens]; omega

theorem length_objectTokens (members : List (String × List Token)) :
    (objectTokens members).length =
      (arrayTokens (members.map fun m => .string m.1 :: .colon :: m.2)).length := by
  simp only [objectTokens, arrayTokens, List.length_append, List.length_cons, List.length_nil]

theorem count_le_object (members : List (String × List Token)) :
    members.length ≤ (objectTokens members).length := by
  rw [length_objectTokens]
  exact le_trans (by simp) (count_le_array _)

theorem length_le_object {m : String × List Token} {members : List (String × List Token)}
    (h : m ∈ members) : m.2.length ≤ (objectTokens members).length := by
  rw [length_objectTokens]
  refine le_trans ?_ (length_le_array (List.mem_map_of_mem h))
  simp only [List.length_cons]
  omega

end ScriptHost.Json
