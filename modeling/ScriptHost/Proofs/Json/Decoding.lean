import ScriptHost.Proofs.Json.Writing

/-!
# Reading back what was written

`Takes d ts a good` says how a decoder meets the tokens that a writer emits
for `a`: it answers `a` if `good` holds, and refuses them if not, whatever
comes behind them. There is one lemma for each combinator; a record is read
member by member (`Feeds`). `Yields d P` says what holds of everything that a
decoder answers, whoever wrote the tokens.
-/

namespace ScriptHost.Json.Decoder

/-- The decoder reads `a` from these tokens exactly if `good` holds. -/
structure Takes {α : Type} (d : Decoder α) (ts : List Token) (a : α) (good : Prop) : Prop where
  ok : good → ∀ rest, d (ts ++ rest) = .ok (a, rest)
  refused : ¬ good → ∀ rest, ∃ e, d (ts ++ rest) = .error e

section Basic

variable {α β : Type} {d : Decoder α} {ts : List Token} {a : α} {good : Prop}

theorem Takes.always (h : ∀ rest, d (ts ++ rest) = .ok (a, rest)) : Takes d ts a True :=
  ⟨fun _ => h, fun no => absurd trivial no⟩

theorem Takes.congr {good' : Prop} (h : Takes d ts a good) (iff : good ↔ good') :
    Takes d ts a good' :=
  ⟨fun g => h.ok (iff.mpr g), fun g => h.refused fun g' => g (iff.mp g')⟩

/-- A decoder that goes on like another one. -/
theorem Takes.of_eq {d' : Decoder α} {ts' : List Token} (h : Takes d ts a good)
    (e : ∀ rest, d' (ts' ++ rest) = d (ts ++ rest)) : Takes d' ts' a good where
  ok g rest := by rw [e, h.ok g]
  refused g rest := by rw [e]; exact h.refused g rest

/-- One value, then what its reader goes on with. -/
def andThen (d : Decoder α) (more : α → Decoder β) : Decoder β := fun ts =>
  match d ts with
  | .error e => .error e
  | .ok (a, rest) => more a rest

theorem Takes.andThen {ts' : List Token} {b : β} {good' : Prop} (h : Takes d ts a good)
    (more : α → Decoder β) (h' : Takes (more a) ts' b good') :
    Takes (d.andThen more) (ts ++ ts') b (good ∧ good') where
  ok g rest := by
    unfold Decoder.andThen
    rw [List.append_assoc, h.ok g.1]
    exact h'.ok g.2 rest
  refused g rest := by
    unfold Decoder.andThen
    rw [List.append_assoc]
    by_cases hg : good
    · rw [h.ok hg]
      exact h'.refused (fun hg' => g ⟨hg, hg'⟩) rest
    · obtain ⟨e, he⟩ := h.refused hg (ts' ++ rest)
      exact ⟨e, by rw [he]⟩

theorem Takes.map (h : Takes d ts a good) (f : α → β) : Takes (Decoder.map f d) ts (f a) good where
  ok g rest := by simp only [Decoder.map, h.ok g rest]
  refused g rest := by
    obtain ⟨e, he⟩ := h.refused g rest
    exact ⟨e, by simp only [Decoder.map, he]⟩

theorem Takes.checked (h : Takes d ts a good) {f : α → Option β} {b : β} (hf : f a = some b) :
    Takes (Decoder.checked f d) ts b good where
  ok g rest := by simp only [Decoder.checked, h.ok g rest, hf]
  refused g rest := by
    obtain ⟨e, he⟩ := h.refused g rest
    exact ⟨e, by simp only [Decoder.checked, he]⟩

theorem takes_string (s : String) : Takes string [.string s] s True := .always fun _ => rfl

theorem takes_bool (b : Bool) : Takes bool [.bool b] b True := .always fun _ => rfl

theorem takes_parsed {parse : String → Option β} {s : String} {b : β} (h : parse s = some b) :
    Takes (parsed parse) [.string s] b True := (takes_string s).checked h

theorem takes_choice {parse : String → Option β} {s : String} {b : β} (h : parse s = some b)
    (levels : Nat) : Takes (choice levels parse) [.string s] b True := .always fun rest => by
  simp [choice, Token.string, h]

theorem takes_int (low high : Int) {n : Int} (hlow : low ≤ n) (hhigh : n ≤ high)
    (least : -2 ^ 63 ≤ n) (most : n < 2 ^ 64) : Takes (int low high) [.int n] n True :=
  .always fun rest => by
    simp only [int, Token.int, List.singleton_append, ofLiteral?_toString least most,
      if_pos (And.intro hlow hhigh)]

/-- A double that is not finite was written as `null`, which is no number. -/
theorem takes_float (x : Binary64) : Takes float [.float x] x (x.isFinite = true) where
  ok fin rest := by
    simp [float, Token.float, fin, ofLiteral?_floatLiteral fin]
  refused inf rest := ⟨.mismatched, by simp [float, Token.float, inf, unexpected]⟩

end Basic

/-! ## Items -/

/-- Items between commas; all but the first of a bracket stand behind one. -/
def separated (first : Bool) (items : List (List Token)) : List Token :=
  if first then (items.intersperse [.comma]).flatten else moreItems items

@[simp] theorem separated_nil (first : Bool) : separated first [] = [] := by
  cases first <;> rfl

theorem separated_cons (first : Bool) (item : List Token) (items : List (List Token)) :
    separated first (item :: items) =
      (if first then [] else [.comma]) ++ (item ++ separated false items) := by
  cases first with
  | false => rfl
  | true => exact flatten_intersperse item items

theorem nextItem_lead (first : Bool) {t : Token} (h : t.isLead = true) (rest : List Token) :
    nextItem first ((if first then [] else [.comma]) ++ t :: rest) = .ok (some (t :: rest)) := by
  cases first <;> cases t <;> first | rfl | cases h

section Items

variable {α : Type} {item : Decoder α} {tokens : α → List Token} {good : α → Prop}
  {values : List α}

theorem takes_items (h : ∀ a ∈ values, Takes item (tokens a) a (good a))
    (lead : ∀ a ∈ values, ∃ t rest, tokens a = t :: rest ∧ t.isLead = true)
    {fuel : Nat} (hfuel : values.length < fuel) (first : Bool) (taken : List α) :
    Takes (items item fuel first taken)
      (separated first (values.map tokens) ++ [.closeArray]) (taken.reverse ++ values)
      (∀ a ∈ values, good a) := by
  induction values generalizing fuel first taken with
  | nil =>
    obtain ⟨fuel, rfl⟩ := Nat.exists_eq_succ_of_ne_zero (Nat.ne_of_gt hfuel)
    refine (Takes.always fun rest => ?_).congr (by simp)
    simp [items, nextItem, arrayEnd]
  | cons a values ih =>
    obtain ⟨fuel, rfl⟩ := Nat.exists_eq_succ_of_ne_zero (Nat.ne_of_gt (Nat.zero_lt_of_lt hfuel))
    obtain ⟨t, more, htokens, hlead⟩ := lead a List.mem_cons_self
    have rest' := ih (fun a ha => h a (List.mem_cons_of_mem _ ha))
      (fun a ha => lead a (List.mem_cons_of_mem _ ha)) (Nat.lt_of_succ_lt_succ hfuel) false
      (a :: taken)
    rw [List.reverse_cons, List.append_assoc] at rest'
    refine (Takes.of_eq (((h a List.mem_cons_self).andThen
      (fun a => items item fuel false (a :: taken)) rest').congr
        List.forall_mem_cons.symm) fun rest => ?_)
    rw [List.map_cons, separated_cons, htokens]
    simp only [List.append_assoc, List.cons_append]
    unfold items andThen
    rewrite [nextItem_lead first hlead]
    rfl

theorem takes_array (item : Nat → Decoder α) (levels : Nat) {size : Nat}
    (h : ∀ a ∈ values, Takes (item (levels - 1)) (tokens a) a (good a))
    (lead : ∀ a ∈ values, ∃ t rest, tokens a = t :: rest ∧ t.isLead = true)
    (hsize : values.length ≤ size) :
    Takes (array size levels item) (arrayTokens (values.map tokens)) values
      (0 < levels ∧ ∀ a ∈ values, good a) := by
  cases levels with
  | zero => exact ⟨fun g => absurd g.1 (by decide), fun _ rest => ⟨.malformed, rfl⟩⟩
  | succ levels =>
    have := (takes_items h lead (Nat.lt_succ_of_le hsize) true []).congr
      (iff_and_self.mpr fun _ => Nat.succ_pos levels : _ ↔ 0 < levels + 1 ∧ _)
    exact ⟨fun g => this.ok g, fun g => this.refused g⟩

theorem takes_counted (h : ∀ a ∈ values, Takes item (tokens a) a (good a))
    (lead : ∀ a ∈ values, ∃ t rest, tokens a = t :: rest ∧ t.isLead = true)
    (first : Bool) (taken : List α) :
    Takes (counted item values.length first taken) (separated first (values.map tokens))
      (taken.reverse ++ values) (∀ a ∈ values, good a) := by
  induction values generalizing first taken with
  | nil => exact (Takes.always fun rest => by simp [counted]).congr (by simp)
  | cons a values ih =>
    obtain ⟨t, more, htokens, hlead⟩ := lead a List.mem_cons_self
    have rest' := ih (fun a ha => h a (List.mem_cons_of_mem _ ha))
      (fun a ha => lead a (List.mem_cons_of_mem _ ha)) false (a :: taken)
    rw [List.reverse_cons, List.append_assoc] at rest'
    refine (Takes.of_eq (((h a List.mem_cons_self).andThen
      (fun a => counted item values.length false (a :: taken)) rest').congr
        List.forall_mem_cons.symm) fun rest => ?_)
    rw [List.map_cons, separated_cons, htokens]
    simp only [List.append_assoc, List.cons_append]
    unfold andThen
    rewrite [List.length_cons, counted, nextItem_lead first hlead]
    rfl

/-- The end of an array that is full. -/
def closing (as : List α) : Decoder (List α) := fun ts =>
  match arrayEnd ts with
  | .error e => .error e
  | .ok rest => .ok (as, rest)

theorem takes_tuple {levels : Nat} (h : ∀ a ∈ values, Takes item (tokens a) a (good a))
    (lead : ∀ a ∈ values, ∃ t rest, tokens a = t :: rest ∧ t.isLead = true) :
    Takes (tuple levels values.length item) (arrayTokens (values.map tokens)) values
      (0 < levels ∧ ∀ a ∈ values, good a) := by
  cases levels with
  | zero => exact ⟨fun g => absurd g.1 (by decide), fun _ rest => ⟨.malformed, rfl⟩⟩
  | succ levels =>
    have closed : Takes (closing values) [.closeArray] values True := .always fun _ => rfl
    refine (Takes.of_eq ((takes_counted h lead true []).andThen closing closed)
      fun rest => ?_).congr (by simp)
    simp only [arrayTokens, tuple, separated, andThen, List.cons_append, List.append_assoc, if_true]
    rcases item.counted values.length true [] _ with e | ⟨as, rest⟩ <;> rfl

end Items

/-! ## Members -/

/-- The tokens of one member. -/
def memberTokens (m : String × List Token) : List Token := .string m.1 :: .colon :: m.2

/-- The fields read one after another, and the condition under which all of them are. -/
inductive Feeds {δ : Type} (field : Field δ) :
    δ → List (String × List Token) → δ → Prop → Prop where
  | nil (draft : δ) : Feeds field draft [] draft True
  | cons {draft draft' last : δ} {key : String} {ts : List Token}
      {ms : List (String × List Token)} {reader : Decoder δ} {good good' : Prop}
      (known : field draft key = .ok (some reader)) (head : Takes reader ts draft' good)
      (tail : Feeds field draft' ms last good') :
      Feeds field draft ((key, ts) :: ms) last (good ∧ good')

section Members

variable {δ α : Type} {field : Field δ} {draft last : δ} {ms : List (String × List Token)}
  {good : Prop}

theorem Feeds.members (h : Feeds field draft ms last good) {fuel : Nat}
    (hfuel : ms.length < fuel) (first : Bool) :
    Takes (members field fuel first draft)
      (separated first (ms.map memberTokens) ++ [.closeObject]) last good := by
  induction h generalizing fuel first with
  | nil draft =>
    obtain ⟨fuel, rfl⟩ := Nat.exists_eq_succ_of_ne_zero (Nat.ne_of_gt hfuel)
    refine Takes.always fun rest => ?_
    simp [Decoder.members, nextKey]
  | @cons draft draft' last key ts ms reader good good' known head tail ih =>
    obtain ⟨fuel, rfl⟩ := Nat.exists_eq_succ_of_ne_zero (Nat.ne_of_gt (Nat.zero_lt_of_lt hfuel))
    have rest' := ih (Nat.lt_of_succ_lt_succ hfuel) false
    have key_read : ∀ rest, nextKey first ((if first then [] else [.comma]) ++ .string key :: rest) =
        .ok (some key, rest) := by
      intro rest; cases first <;> rfl
    refine Takes.of_eq (head.andThen (Decoder.members field fuel false) rest')
      fun rest => ?_
    rw [List.map_cons, separated_cons, memberTokens]
    simp only [List.append_assoc, List.cons_append]
    unfold Decoder.members andThen
    rewrite [key_read]
    dsimp only
    rewrite [known]
    rfl

theorem objectTokens_eq (ms : List (String × List Token)) :
    objectTokens ms = .openObject :: (separated true (ms.map memberTokens) ++ [.closeObject]) := rfl

/-- A record written as an object. -/
theorem takes_record {field : Nat → Field δ} (finish : δ → Option α) {a : α} {levels size : Nat}
    (h : 0 < levels → Feeds (field (levels - 1)) draft ms last good) (hsize : ms.length ≤ size)
    (done : finish last = some a) (names : List String) :
    Takes (record size levels names draft field finish) (objectTokens ms) a
      (0 < levels ∧ good) := by
  rw [objectTokens_eq]
  cases levels with
  | zero => exact ⟨fun g => absurd g.1 (by decide), fun _ rest => ⟨.malformed, rfl⟩⟩
  | succ levels =>
    have := (h (Nat.succ_pos _)).members (Nat.lt_succ_of_le hsize) true
    constructor
    · intro g rest
      simp only [record, List.cons_append, Nat.add_sub_cancel] at this ⊢
      rw [this.ok g.2]
      simp only [done]
    · intro g rest
      obtain ⟨e, he⟩ := this.refused (fun g' => g ⟨Nat.succ_pos _, g'⟩) rest
      refine ⟨e, ?_⟩
      simp only [record, List.cons_append, Nat.add_sub_cancel] at he ⊢
      rw [he]

/-- A field that comes for the first time. -/
theorem Feeds.once {reader : Decoder α} {ts : List Token} {a : α} {key : String} {put : α → δ}
    {good' : Prop}
    (known : field draft key = Decoder.once none reader put) (head : Takes reader ts a good)
    (tail : Feeds field (put a) ms last good') :
    Feeds field draft ((key, ts) :: ms) last (good ∧ good') :=
  .cons known (head.map put) tail

/-- An object of named values, put in one after another. -/
theorem takes_dictionary {item : Nat → Decoder α} {tokens : α → List Token} {levels size : Nat}
    (good : α → Prop) (start : δ) (insert : δ → String → α → δ) {bindings : List (String × α)}
    (h : ∀ b ∈ bindings, Takes (item (levels - 1)) (tokens b.2) b.2 (good b.2))
    (hsize : bindings.length ≤ size) :
    Takes (dictionary size levels item start insert)
      (objectTokens (bindings.map fun b => (b.1, tokens b.2)))
      (bindings.foldl (fun d b => insert d b.1 b.2) start)
      (0 < levels ∧ ∀ b ∈ bindings, good b.2) := by
  rw [objectTokens_eq]
  cases levels with
  | zero => exact ⟨fun g => absurd g.1 (by decide), fun _ rest => ⟨.malformed, rfl⟩⟩
  | succ levels =>
    simp only [Nat.add_sub_cancel] at h
    have feeds : Feeds (fun draft key => .ok (some (Decoder.map (insert draft key) (item levels))))
        start (bindings.map fun b => (b.1, tokens b.2))
        (bindings.foldl (fun d b => insert d b.1 b.2) start) (∀ b ∈ bindings, good b.2) := by
      clear hsize
      induction bindings generalizing start with
      | nil => simpa using Feeds.nil start
      | cons b bindings ih =>
        have := Feeds.cons rfl ((h b List.mem_cons_self).map (insert start b.1))
          (ih (insert start b.1 b.2) fun b hb => h b (List.mem_cons_of_mem _ hb))
        simpa using this
    have room : (bindings.map fun b => (b.1, tokens b.2)).length ≤ size := by simpa using hsize
    have := feeds.members (Nat.lt_succ_of_le room) true
    exact ⟨fun g => this.ok g.2, fun g => this.refused fun g' => g ⟨Nat.succ_pos _, g'⟩⟩

end Members

/-! ## What a decoder can answer -/

/-- Whatever tokens the decoder is given, its answers satisfy `P`. -/
def Yields {α : Type} (d : Decoder α) (P : α → Prop) : Prop :=
  ∀ ⦃ts a rest⦄, d ts = .ok (a, rest) → P a

section Yields

variable {α β δ : Type} {d : Decoder α} {P : α → Prop} {Q : β → Prop} {I : δ → Prop}

theorem Yields.trivial : Yields d fun _ => True := fun _ _ _ _ => True.intro

theorem Yields.mono {P' : α → Prop} (h : Yields d P) (imp : ∀ a, P a → P' a) : Yields d P' :=
  fun _ _ _ e => imp _ (h e)

theorem Yields.map (h : Yields d P) {f : α → β} (hf : ∀ a, P a → Q (f a)) :
    Yields (Decoder.map f d) Q := by
  intro ts b rest e
  unfold Decoder.map at e
  split at e
  · next a _ he => cases e; exact hf a (h he)
  · cases e

theorem Yields.checked (h : Yields d P) {f : α → Option β}
    (hf : ∀ a b, P a → f a = some b → Q b) : Yields (Decoder.checked f d) Q := by
  intro ts b rest e
  unfold Decoder.checked at e
  split at e
  · next a _ he =>
    split at e
    · next hb => cases e; exact hf a b (h he) hb
    · cases e
  · cases e

theorem yields_parsed (parse : String → Option α) :
    Yields (parsed parse) fun a => ∃ s, parse s = some a :=
  (Yields.trivial (d := string)).checked fun s _ _ h => ⟨s, h⟩

theorem yields_float : Yields float fun x => x.isFinite = true := by
  intro ts x rest e
  unfold float at e
  split at e
  · split at e
    · split at e
      · next h => cases e; exact Binary64.isFinite_of_ofDecimal h
      · cases e
    · next h => cases e; exact isFinite_of_ofLiteral? h
    · cases e
  · cases e

theorem yields_items (h : Yields d P) (fuel : Nat) (first : Bool) (taken : List α)
    (ht : ∀ a ∈ taken, P a) : Yields (items d fuel first taken) fun as => ∀ a ∈ as, P a := by
  induction fuel generalizing first taken with
  | zero => intro _ _ _ e; cases e
  | succ fuel ih =>
    intro ts as rest e
    unfold items at e
    split at e
    · cases e
    · split at e
      · cases e
      · cases e
        exact fun a ha => ht a (List.mem_reverse.mp ha)
    · split at e
      · cases e
      · next a _ he =>
        exact ih false (a :: taken) (List.forall_mem_cons.mpr ⟨h he, ht⟩) e

theorem yields_array {size levels : Nat} {item : Nat → Decoder α}
    (h : Yields (item (levels - 1)) P) :
    Yields (array size levels item) fun as => 0 < levels ∧ ∀ a ∈ as, P a := by
  intro ts as rest e
  unfold array at e
  split at e
  · split at e
    · cases e
    · exact ⟨Nat.succ_pos _, yields_items h _ _ _ (List.forall_mem_nil _) e⟩
  · cases e

theorem yields_counted (h : Yields d P) (count : Nat) (first : Bool) (taken : List α)
    (ht : ∀ a ∈ taken, P a) : Yields (counted d count first taken) fun as => ∀ a ∈ as, P a := by
  induction count generalizing first taken with
  | zero =>
    intro ts as rest e
    cases e
    exact fun a ha => ht a (List.mem_reverse.mp ha)
  | succ count ih =>
    intro ts as rest e
    unfold counted at e
    split at e
    · cases e
    · cases e
    · split at e
      · cases e
      · next a _ he =>
        exact ih false (a :: taken) (List.forall_mem_cons.mpr ⟨h he, ht⟩) e

theorem yields_tuple {levels count : Nat} (h : Yields d P) :
    Yields (tuple levels count d) fun as => 0 < levels ∧ ∀ a ∈ as, P a := by
  intro ts as rest e
  unfold tuple at e
  split at e
  · split at e
    · cases e
    · split at e
      · cases e
      · next he =>
        split at e
        · cases e
        · cases e
          exact ⟨Nat.succ_pos _, yields_counted h _ _ _ (List.forall_mem_nil _) he⟩
  · cases e

/-- Every reader that a field hands out keeps what is true of the drafts. -/
def Field.Keeps (field : Field δ) (I : δ → Prop) : Prop :=
  ∀ ⦃draft key reader⦄, I draft → field draft key = .ok (some reader) → Yields reader I

theorem yields_members {field : Field δ} (h : field.Keeps I) (fuel : Nat) (first : Bool)
    {draft : δ} (hd : I draft) : Yields (members field fuel first draft) I := by
  induction fuel generalizing first draft with
  | zero => intro _ _ _ e; cases e
  | succ fuel ih =>
    intro ts last rest e
    unfold members at e
    split at e
    · cases e
    · cases e; exact hd
    · split at e
      · cases e
      · next reader known =>
        split at e
        · cases e
        · split at e
          · split at e
            · cases e
            · exact ih false hd e
          · split at e
            · cases e
            · next he => exact ih false (h hd known he) e

theorem yields_positions {field : Field δ} (h : field.Keeps I) (names : List String)
    (first : Bool) {draft : δ} (hd : I draft) : Yields (positions field names first draft) I := by
  induction names generalizing first draft with
  | nil => intro _ _ _ e; cases e; exact hd
  | cons name names ih =>
    intro ts last rest e
    unfold positions at e
    split at e
    · cases e
    · cases e; exact hd
    · split at e
      · cases e
      · cases e
      · next reader known =>
        split at e
        · cases e
        · next he => exact ih false (h hd known he) e

theorem yields_record {size levels : Nat} {names : List String} {start : δ}
    {field : Nat → Field δ} {finish : δ → Option α} (h : 0 < levels → (field (levels - 1)).Keeps I)
    (hstart : I start) (done : ∀ draft a, I draft → finish draft = some a → P a) :
    Yields (record size levels names start field finish) fun a => 0 < levels ∧ P a := by
  intro ts a rest e
  unfold record at e
  split at e
  · split at e
    · cases e
    · split at e
      · cases e
      · next he =>
        split at e
        · next hf =>
          cases e
          exact ⟨Nat.succ_pos _, done _ _ (yields_members (h (Nat.succ_pos _)) _ _ hstart he) hf⟩
        · cases e
  · split at e
    · cases e
    · split at e
      · cases e
      · next he =>
        split at e
        · cases e
        · next hf =>
          split at e
          · cases e
          · cases e
            exact ⟨Nat.succ_pos _,
              done _ _ (yields_positions (h (Nat.succ_pos _)) _ _ hstart he) hf⟩
  · cases e

theorem yields_of_once {old : Option α} {put : α → δ} {reader : Decoder δ}
    (known : Decoder.once old d put = .ok (some reader)) (h : Yields d P)
    (hput : ∀ a, P a → I (put a)) : Yields reader I := by
  unfold Decoder.once at known
  split at known
  · cases known
  · cases known; exact h.map hput

theorem yields_dictionary {size levels : Nat} {item : Nat → Decoder α} {start : δ}
    {insert : δ → String → α → δ} (h : Yields (item (levels - 1)) P) (hstart : I start)
    (hinsert : ∀ d name a, I d → P a → I (insert d name a)) :
    Yields (dictionary size levels item start insert) fun d => 0 < levels ∧ I d := by
  intro ts last rest e
  unfold dictionary at e
  split at e
  · split at e
    · cases e
    · refine ⟨Nat.succ_pos _, yields_members ?_ _ _ hstart e⟩
      intro draft key reader hd known
      cases known
      exact h.map fun a ha => hinsert draft key a hd ha
  · cases e

end Yields

end ScriptHost.Json.Decoder
