import ScriptHost.Proofs.Text.Digits
import ScriptHost.Proofs.Toml.Form
import ScriptHost.Toml.Document

/-!
# Assignments are read back

An assignment here is a bare key, an equals sign and a value, on a line of its
own. The values are strings as they are written and whole numbers in decimal
digits (`Reads`). A text of such lines is read as the table of their keys and
values if no key is given twice (`parse?_assignments`).
-/

namespace ScriptHost.Toml

variable {c : Char} {cs rest digits : List Char}

/-- The text is read as the value, on any line that it ends. -/
structure Reads (text : List Char) (v : Value) : Prop where
  begins : ∀ c ∈ text.head?, isSpace c = false
  value : ∀ depth rest, value? depth (text ++ '\n' :: rest) = some (v, '\n' :: rest)

theorem value?_opened {form : Form} (depth : Nat) (h : Form.open? cs = some (form, rest)) :
    value? depth cs = (form.read? rest).map fun (text, rest) => (.string (.ofList text), rest) := by
  rw [value?.eq_def]
  simp only [h]

theorem reads_string (s : String) : Reads (writeString s) (.string s) where
  begins := by
    unfold writeString Form.write
    cases Form.choose s.toList <;> rintro c ⟨⟩ <;> rfl
  value depth rest := by
    obtain ⟨text, opened, read⟩ := Form.read?_write s.toList
      (show ('\n' :: rest).head? ≠ some '"' from nofun) nofun
    rw [writeString, value?_opened depth opened, read, Option.map_some]
    simp only [String.ofList_toList]

/-! ## Numbers -/

theorem moreDigits?_append (hd : ∀ c ∈ digits, c.isDigit = true) :
    moreDigits? Char.isDigit (digits ++ '\n' :: rest) = some (digits, '\n' :: rest) := by
  induction digits with
  | nil => rfl
  | cons c digits ih =>
    rw [List.forall_mem_cons] at hd
    have bar : c ≠ '_' := by rintro rfl; exact absurd hd.1 (by decide)
    rw [List.cons_append]
    unfold moreDigits?
    split <;> simp_all [push]

/-- A text of digits is no date and no time: no mark follows them. -/
theorem not_marked {mark : Char} {n : Nat} (hd : ∀ c ∈ digits, c.isDigit = true)
    (hm : mark.isDigit = false) (hn : mark ≠ '\n') :
    (((digits ++ '\n' :: rest).take n).all Char.isDigit &&
      (digits ++ '\n' :: rest)[n]? == some mark) = false := by
  rw [Bool.and_eq_false_iff]
  rcases Nat.lt_trichotomy n digits.length with h | rfl | h
  · right
    rw [List.getElem?_append_left h, List.getElem?_eq_getElem h]
    have digit := hd _ (List.getElem_mem h)
    simp only [Option.some_beq_some, beq_eq_false_iff_ne]
    rintro rfl
    rw [hm] at digit
    cases digit
  · right
    simpa using hn.symm
  · left
    obtain ⟨k, rfl⟩ := Nat.exists_eq_add_of_lt h
    rw [List.all_eq_false]
    refine ⟨'\n', ?_, by decide⟩
    rw [Nat.add_assoc, List.take_length_add_append]
    simp

theorem not_isMoment (hd : ∀ c ∈ digits, c.isDigit = true) (rest : List Char) :
    isMoment (digits ++ '\n' :: rest) = false := by
  rw [isMoment, not_marked hd rfl (by decide), not_marked hd rfl (by decide)]
  rfl

/-- A number begins with a digit, which is no zero unless it is the number. -/
theorem exists_digits (n : Nat) : ∃ c cs, Nat.toDigits 10 n = c :: cs ∧ c.isDigit = true ∧
    (c = '0' → cs = []) := by
  have digit : ∀ {c cs}, Nat.toDigits 10 n = c :: cs → c.isDigit = true := fun h =>
    Text.isDigit_toDigits _ (h ▸ List.mem_cons_self)
  rcases Nat.eq_zero_or_pos n with rfl | hn
  · exact ⟨'0', [], rfl, by decide, fun _ => rfl⟩
  · obtain ⟨c, cs, h, hc⟩ := Text.toDigits_cons hn
    exact ⟨c, cs, h, digit h, fun zero => absurd zero hc⟩

theorem decimal_toDigits (n : Nat) : decimal (Nat.toDigits 10 n) = n :=
  (Text.foldl_digits _).trans Nat.ofDigitChars_ten_toDigits

theorem plain?_toDigits (n : Nat) (rest : List Char) :
    plain? (Nat.toDigits 10 n ++ '\n' :: rest) = some (Nat.toDigits 10 n, '\n' :: rest) := by
  obtain ⟨c, cs, h, digit, zero⟩ := exists_digits n
  have digits : ∀ d ∈ cs, d.isDigit = true := fun d hd =>
    Text.isDigit_toDigits d (h ▸ List.mem_cons_of_mem c hd)
  rw [h, List.cons_append]
  unfold plain?
  split
  · next e =>
    obtain ⟨rfl, rfl⟩ := List.cons.inj e
    rw [zero rfl]
    rfl
  · rw [digits?, if_pos digit, moreDigits?_append digits]
    rfl

theorem number?_toDigits {n : Nat} (hn : n < Nat.pow 2 63) (rest : List Char) :
    number? (Nat.toDigits 10 n ++ '\n' :: rest) = some (.integer n, '\n' :: rest) := by
  have read := plain?_toDigits n rest
  obtain ⟨c, cs, h, digit, zero⟩ := exists_digits n
  rw [h, List.cons_append] at read ⊢
  have unsigned : sign (c :: (cs ++ '\n' :: rest)) = (false, c :: (cs ++ '\n' :: rest)) := by
    unfold sign
    split <;> simp_all
  have whole : afterDigits? false (c :: cs) ('\n' :: rest) = some (.integer n, '\n' :: rest) := by
    rw [← h]
    simp only [afterDigits?, decimal_toDigits, integer?, if_pos hn, Bool.false_eq_true, if_false,
      Option.map_some]
    rfl
  unfold number?
  split
  · next e => simp [zero (List.cons.inj e).1] at e
  · next e => simp [zero (List.cons.inj e).1] at e
  · next e => simp [zero (List.cons.inj e).1] at e
  · rw [unsigned]
    simp only
    split
    · next e => rw [(List.cons.inj e).1] at digit; cases digit
    · next e => rw [(List.cons.inj e).1] at digit; cases digit
    · rw [read, Option.bind_some]
      exact whole

theorem value?_toDigits {n : Nat} (hn : n < Nat.pow 2 63) (depth : Nat) (rest : List Char) :
    value? depth (Nat.toDigits 10 n ++ '\n' :: rest) = some (.integer n, '\n' :: rest) := by
  have read := number?_toDigits hn rest
  have undated := not_isMoment (Text.isDigit_toDigits (n := n)) rest
  obtain ⟨c, cs, h, digit, -⟩ := exists_digits n
  rw [h, List.cons_append] at read undated ⊢
  have unopened : Form.open? (c :: (cs ++ '\n' :: rest)) = none := by
    have other : ∀ q, q.isDigit = false → (q == c) = false := by
      rintro q hq
      simp only [beq_eq_false_iff_ne]
      rintro rfl
      rw [hq] at digit
      cases digit
    simp [Form.open?, Form.quotes, List.isPrefixOf, other]
  rw [value?.eq_def]
  simp only [unopened]
  split
  · next e => rw [(List.cons.inj e).1] at digit; cases digit
  · next e => rw [(List.cons.inj e).1] at digit; cases digit
  · next e => rw [(List.cons.inj e).1] at digit; cases digit
  · next e => rw [(List.cons.inj e).1] at digit; cases digit
  · rw [undated, if_neg Bool.false_ne_true, read]

theorem reads_integer {n : Nat} (hn : n < Nat.pow 2 63) :
    Reads (toString n).toList (.integer n) := by
  rw [Nat.toString_eq_repr, Nat.toList_repr]
  refine ⟨fun c hc => ?_, value?_toDigits hn⟩
  have digit := Text.isDigit_toDigits c (List.mem_of_head? hc)
  have := Text.toNat_of_isDigit digit
  refine Bool.eq_false_iff.mpr fun space => ?_
  rcases Bool.or_eq_true_iff.mp space with h | h <;> rw [beq_iff_eq] at h <;> subst h <;>
    exact absurd digit (by decide)

/-! ## Lines -/

/-- A key that needs no quotes. -/
def isBare (key : String) : Bool := !key.isEmpty && key.toList.all isKeyChar

/-- A key, the text of a value, and the value. -/
structure Assignment where
  key : String
  text : List Char
  value : Value

namespace Assignment

/-- Key and value on a line. -/
def chars (l : Assignment) : List Char := l.key.toList ++ [' ', '=', ' '] ++ l.text ++ ['\n']

structure Sound (l : Assignment) : Prop where
  bare : isBare l.key = true
  reads : Reads l.text l.value

variable {l : Assignment} {ls : List Assignment}

/-- The characters of a bare key, the first of which begins no other kind of line. -/
theorem Sound.key (L : l.Sound) : ∃ c cs, l.key.toList = c :: cs ∧
    (∀ d ∈ c :: cs, isKeyChar d = true) ∧ ∀ d, isKeyChar d = false → c ≠ d := by
  have bare := L.bare
  simp only [isBare, Bool.and_eq_true, Bool.not_eq_true', List.all_eq_true] at bare
  obtain ⟨filled, all⟩ := bare
  cases h : l.key.toList with
  | nil => simp [String.toList_eq_nil_iff.mp h] at filled
  | cons c cs =>
    rw [h] at all
    refine ⟨c, cs, rfl, all, fun d hd => ?_⟩
    rintro rfl
    rw [all c List.mem_cons_self] at hd
    cases hd

theorem skipSpace_of_head (h : ∀ c ∈ cs.head?, isSpace c = false) : skipSpace cs = cs := by
  cases cs with
  | nil => rfl
  | cons c cs => simp [skipSpace, h c rfl]

theorem part?_key (L : l.Sound) :
    part? (l.key.toList ++ ' ' :: rest) = some (l.key, ' ' :: rest) := by
  obtain ⟨c, cs, h, all, other⟩ := L.key
  have name : (l.key.toList ++ ' ' :: rest).takeWhile isKeyChar = l.key.toList := by
    rw [List.takeWhile_append_of_pos (h ▸ all)]
    simp [isKeyChar]
  have more : (l.key.toList ++ ' ' :: rest).dropWhile isKeyChar = ' ' :: rest := by
    rw [List.dropWhile_append_of_pos (h ▸ all)]
    simp [isKeyChar]
  rw [h] at name more ⊢
  unfold part?
  split
  · next e => exact absurd (List.cons.inj e).1 (other _ (by decide))
  · next e => exact absurd (List.cons.inj e).1 (other _ (by decide))
  · rw [name, more, ← h, String.ofList_toList]
    simp [h]

theorem skipSpace_key (L : l.Sound) (rest : List Char) :
    skipSpace (l.key.toList ++ rest) = l.key.toList ++ rest := by
  obtain ⟨c, cs, h, -, other⟩ := L.key
  refine skipSpace_of_head fun d hd => ?_
  obtain rfl : c = d := by simpa [h] using hd
  simp [isSpace, other ' ' (by decide), other '\t' (by decide)]

theorem key?_key (L : l.Sound) (rest : List Char) :
    key? (l.key.toList ++ ' ' :: '=' :: rest) = some ([], l.key, '=' :: rest) := by
  have parts : parts? (depthLimit - 1) [] (l.key.toList ++ ' ' :: '=' :: rest) =
      some ([l.key], '=' :: rest) := by
    rw [show depthLimit - 1 = 78 + 1 from rfl, parts?, skipSpace_key L, part?_key L]
    rfl
  rw [key?, parts]
  rfl

theorem keyValue?_chars (L : l.Sound) (depth : Nat) (rest : List Char) :
    keyValue? (value? depth) (l.chars ++ rest) = some ([], l.key, l.value, '\n' :: rest) := by
  have value : skipSpace (' ' :: (l.text ++ '\n' :: rest)) = l.text ++ '\n' :: rest := by
    have begins : ∀ c ∈ (l.text ++ '\n' :: rest).head?, isSpace c = false := by
      cases h : l.text with
      | nil => rintro c ⟨⟩; rfl
      | cons d text => exact fun c hc => L.reads.begins c (by rw [h]; exact hc)
    exact skipSpace_of_head begins
  have split : l.chars ++ rest = l.key.toList ++ ' ' :: '=' :: ' ' :: (l.text ++ '\n' :: rest) := by
    simp [chars]
  rw [split, keyValue?, key?_key L]
  simp only [bind, Option.bind, expect?, beq_self_eq_true, if_true, value, L.reads.value]
  rfl

theorem line?_chars (L : l.Sound) (rest : List Char) :
    line? (l.chars ++ rest) = some (some (.assign [] l.key l.value), rest) := by
  have read := keyValue?_chars L (depthLimit - 1) rest
  have begins : skipSpace (l.chars ++ rest) = l.chars ++ rest := by
    rw [chars, List.append_assoc, List.append_assoc, List.append_assoc]
    exact skipSpace_key L _
  obtain ⟨c, cs, h, -, other⟩ := L.key
  have first : ∃ more, l.chars ++ rest = c :: more := ⟨_, by rw [chars, h]; rfl⟩
  obtain ⟨more, first⟩ := first
  unfold line?
  rw [begins]
  rw [first] at read ⊢
  split
  · next e => cases e
  · next e => exact absurd (List.cons.inj e).1 (other _ (by decide))
  · next e => exact absurd (List.cons.inj e).1 (other _ (by decide))
  · next e => exact absurd (List.cons.inj e).1 (other _ (by decide))
  · next e => exact absurd (List.cons.inj e).1 (other _ (by decide))
  · rw [read]
    rfl

/-- The lines of assignments are their statements. -/
theorem statements?_lines (sound : ∀ l ∈ ls, l.Sound) {fuel : Nat} (hf : ls.length ≤ fuel) :
    statements? fuel (ls.flatMap chars) = some (ls.map fun l => .assign [] l.key l.value) := by
  induction ls generalizing fuel with
  | nil => cases fuel <;> rfl
  | cons l ls ih =>
    rw [List.forall_mem_cons] at sound
    obtain ⟨fuel, rfl⟩ : ∃ n, fuel = n + 1 := ⟨fuel - 1, by simp at hf; omega⟩
    have more := ih sound.2 (Nat.le_of_succ_le_succ hf)
    have read := line?_chars sound.1 (ls.flatMap chars)
    have filled : l.chars ++ ls.flatMap chars ≠ [] := by simp [chars]
    rw [List.flatMap_cons]
    generalize l.chars ++ ls.flatMap chars = text at read filled ⊢
    cases text with
    | nil => exact absurd rfl filled
    | cons c text => simp [statements?, read, more]

theorem take?_assign {m : Members} {key : String} {v : Value} (fresh : m.lookup key = none) :
    Draft.take? ⟨m, []⟩ (.assign [] key v) = some ⟨m ++ [(key, v)], []⟩ := by
  simp [Draft.take?, Members.assignIn?, Members.assign?, Members.within?, Members.add?, fresh]

/-- An assignment whose key is new stands behind those before it. -/
theorem foldlM_take? {m : Members} (fresh : ∀ l ∈ ls, m.lookup l.key = none)
    (once : (ls.map (·.key)).Nodup) :
    (ls.map fun l => Statement.assign [] l.key l.value).foldlM Draft.take? ⟨m, []⟩ =
      some ⟨m ++ ls.map fun l => (l.key, l.value), []⟩ := by
  induction ls generalizing m with
  | nil => simp
  | cons l ls ih =>
    rw [List.forall_mem_cons] at fresh
    rw [List.map_cons, List.nodup_cons] at once
    have still : ∀ l' ∈ ls, (m ++ [(l.key, l.value)]).lookup l'.key = none := by
      intro l' hl
      have other : l'.key ≠ l.key := fun h => once.1 (h ▸ List.mem_map_of_mem hl)
      simp [List.lookup_append, fresh.2 l' hl, List.lookup_cons, beq_false_of_ne other]
    rw [List.map_cons, List.foldlM_cons, take?_assign fresh.1, Option.bind_eq_bind,
      Option.bind_some, ih still once.2, List.map_cons, List.append_assoc]
    rfl

/-- Assignments with different keys are the members of the table that their statements make. -/
theorem ofStatements?_assignments (once : (ls.map (·.key)).Nodup) :
    ofStatements? (ls.map fun l => .assign [] l.key l.value) =
      some (ls.map fun l => (l.key, l.value)) := by
  rw [ofStatements?, foldlM_take? (fun _ _ => rfl) once]
  rfl

theorem length_le_flatMap_chars (ls : List Assignment) : ls.length ≤ (ls.flatMap chars).length := by
  induction ls with
  | nil => exact Nat.zero_le 0
  | cons l ls ih =>
    simp only [List.flatMap_cons, List.length_append, List.length_cons, chars]
    omega

/-- A key begins with no byte order mark. -/
theorem skipMark_flatMap_chars (sound : ∀ l ∈ ls, l.Sound) :
    skipMark (ls.flatMap chars) = ls.flatMap chars := by
  cases ls with
  | nil => rfl
  | cons l ls =>
    obtain ⟨c, cs, h, -, other⟩ := (sound l List.mem_cons_self).key
    simp [chars, h, skipMark, other '\ufeff' (by decide)]

end Assignment

/-- A text of assignments with different keys is the table of their values. -/
theorem parse?_assignments {ls : List Assignment} (sound : ∀ l ∈ ls, l.Sound)
    (once : (ls.map (·.key)).Nodup) :
    parse? (String.ofList (ls.flatMap Assignment.chars)) =
      some (ls.map fun l => (l.key, l.value)) := by
  rw [parse?, String.toList_ofList, Assignment.skipMark_flatMap_chars sound]
  simp only [Assignment.statements?_lines sound (Assignment.length_le_flatMap_chars ls),
    Option.bind_some, Assignment.ofStatements?_assignments once]

end ScriptHost.Toml
