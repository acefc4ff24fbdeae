import ScriptHost.Toml.Form

/-!
# Written strings are read back

Whatever form is chosen for a text, the form is told from the opening quotes,
and reading from behind them gives the text (`Form.read?_write`). Between double
quotes a character stands for itself or is spelled by an escape (`Spelled`).
Over several lines up to two quotes in a row stand as they are: three would
close the string, save at its end, where the closing quotes are the last three
of the row (`close?_end`).
-/

namespace ScriptHost.Toml

variable {c d quote : Char} {cs s rest more : List Char}

namespace Form

/-! ## Characters between double quotes -/

/-- How a character other than the double quote is written between double quotes. -/
inductive Spelled (lines : Bool) (c : Char) : List Char → Prop where
  | itself : isText c = true → c ≠ '\\' → Spelled lines c [c]
  | newline : lines = true → c = '\n' → Spelled lines c [c]
  | escape (tail : List Char) : (∀ more, escape? (tail ++ more) = some (c, more)) →
      (∀ more, join? (tail ++ more) = none) → Spelled lines c ('\\' :: tail)

theorem hexNumber?_control : ∀ n < 128,
    hexNumber? ['0', '0', control.upper (n / 16), control.upper (n % 16)] = some n := by decide

theorem spelled_control (lines : Bool) (hc : c.toNat < 128) : Spelled lines c (control c) := by
  refine .escape _ (fun more => ?_) fun more => by simp [join?, isSpace, newline?]
  simp only [List.cons_append, List.nil_append, escape?, codePoint?]
  rw [if_neg (by simp)]
  simp only [List.take_succ_cons, List.take_zero, hexNumber?_control _ hc, List.drop_succ_cons,
    List.drop_zero]
  rw [if_pos (.inl (by omega)), Char.ofNat_toNat]

theorem exists_spelled (lines : Bool) (hc : c ≠ '"') : ∃ piece, Spelled lines c piece ∧
    ∀ run cs, escaped lines run (c :: cs) = piece ++ escaped lines 0 cs := by
  refine ⟨_, ?_, fun run cs => by rw [escaped, if_neg hc]⟩
  have letter : ∀ l : Char, (∀ more, escape? (l :: more) = some (c, more)) → l ≠ '\n' → l ≠ '\r' →
      isSpace l = false → Spelled lines c ['\\', l] := by
    intro l spells hn hr hs
    exact .escape [l] spells fun more => by simp [join?, hs, newline?, hn, hr]
  by_cases h : c = '\n'
  · subst h
    cases lines with
    | true => exact .newline rfl rfl
    | false => exact letter 'n' (fun _ => rfl) (by decide) (by decide) rfl
  rw [if_neg h]
  split
  · subst c; exact letter 'b' (fun _ => rfl) (by decide) (by decide) rfl
  split
  · subst c; exact letter 't' (fun _ => rfl) (by decide) (by decide) rfl
  split
  · subst c; exact letter 'f' (fun _ => rfl) (by decide) (by decide) rfl
  split
  · subst c; exact letter 'r' (fun _ => rfl) (by decide) (by decide) rfl
  split
  · subst c; exact letter '\\' (fun _ => rfl) (by decide) (by decide) rfl
  next plain =>
    by_cases ht : isText c = true
    · rw [if_pos ht]
      exact .itself ht plain
    · rw [if_neg ht]
      refine spelled_control lines ?_
      simp [isText] at ht
      omega

theorem escaped_quote (lines : Bool) (run : Nat) (cs : List Char) :
    escaped lines run ('"' :: cs) =
      if run < (if lines then 2 else 0) then '"' :: escaped lines (run + 1) cs
      else '\\' :: '"' :: escaped lines 0 cs := by
  rw [escaped, if_pos rfl]

/-! ## One line -/

theorem readBasic?_text (ht : isText c = true) (hq : c ≠ '"') (hb : c ≠ '\\') :
    readBasic? (c :: rest) = push [c] (readBasic? rest) := by
  rw [readBasic?, if_neg hq, if_neg hb, if_pos ht]

theorem readBasic?_escape (h : escape? rest = some (c, more)) :
    readBasic? ('\\' :: rest) = push [c] (readBasic? more) := by
  rw [readBasic?, if_neg (by decide), if_pos rfl]
  split
  · next h' =>
    rw [h] at h'
    cases h'
    rfl
  · next h' => simp [h] at h'

theorem readBasic?_escaped (s rest : List Char) :
    readBasic? (escaped false 0 s ++ '"' :: rest) = some (s, rest) := by
  induction s with
  | nil => rw [escaped, List.nil_append, readBasic?, if_pos rfl]
  | cons c s ih =>
    by_cases hc : c = '"'
    · subst hc
      rw [escaped_quote, if_neg (by decide), List.cons_append, List.cons_append,
        readBasic?_escape (c := '"') rfl, ih]
      rfl
    obtain ⟨piece, spelled, written⟩ := exists_spelled false hc
    rw [written, List.append_assoc]
    cases spelled with
    | itself ht hb => rw [List.singleton_append, readBasic?_text ht hc hb, ih]; rfl
    | newline h => cases h
    | escape tail spells => rw [List.cons_append, readBasic?_escape (spells _), ih]; rfl

theorem readLiteral?_append (ht : ∀ c ∈ s, isText c = true) (hq : ∀ c ∈ s, c ≠ '\'') :
    readLiteral? (s ++ '\'' :: rest) = some (s, rest) := by
  induction s with
  | nil => rfl
  | cons c s ih =>
    rw [List.forall_mem_cons] at ht hq
    rw [List.cons_append, readLiteral?, if_neg hq.1, if_pos ht.1, ih ht.2 hq.2]
    rfl

/-! ## Several lines -/

theorem takeWhile_quotes {k : Nat} (hr : rest.head? ≠ some quote) :
    (List.replicate k quote ++ rest).takeWhile (· == quote) = List.replicate k quote := by
  rw [List.takeWhile_append_of_pos fun c hc => by simp [List.eq_of_mem_replicate hc]]
  cases rest with
  | nil => simp
  | cons c rest =>
    have other : (c == quote) = false := by simpa using hr
    simp [other]

/-- The closing quotes, and up to two before them. -/
theorem close?_end {k : Nat} (hk : k ≤ 2) (hr : rest.head? ≠ some quote) :
    close? quote (List.replicate k quote ++ (List.replicate 3 quote ++ rest)) =
      some (List.replicate k quote, rest) := by
  rw [← List.append_assoc, List.replicate_append_replicate, close?, takeWhile_quotes hr]
  simp only [List.length_replicate]
  rw [if_neg (by omega), show min (k + 3 - 3) 2 = k by omega]
  simp

theorem close?_inside {k : Nat} (hk : k ≤ 2) (hd : d ≠ quote) :
    close? quote (List.replicate k quote ++ d :: rest) = none := by
  rw [close?, takeWhile_quotes (by simpa using hd)]
  simp only [List.length_replicate]
  rw [if_pos (by omega)]

theorem readBasicLines?_text (ht : isText c = true) (hq : c ≠ '"') (hb : c ≠ '\\') :
    readBasicLines? (c :: rest) = push [c] (readBasicLines? rest) := by
  rw [readBasicLines?, if_neg hq, if_neg hb, if_pos ht]

theorem readBasicLines?_newline :
    readBasicLines? ('\n' :: rest) = push ['\n'] (readBasicLines? rest) := by
  rw [readBasicLines?, if_neg (by decide), if_neg (by decide), if_neg (by decide)]
  rfl

theorem readBasicLines?_escape (hj : join? rest = none) (h : escape? rest = some (c, more)) :
    readBasicLines? ('\\' :: rest) = push [c] (readBasicLines? more) := by
  rw [readBasicLines?, if_neg (by decide), if_pos rfl]
  split
  · next h' => simp [hj] at h'
  split
  · next h' =>
    rw [h] at h'
    cases h'
    rfl
  · next h' => simp [h] at h'

theorem readBasicLines?_quote (h : close? '"' ('"' :: rest) = none) :
    readBasicLines? ('"' :: rest) = push ['"'] (readBasicLines? rest) := by
  rw [readBasicLines?, if_pos rfl, h]

theorem readBasicLines?_close {closed : List Char × List Char}
    (h : close? '"' ('"' :: rest) = some closed) :
    readBasicLines? ('"' :: rest) = some closed := by
  rw [readBasicLines?, if_pos rfl, h]

/-- What is written of a text begins with at most two quotes, behind `run` others; if nothing
follows them, then they are the text. -/
theorem escaped_quotes {run : Nat} (hr : run ≤ 2) (s : List Char) :
    ∃ k tail, escaped true run s = List.replicate k '"' ++ tail ∧ k + run ≤ 2 ∧
      (tail = [] ∧ s = List.replicate k '"' ∨ ∃ d more, tail = d :: more ∧ d ≠ '"') := by
  induction s generalizing run with
  | nil => exact ⟨0, [], rfl, by omega, .inl ⟨rfl, rfl⟩⟩
  | cons c s ih =>
    by_cases hc : c = '"'
    · subst hc
      rw [escaped_quote]
      by_cases room : run < 2
      · obtain ⟨k, tail, written, few, end_⟩ := ih (show run + 1 ≤ 2 by omega)
        refine ⟨k + 1, tail, by simp [room, written, List.replicate_succ], by omega, ?_⟩
        rcases end_ with ⟨rfl, rfl⟩ | other
        · exact .inl ⟨rfl, rfl⟩
        · exact .inr other
      · exact ⟨0, '\\' :: '"' :: escaped true 0 s, by simp [room], by omega,
          .inr ⟨'\\', _, rfl, by decide⟩⟩
    · obtain ⟨piece, spelled, written⟩ := exists_spelled true hc
      rw [written]
      refine ⟨0, _, rfl, by omega, .inr ?_⟩
      cases spelled with
      | itself | newline => exact ⟨c, _, rfl, hc⟩
      | escape tail => exact ⟨'\\', _, rfl, by decide⟩

theorem readBasicLines?_escaped {run : Nat} (hr : run ≤ 2) (s : List Char)
    (after : rest.head? ≠ some '"') :
    readBasicLines? (escaped true run s ++ (List.replicate 3 '"' ++ rest)) = some (s, rest) := by
  induction s generalizing run with
  | nil => exact readBasicLines?_close (close?_end (k := 0) (by omega) after)
  | cons c s ih =>
    by_cases hc : c = '"'
    · subst hc
      rw [escaped_quote]
      by_cases room : run < 2
      · rw [if_pos (by simpa using room), List.cons_append]
        have more := ih (show run + 1 ≤ 2 by omega)
        obtain ⟨k, tail, written, few, ⟨rfl, rfl⟩ | ⟨d, tail, rfl, hd⟩⟩ :=
          escaped_quotes (show run + 1 ≤ 2 by omega) s
        · rw [written, List.append_nil]
          exact readBasicLines?_close (close?_end (k := k + 1) (by omega) after)
        · refine (readBasicLines?_quote ?_).trans (by rw [more]; rfl)
          rw [written, List.append_assoc]
          exact close?_inside (k := k + 1) (by omega) hd
      · rw [if_neg (by simpa using room), List.cons_append, List.cons_append,
          readBasicLines?_escape (c := '"') rfl rfl, ih (by omega)]
        rfl
    obtain ⟨piece, spelled, written⟩ := exists_spelled true hc
    rw [written, List.append_assoc]
    have more := ih (show 0 ≤ 2 by omega)
    cases spelled with
    | itself ht hb => rw [List.singleton_append, readBasicLines?_text ht hc hb, more]; rfl
    | newline _ h => subst h; rw [List.singleton_append, readBasicLines?_newline, more]; rfl
    | escape tail spells apart =>
      rw [List.cons_append, readBasicLines?_escape (apart _) (spells _), more]
      rfl

/-- No more than `bound` of the character stand in a row, behind `run` others. -/
def Within (c : Char) (bound : Nat) : Nat → List Char → Prop
  | _, [] => True
  | run, d :: cs =>
    if d = c then run < bound ∧ Within c bound (run + 1) cs else Within c bound 0 cs

/-- The run of the character at the end of what has been seen, and the longest one, after one more
character. -/
def tally (c : Char) (runs : Nat × Nat) (d : Char) : Nat × Nat :=
  if d == c then (runs.1 + 1, max runs.2 (runs.1 + 1)) else (0, runs.2)

theorem longestRun_eq (c : Char) (s : List Char) :
    longestRun c s = (s.foldl (tally c) (0, 0)).2 := rfl

/-- The longest run so far can only grow. -/
theorem le_tallied (c : Char) (s : List Char) (runs : Nat × Nat) :
    runs.2 ≤ (s.foldl (tally c) runs).2 := by
  induction s generalizing runs with
  | nil => exact Nat.le_refl _
  | cons d s ih =>
    refine Nat.le_trans ?_ (ih (tally c runs d))
    unfold tally
    split
    · exact Nat.le_max_left _ _
    · exact Nat.le_refl _

theorem within_of_tallied {bound : Nat} {runs : Nat × Nat}
    (h : (s.foldl (tally c) runs).2 ≤ bound) : Within c bound runs.1 s := by
  induction s generalizing runs with
  | nil => trivial
  | cons d s ih =>
    have further := ih h
    have room := Nat.le_trans (le_tallied c s (tally c runs d)) h
    unfold tally at further room
    by_cases hd : d = c
    · rw [if_pos (by simpa using hd)] at further room
      rw [Within, if_pos hd]
      exact ⟨Nat.le_trans (Nat.le_max_right _ _) room, further⟩
    · rw [if_neg (by simpa using hd)] at further
      rw [Within, if_neg hd]
      exact further

theorem within_of_longestRun {bound : Nat} (h : longestRun c s ≤ bound) : Within c bound 0 s := by
  rw [longestRun_eq] at h
  exact within_of_tallied h

theorem Within.absent {run : Nat} (h : Within c 0 run s) : ∀ d ∈ s, d ≠ c := by
  induction s generalizing run with
  | nil => simp
  | cons d s ih =>
    by_cases hd : d = c
    · rw [Within, if_pos hd] at h
      exact absurd h.1 (Nat.not_lt_zero _)
    · rw [Within, if_neg hd] at h
      exact List.forall_mem_cons.mpr ⟨hd, ih h⟩

/-- A text with no more than two quotes in a row begins with at most two, behind `run` others. -/
theorem Within.quotes {run : Nat} (hr : run ≤ 2) (h : Within quote 2 run s) :
    ∃ k tail, s = List.replicate k quote ++ tail ∧ k + run ≤ 2 ∧
      (tail = [] ∨ ∃ d more, tail = d :: more ∧ d ≠ quote) := by
  induction s generalizing run with
  | nil => exact ⟨0, [], rfl, by omega, .inl rfl⟩
  | cons c s ih =>
    by_cases hc : c = quote
    · rw [Within, if_pos hc] at h
      obtain ⟨k, tail, rfl, few, end_⟩ := ih (show run + 1 ≤ 2 by omega) h.2
      exact ⟨k + 1, tail, by rw [hc]; rfl, by omega, end_⟩
    · exact ⟨0, _, rfl, by omega, .inr ⟨c, s, rfl, hc⟩⟩

theorem readLiteralLines?_text (ht : isText c = true) (hq : c ≠ '\'') :
    readLiteralLines? (c :: rest) = push [c] (readLiteralLines? rest) := by
  rw [readLiteralLines?, if_neg hq, if_pos ht]

theorem readLiteralLines?_newline :
    readLiteralLines? ('\n' :: rest) = push ['\n'] (readLiteralLines? rest) := by
  rw [readLiteralLines?, if_neg (by decide), if_neg (by decide)]
  rfl

theorem readLiteralLines?_quote (h : close? '\'' ('\'' :: rest) = none) :
    readLiteralLines? ('\'' :: rest) = push ['\''] (readLiteralLines? rest) := by
  rw [readLiteralLines?, if_pos rfl, h]

theorem readLiteralLines?_close {closed : List Char × List Char}
    (h : close? '\'' ('\'' :: rest) = some closed) :
    readLiteralLines? ('\'' :: rest) = some closed := by
  rw [readLiteralLines?, if_pos rfl, h]

theorem readLiteralLines?_append {run : Nat} (hr : run ≤ 2)
    (ht : ∀ c ∈ s, isText c = true ∨ c = '\n') (few : Within '\'' 2 run s)
    (after : rest.head? ≠ some '\'') :
    readLiteralLines? (s ++ (List.replicate 3 '\'' ++ rest)) = some (s, rest) := by
  induction s generalizing run with
  | nil => exact readLiteralLines?_close (close?_end (k := 0) (by omega) after)
  | cons c s ih =>
    rw [List.forall_mem_cons] at ht
    rw [List.cons_append]
    by_cases hc : c = '\''
    · subst hc
      rw [Within, if_pos rfl] at few
      have more := ih (show run + 1 ≤ 2 by omega) ht.2 few.2
      obtain ⟨k, tail, written, few, rfl | ⟨d, tail, rfl, hd⟩⟩ :=
        few.2.quotes (show run + 1 ≤ 2 by omega)
      · rw [written, List.append_nil]
        exact readLiteralLines?_close (close?_end (k := k + 1) (by omega) after)
      · refine (readLiteralLines?_quote ?_).trans (by rw [more]; rfl)
        rw [written, List.append_assoc]
        exact close?_inside (k := k + 1) (by omega) hd
    · rw [Within, if_neg hc] at few
      have more := ih (by omega) ht.2 few
      rcases ht.1 with text | rfl
      · rw [readLiteralLines?_text text hc, more]
        rfl
      · rw [readLiteralLines?_newline, more]
        rfl

/-! ## The form that is chosen -/

/-- Nothing in a text has to be escaped: it has no control but the end of a line. -/
theorem forall_isText (h : (s.any fun c => !isText c && c != '\n') = false) :
    ∀ c ∈ s, isText c = true ∨ c = '\n' := by
  intro c hc
  simpa [Classical.or_iff_not_imp_left] using List.any_eq_false.mp h c hc

theorem of_choose_literal (h : choose s = literal) :
    (∀ c ∈ s, isText c = true) ∧ ∀ c ∈ s, c ≠ '\'' := by
  have fits : ((!(s.any fun c => !isText c && c != '\n')) && longestRun '\'' s == 0 &&
      !s.contains '\n') = true := by
    refine Classical.byContradiction fun fits => ?_
    simp only [choose, fits, if_false, Bool.false_eq_true] at h
    grind
  simp only [Bool.and_eq_true, Bool.not_eq_true', beq_iff_eq] at fits
  obtain ⟨⟨controls, single⟩, lines⟩ := fits
  refine ⟨fun c hc => (forall_isText controls c hc).resolve_right ?_,
    (within_of_longestRun (Nat.le_of_eq single)).absent⟩
  rintro rfl
  exact absurd (by simpa using hc) (by simpa using lines)

theorem of_choose_literalLines (h : choose s = literalLines) :
    (∀ c ∈ s, isText c = true ∨ c = '\n') ∧ Within '\'' 2 0 s := by
  have fits : ((!(s.any fun c => !isText c && c != '\n')) && longestRun '\'' s ≤ 2) = true := by
    refine Classical.byContradiction fun fits => ?_
    simp only [choose, fits, if_false, Bool.false_eq_true] at h
    grind
  simp only [Bool.and_eq_true, Bool.not_eq_true', decide_eq_true_eq] at fits
  exact ⟨forall_isText fits.1, within_of_longestRun fits.2⟩

/-! ## Reading what is written -/

theorem open?_basic (h : ['"', '"'].isPrefixOf cs = false) :
    open? ('"' :: cs) = some (basic, cs) := by
  simp [open?, quotes, h]

theorem open?_literal (h : ['\'', '\''].isPrefixOf cs = false) :
    open? ('\'' :: cs) = some (literal, cs) := by
  simp [open?, quotes, h]

/-- An opening quote is alone if the text in front of the closing one does not begin with one. -/
theorem single_quote (hs : s.head? ≠ some quote) (hr : rest.head? ≠ some quote) :
    [quote, quote].isPrefixOf (s ++ quote :: rest) = false := by
  have other : ∀ d : Char, d ≠ quote → (quote == d) = false := fun d hd => by simpa using hd.symm
  cases s with
  | nil =>
    cases rest with
    | nil => simp [List.isPrefixOf]
    | cons d rest => simp [List.isPrefixOf, other d (by simpa using hr)]
  | cons d s => simp [List.isPrefixOf, other d (by simpa using hs)]

theorem not_newline_of_isText (h : isText c = true) : c ≠ '\n' ∧ c ≠ '\r' := by
  constructor <;> (rintro rfl; exact absurd h (by decide))

/-- What is written over several lines starts on a line of its own if it has more than one. -/
theorem skipNewline_written (h : '\n' ∉ s → ∀ d ∈ cs.head?, d ≠ '\n' ∧ d ≠ '\r') :
    skipNewline ((if s.contains '\n' then ['\n'] else []) ++ cs) = cs := by
  by_cases lines : '\n' ∈ s
  · rw [if_pos (by simpa using lines)]
    rfl
  · rw [if_neg (by simpa using lines), List.nil_append]
    cases cs with
    | nil => rfl
    | cons d cs =>
      obtain ⟨hn, hr⟩ := h lines d rfl
      simp [skipNewline, newline?, hn, hr]

/-- What is written of a text does not begin with the end of a line, unless the text does; on one
line it does not begin with a quote. -/
theorem head?_escaped (lines : Bool) (h : lines = true → '\n' ∉ s) :
    ∀ d ∈ (escaped lines 0 s).head?, (d ≠ '\n' ∧ d ≠ '\r') ∧ (lines = false → d ≠ '"') := by
  cases s with
  | nil => simp [escaped]
  | cons c s =>
    by_cases hc : c = '"'
    · subst hc
      cases lines <;> simp [escaped_quote]
    · obtain ⟨piece, spelled, written⟩ := exists_spelled lines hc
      rw [written]
      cases spelled with
      | itself ht => simpa [hc] using not_newline_of_isText ht
      | newline hl hn => exact absurd hn.symm (List.ne_of_not_mem_cons (h hl))
      | escape tail => simp

/-- The form of what is written shows, and what follows the opening quotes is read as the text and
what follows that. -/
theorem read?_write (s : List Char) (hq : rest.head? ≠ some '"') (hq' : rest.head? ≠ some '\'') :
    ∃ text, open? ((choose s).write s ++ rest) = some (choose s, text) ∧
      (choose s).read? text = some (s, rest) := by
  cases hf : choose s with
  | basic =>
    refine ⟨escaped false 0 s ++ '"' :: rest, ?_, readBasic?_escaped s rest⟩
    simp only [write, quotes, List.append_assoc, List.singleton_append]
    exact open?_basic (single_quote (fun h => (head?_escaped false nofun _ h).2 rfl rfl) hq)
  | literal =>
    obtain ⟨text, unquoted⟩ := of_choose_literal hf
    refine ⟨s ++ '\'' :: rest, ?_, readLiteral?_append text unquoted⟩
    simp only [write, quotes, List.append_assoc, List.singleton_append]
    exact open?_literal (single_quote (fun h => unquoted _ (List.mem_of_head? h) rfl) hq')
  | basicLines =>
    refine ⟨(if s.contains '\n' then ['\n'] else []) ++
      (escaped true 0 s ++ (List.replicate 3 '"' ++ rest)), ?_, ?_⟩
    · simp only [write, quotes, List.append_assoc]
      rfl
    · rw [read?, skipNewline_written, readBasicLines?_escaped (by omega) s hq]
      intro h d hd
      have first := head?_escaped true (fun _ => h) d
      cases he : escaped true 0 s with
      | nil =>
        rw [he] at hd
        cases hd
        exact ⟨by decide, by decide⟩
      | cons e more =>
        rw [he] at hd first
        exact (first hd).1
  | literalLines =>
    obtain ⟨text, few⟩ := of_choose_literalLines hf
    refine ⟨(if s.contains '\n' then ['\n'] else []) ++
      (s ++ (List.replicate 3 '\'' ++ rest)), ?_, ?_⟩
    · simp only [write, quotes, List.append_assoc]
      rfl
    · rw [read?, skipNewline_written, readLiteralLines?_append (by omega) text few hq']
      intro h d hd
      cases s with
      | nil =>
        cases hd
        exact ⟨by decide, by decide⟩
      | cons c s =>
        obtain rfl : c = d := by simpa using hd
        have inside := List.ne_of_not_mem_cons h
        exact not_newline_of_isText ((text c List.mem_cons_self).resolve_right inside.symm)

end Form

end ScriptHost.Toml
