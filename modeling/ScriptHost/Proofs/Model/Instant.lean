import ScriptHost.Proofs.Text.Digits
import ScriptHost.Model.Instant

/-!
# Moments read back

A moment of the calendar is read back from its text in documents, and the
reader makes no others.
-/

namespace ScriptHost

namespace Decimal

open Text

theorem toList_padded (width n : Nat) : (padded width n).toList =
    List.replicate (width - (Nat.toDigits 10 n).length) '0' ++ Nat.toDigits 10 n := by
  have pushed : ∀ (n : Nat) (s : String), (s.pushn '0' n).toList = s.toList ++ List.replicate n '0' := by
    intro n s
    rw [String.pushn_eq_repeat_push]
    induction n with
    | zero => simp [Nat.repeat]
    | succ n ih => rw [Nat.repeat, String.toList_push, ih, List.replicate_succ', List.append_assoc]
  unfold padded
  simp only [String.toList_append, pushed, Nat.toString_eq_repr, Nat.toList_repr]
  rw [← String.length_toList, Nat.toList_repr]
  rfl

theorem isDigit_padded (width n : Nat) : ∀ c ∈ (padded width n).toList, c.isDigit = true := by
  rw [toList_padded]
  exact fun c hc => (List.mem_append.mp hc).elim (isDigit_zeros c) (isDigit_toDigits c)

theorem padded_value (width n : Nat) : Nat.ofDigitChars 10 (padded width n).toList 0 = n := by
  rw [toList_padded, ofDigitChars_append_zero, Nat.ofDigitChars_replicate_zero,
    Nat.ofDigitChars_ten_toDigits]
  omega

theorem length_padded {width n : Nat} (hw : 0 < width) (h : n < 10 ^ width) :
    (padded width n).toList.length = width := by
  have := (Nat.length_toDigits_le_iff (b := 10) (by decide) hw).mpr h
  rw [toList_padded, List.length_append, List.length_replicate]
  omega

theorem padded_ne_nil (width n : Nat) : (padded width n).toList ≠ [] := by
  rw [toList_padded]
  simp

end Decimal

namespace Instant

open Text Decimal

/-- What follows does not go on with a digit. -/
def Ends (rest : List Char) : Prop := ∀ c ∈ rest.head?, c.isDigit = false

theorem Ends.dropWhile {rest : List Char} (h : Ends rest) : rest.dropWhile Char.isDigit = rest := by
  cases rest with
  | nil => rfl
  | cons c rest => simp [h c rfl]

theorem isBlank_of_isDigit {c : Char} (h : c.isDigit = true) : isBlank c = false := by
  have := toNat_of_isDigit h
  simp only [isBlank, Bool.or_eq_false_iff, Bool.and_eq_false_iff, decide_eq_false_iff_not,
    beq_eq_false_iff_ne]
  omega

theorem skipBlanks_digits {ds rest : List Char} (hne : ds ≠ []) (h : ∀ c ∈ ds, c.isDigit = true) :
    skipBlanks (ds ++ rest) = ds ++ rest := by
  cases ds with
  | nil => exact absurd rfl hne
  | cons c ds => simp [skipBlanks, isBlank_of_isDigit (h c List.mem_cons_self)]

/-- Digits up to the width, or up to what ends them. -/
theorem number?_digits {width : Nat} {ds rest : List Char} (hne : ds ≠ [])
    (h : ∀ c ∈ ds, c.isDigit = true) (le : ds.length ≤ width)
    (stop : ds.length = width ∨ Ends rest) :
    number? width (ds ++ rest) = some (Nat.ofDigitChars 10 ds 0, rest) := by
  have taken : ((ds ++ rest).take width).takeWhile Char.isDigit = ds := by
    rw [List.take_append, List.take_of_length_le le, List.takeWhile_append_of_pos h]
    have : ((rest.take (width - ds.length)).takeWhile Char.isDigit) = [] := by
      rcases stop with e | ends
      · rw [e, Nat.sub_self, List.take_zero, List.takeWhile_nil]
      · cases rest with
        | nil => simp
        | cons c rest =>
          cases width - ds.length with
          | zero => rfl
          | succ n => simp [ends c rfl]
    rw [this, List.append_nil]
  unfold number?
  simp only [taken, List.isEmpty_iff, hne, if_false, foldl_digits, List.drop_left]

theorem field?_padded (width n : Nat) (hw : 0 < width) (h : n < 10 ^ width) (rest : List Char) :
    field? width ((padded width n).toList ++ rest) = some (n, rest) := by
  unfold field?
  rw [skipBlanks_digits (padded_ne_nil _ _) (isDigit_padded _ _),
    number?_digits (padded_ne_nil _ _) (isDigit_padded _ _) (length_padded hw h).le
      (.inl (length_padded hw h)), padded_value]

theorem mark?_cons {c : Char} (h : isBlank c = false) (rest : List Char) :
    mark? c (c :: rest) = some rest := by
  simp [mark?, skipBlanks, h]

theorem year?_unsigned {ds : List Char} (hne : ds ≠ []) (h : ∀ c ∈ ds, c.isDigit = true)
    (rest : List Char) :
    year? (ds ++ rest) = (number? 4 (ds ++ rest)).map fun (n, rest) => ((n : Int), rest) := by
  unfold year?
  rw [skipBlanks_digits hne h]
  obtain ⟨c, cs, rfl⟩ := List.exists_cons_of_ne_nil hne
  have hc := h c List.mem_cons_self
  rw [List.cons_append]
  split
  · next e => cases e; cases hc
  · next e => cases e; cases hc
  · rfl

theorem year?_minus (rest : List Char) : year? ('-' :: rest) =
    (number? rest.length rest).map fun (n, rest) => (-(n : Int), rest) := rfl

theorem year?_plus (rest : List Char) : year? ('+' :: rest) =
    (number? rest.length rest).map fun (n, rest) => ((n : Int), rest) := rfl

theorem year?_text (year : Int) (rest : List Char) :
    year? ((Day.yearText year).toList ++ '-' :: rest) = some (year, '-' :: rest) := by
  have ends : Ends ('-' :: rest) := by rintro c ⟨⟩; rfl
  have number : ∀ n width, (padded 4 n).toList.length ≤ width →
      number? width ((padded 4 n).toList ++ '-' :: rest) = some (n, '-' :: rest) := by
    intro n width hle
    rw [number?_digits (padded_ne_nil 4 n) (isDigit_padded 4 n) hle (.inr ends), padded_value]
  have signed : ∀ n, number? ((padded 4 n).toList ++ '-' :: rest).length
      ((padded 4 n).toList ++ '-' :: rest) = some (n, '-' :: rest) :=
    fun n => number n _ (by simp)
  unfold Day.yearText
  split
  · next h =>
    rw [year?_unsigned (padded_ne_nil _ _) (isDigit_padded _ _),
      number _ _ (length_padded (by decide) (by omega)).le]
    simp [Int.toNat_of_nonneg h.1]
  · rw [String.toList_append, List.append_assoc]
    split
    · rw [show "-".toList = ['-'] from rfl, List.singleton_append, year?_minus, signed]
      simp only [Option.map_some]
      congr 2
      omega
    · rw [show "+".toList = ['+'] from rfl, List.singleton_append, year?_plus, signed]
      simp only [Option.map_some]
      congr 2
      omega

theorem fraction?_point (cs : List Char) : fraction? ('.' :: cs) =
    (number? 9 cs).map fun (n, rest) =>
      (n * Nat.pow 10 (9 - (cs.length - rest.length)), rest.dropWhile Char.isDigit) := rfl

/-- A fraction of three, six or nine digits. -/
theorem fraction?_padded {width n : Nat} (hw : 0 < width) (h9 : width ≤ 9) (h : n < 10 ^ width)
    {rest : List Char} (ends : Ends rest) :
    fraction? ('.' :: ((padded width n).toList ++ rest)) = some (n * 10 ^ (9 - width), rest) := by
  have length := length_padded hw h
  rw [fraction?_point, number?_digits (padded_ne_nil _ _) (isDigit_padded _ _) (by omega)
    (.inr ends), padded_value]
  simp only [Option.map_some, ends.dropWhile, List.length_append, length, Nat.add_sub_cancel,
    Nat.pow_eq]

theorem fraction?_text {n : Nat} (h : n < 10 ^ 9) {rest : List Char} (ends : Ends rest)
    (point : rest.head? ≠ some '.') :
    fraction? ((fractionText n).toList ++ rest) = some (n, rest) := by
  have pointed : ∀ s : String, ("." ++ s).toList ++ rest = '.' :: (s.toList ++ rest) :=
    fun s => by rw [String.toList_append]; rfl
  unfold fractionText
  split
  · next h0 =>
    rw [h0, show "".toList = [] from rfl, List.nil_append]
    unfold fraction?
    split
    · exact absurd rfl point
    · rfl
  split
  · rw [pointed, fraction?_padded (by decide) (by decide) (by omega) ends]
    congr 2
    omega
  split
  · rw [pointed, fraction?_padded (by decide) (by decide) (by omega) ends]
    congr 2
    omega
  · rw [pointed, fraction?_padded (by decide) (by decide) h ends]
    congr 2
    omega

/-- A moment of the calendar, within the years that are kept. -/
structure Valid (t : Instant) : Prop where
  day : Day.ofParts? t.day.year t.day.month t.day.day = some t.day
  minute : t.minute < 1440
  second : t.second ≤ 60
  nanos : t.nanos < 10 ^ 9

instance (t : Instant) : Decidable t.Valid :=
  decidable_of_iff (Day.ofParts? t.day.year t.day.month t.day.day = some t.day ∧
    t.minute < 1440 ∧ t.second ≤ 60 ∧ t.nanos < 10 ^ 9)
    ⟨fun h => ⟨h.1, h.2.1, h.2.2.1, h.2.2.2⟩, fun h => ⟨h.day, h.minute, h.second, h.nanos⟩⟩

theorem ofParts?_some {year : Int} {month day : Nat} {d : Day}
    (h : Day.ofParts? year month day = some d) : d = ⟨year, month, day⟩ ∧
      month ≤ 12 ∧ day ≤ 31 := by
  unfold Day.ofParts? at h
  split at h
  · next hc =>
    cases h
    refine ⟨rfl, hc.2.2.2.1, hc.2.2.2.2.2.trans ?_⟩
    unfold Day.lengthOf
    split
    · split <;> decide
    · split <;> decide
  · cases h

theorem toList_encoded (t : Instant) : t.encoded.toList =
    (Day.yearText t.day.year).toList ++ '-' :: ((padded 2 t.day.month).toList ++
      '-' :: ((padded 2 t.day.day).toList ++ 'T' :: ((padded 2 (t.minute / 60)).toList ++
        ':' :: ((padded 2 (t.minute % 60)).toList ++ ':' :: ((padded 2 t.second).toList ++
          ((fractionText t.nanos).toList ++ ['Z'])))))) := by
  simp [encoded, Day.text, clockText, minuteText, String.toList_append]

/-- The text of a moment in documents is read as the moment. -/
theorem parse?_encoded {t : Instant} (h : t.Valid) : parse? t.encoded = some t := by
  obtain ⟨day, minute, second, nanos⟩ := t
  obtain ⟨hday, hminute, hsecond, hnanos⟩ := h
  obtain ⟨-, hmonth, hlength⟩ := ofParts?_some hday
  simp only at hday hminute hsecond hnanos hmonth hlength
  have utc : Ends ['Z'] := by rintro c ⟨⟩; rfl
  unfold parse?
  rw [toList_encoded]
  refine Option.bind_eq_some_iff.mpr ⟨_, year?_text _ _, ?_⟩
  refine Option.bind_eq_some_iff.mpr ⟨_, mark?_cons (by decide) _, ?_⟩
  refine Option.bind_eq_some_iff.mpr ⟨_, field?_padded 2 day.month (by decide) (by omega) _, ?_⟩
  refine Option.bind_eq_some_iff.mpr ⟨_, mark?_cons (by decide) _, ?_⟩
  refine Option.bind_eq_some_iff.mpr ⟨_, field?_padded 2 day.day (by decide) (by omega) _, ?_⟩
  refine Option.bind_eq_some_iff.mpr ⟨_, rfl, ?_⟩
  refine Option.bind_eq_some_iff.mpr ⟨_, field?_padded 2 (minute / 60) (by decide) (by omega) _, ?_⟩
  refine Option.bind_eq_some_iff.mpr ⟨_, mark?_cons (by decide) _, ?_⟩
  refine Option.bind_eq_some_iff.mpr ⟨_, field?_padded 2 (minute % 60) (by decide) (by omega) _, ?_⟩
  refine Option.bind_eq_some_iff.mpr ⟨_, mark?_cons (by decide) _, ?_⟩
  refine Option.bind_eq_some_iff.mpr ⟨_, field?_padded 2 second (by decide) (by omega) _, ?_⟩
  refine Option.bind_eq_some_iff.mpr ⟨_, fraction?_text hnanos utc (by decide), ?_⟩
  refine Option.bind_eq_some_iff.mpr ⟨(0, []), rfl, ?_⟩
  simp only [Bool.and_eq_true, decide_eq_true_eq]
  rw [if_pos ⟨⟨⟨rfl, by omega⟩, by omega⟩, hsecond⟩]
  refine Option.bind_eq_some_iff.mpr ⟨_, hday, ?_⟩
  unfold ofLocal?
  simp only [Int.sub_zero]
  rw [if_neg (by omega), if_neg (by omega)]
  congr 2
  omega

/-! ## The reader makes moments of the calendar -/

theorem day_of_parts {year : Int} {month day : Nat} {d : Day}
    (h : Day.ofParts? year month day = some d) : Day.ofParts? d.year d.month d.day = some d := by
  have := (ofParts?_some h).1
  rw [this] at h ⊢
  exact h

theorem day_of_next {d d' : Day} (h : d.next? = some d') :
    Day.ofParts? d'.year d'.month d'.day = some d' := by
  unfold Day.next? at h
  split at h
  · exact day_of_parts h
  · split at h <;> exact day_of_parts h

theorem day_of_previous {d d' : Day} (h : d.previous? = some d') :
    Day.ofParts? d'.year d'.month d'.day = some d' := by
  unfold Day.previous? at h
  split at h
  · exact day_of_parts h
  · split at h <;> exact day_of_parts h

theorem valid_of_local {day : Day} {minute second nanos : Nat} {offset : Int} {t : Instant}
    (hday : Day.ofParts? day.year day.month day.day = some day) (hminute : minute < 1440)
    (hoffset : -1440 < offset ∧ offset < 1440) (hsecond : second ≤ 60) (hnanos : nanos < 10 ^ 9)
    (h : ofLocal? day minute offset second nanos = some t) : t.Valid := by
  unfold ofLocal? at h
  simp only at h
  split at h
  · obtain ⟨d, hd, rfl⟩ := Option.map_eq_some_iff.mp h
    exact ⟨day_of_previous hd, by simp only; omega, hsecond, hnanos⟩
  split at h
  · obtain ⟨d, hd, rfl⟩ := Option.map_eq_some_iff.mp h
    exact ⟨day_of_next hd, by simp only; omega, hsecond, hnanos⟩
  · cases h
    exact ⟨hday, by simp only; omega, hsecond, hnanos⟩

/-- The digits that a number takes away. -/
theorem number?_some {width : Nat} {cs rest : List Char} {n : Nat}
    (h : number? width cs = some (n, rest)) :
    cs.length - rest.length ≤ width ∧ n < 10 ^ (cs.length - rest.length) := by
  unfold number? at h
  simp only at h
  split at h
  · cases h
  · cases h
    have le : ((cs.take width).takeWhile Char.isDigit).length ≤ (cs.take width).length :=
      (List.takeWhile_prefix _).length_le
    have digits : ∀ c ∈ (cs.take width).takeWhile Char.isDigit, c.isDigit = true :=
      fun c hc => List.mem_takeWhile_imp hc
    have := ofDigitChars_lt digits
    rw [List.length_take] at le
    rw [List.length_drop, foldl_digits,
      show cs.length - (cs.length - ((cs.take width).takeWhile Char.isDigit).length) =
        ((cs.take width).takeWhile Char.isDigit).length by omega]
    exact ⟨by omega, this⟩

theorem fraction?_some {cs rest : List Char} {n : Nat} (h : fraction? cs = some (n, rest)) :
    n < 10 ^ 9 := by
  unfold fraction? at h
  split at h
  · next cs =>
    obtain ⟨⟨m, rest'⟩, hm, e⟩ := Option.map_eq_some_iff.mp h
    cases e
    obtain ⟨hle, hlt⟩ := number?_some hm
    calc m * 10 ^ (9 - (cs.length - rest'.length))
        < 10 ^ (cs.length - rest'.length) * 10 ^ (9 - (cs.length - rest'.length)) :=
          Nat.mul_lt_mul_of_pos_right hlt (Nat.pow_pos (by decide))
      _ = 10 ^ 9 := by rw [← Nat.pow_add, Nat.add_sub_cancel' hle]
  · cases h; decide

theorem clock_lt {hours : Nat} {m m' : Char}
    (hm : (m.isDigit && m'.isDigit && decide (m.toNat < 54)) = true) (hh : hours < 24) :
    hours * 60 + ((m.toNat - 48) * 10 + (m'.toNat - 48)) < 1440 := by
  simp only [Bool.and_eq_true, decide_eq_true_eq] at hm
  have := (toNat_of_isDigit hm.1.2).2
  omega

/-- A local time is less than a day away. -/
theorem offset?_some {cs rest : List Char} {offset : Int}
    (h : offset? cs = some (offset, rest)) : -1440 < offset ∧ offset < 1440 := by
  unfold offset? at h
  simp only at h
  repeat' split at h
  all_goals first | cases h; done | skip
  -- `UTC` and the two letters; then the three signs
  case isTrue | h_1 | h_2 => cases h; decide
  all_goals
    rename_i hm hh
    have := clock_lt hm hh
    cases h
    omega

theorem valid_of_parse? {s : String} {t : Instant} (h : parse? s = some t) : t.Valid := by
  unfold parse? at h
  obtain ⟨⟨year, _⟩, -, h⟩ := Option.bind_eq_some_iff.mp h
  obtain ⟨_, -, h⟩ := Option.bind_eq_some_iff.mp h
  obtain ⟨⟨month, _⟩, -, h⟩ := Option.bind_eq_some_iff.mp h
  obtain ⟨_, -, h⟩ := Option.bind_eq_some_iff.mp h
  obtain ⟨⟨dayOfMonth, _⟩, -, h⟩ := Option.bind_eq_some_iff.mp h
  dsimp only at h
  split at h
  case h_4 => cases h
  -- whichever mark stands between the day and the clock
  all_goals
    obtain ⟨_, -, h⟩ := Option.bind_eq_some_iff.mp h
    obtain ⟨⟨hour, _⟩, -, h⟩ := Option.bind_eq_some_iff.mp h
    obtain ⟨_, -, h⟩ := Option.bind_eq_some_iff.mp h
    obtain ⟨⟨minute, _⟩, -, h⟩ := Option.bind_eq_some_iff.mp h
    obtain ⟨_, -, h⟩ := Option.bind_eq_some_iff.mp h
    obtain ⟨⟨second, _⟩, -, h⟩ := Option.bind_eq_some_iff.mp h
    obtain ⟨⟨nanos, _⟩, hnanos, h⟩ := Option.bind_eq_some_iff.mp h
    obtain ⟨⟨offset, _⟩, hoffset, h⟩ := Option.bind_eq_some_iff.mp h
    obtain ⟨bounds, h⟩ := Option.ite_none_right_eq_some.mp h
    simp only [Bool.and_eq_true, decide_eq_true_eq] at bounds
    obtain ⟨⟨⟨-, hhour⟩, hminute⟩, hsecond⟩ := bounds
    obtain ⟨day, hday, hlocal⟩ := Option.bind_eq_some_iff.mp h
    exact valid_of_local (day_of_parts hday) (by omega) (offset?_some hoffset) hsecond
      (fraction?_some hnanos) hlocal

end Instant

end ScriptHost
