import ScriptHost.Proofs.Decimal.Shortest
import ScriptHost.Proofs.Text.Digits
import ScriptHost.Proofs.Text.Utf8
import ScriptHost.Json.Lexer

/-!
# Literals that read back

What is written for a whole number or a finite double is one number for the
lexer (`Numeral`), and its value is the number it was written for.
-/

namespace ScriptHost.Json

open Text (asciiBytes isDigit_toDigits isDigit_zeros toDigits_cons)

/-! ## Digits -/

theorem toNat_lt_of_isDigit {c : Char} (h : c.isDigit = true) : c.toNat < 128 :=
  Nat.lt_of_le_of_lt (Text.toNat_of_isDigit h).2 (by decide)

theorem digitsValue_eq (cs : List Char) : Number.digitsValue cs = Nat.ofDigitChars 10 cs 0 :=
  Text.foldl_digits cs

@[simp] theorem digitsValue_toDigits (n : Nat) : Number.digitsValue (Nat.toDigits 10 n) = n := by
  rw [digitsValue_eq, Nat.ofDigitChars_ten_toDigits]

theorem digitsValue_append (a b : List Char) : Number.digitsValue (a ++ b) =
    10 ^ b.length * Number.digitsValue a + Number.digitsValue b := by
  simp only [digitsValue_eq, Text.ofDigitChars_append_zero]

@[simp] theorem digitsValue_zeros (n : Nat) : Number.digitsValue (List.replicate n '0') = 0 := by
  rw [digitsValue_eq, Nat.ofDigitChars_replicate_zero, Nat.mul_zero]

/-! ## One number for the lexer -/

namespace NumberPlace

/-- The place after more bytes, if the number goes on with all of them. -/
def scan (p : NumberPlace) (bytes : Bytes) : Option NumberPlace :=
  bytes.foldlM (fun p b => p.next b) p

@[simp] theorem scan_nil (p : NumberPlace) : p.scan [] = some p := rfl

theorem scan_cons (p : NumberPlace) (b : UInt8) (bytes : Bytes) :
    p.scan (b :: bytes) = (p.next b).bind (scan · bytes) := rfl

theorem scan_append (p : NumberPlace) (a b : Bytes) :
    p.scan (a ++ b) = (p.scan a).bind (scan · b) := by
  unfold scan; rw [List.foldlM_append]; rfl

theorem isDigit_ofChar {c : Char} (h : c.isDigit = true) :
    isDigit (UInt8.ofNat c.toNat) = true := by
  have := Text.toNat_of_isDigit h
  simp only [isDigit, Bool.and_eq_true, decide_eq_true_eq, UInt8.le_iff_toNat_le,
    UInt8.toNat_ofNat']
  rw [Nat.mod_eq_of_lt (by omega)]
  exact this

/-- Places that a digit leaves as they are. -/
theorem scan_digits {p : NumberPlace} (hp : ∀ b, isDigit b = true → p.next b = some p)
    {cs : List Char} (h : ∀ c ∈ cs, c.isDigit = true) : p.scan (asciiBytes cs) = some p := by
  induction cs with
  | nil => rfl
  | cons c cs ih =>
    change p.scan (UInt8.ofNat c.toNat :: asciiBytes cs) = _
    rw [scan_cons, hp _ (isDigit_ofChar (h c List.mem_cons_self))]
    exact ih fun c hc => h c (List.mem_cons_of_mem _ hc)

/-- Digits where at least one has to be. -/
theorem scan_digits_of_ne_nil {p q : NumberPlace}
    (hp : ∀ b, isDigit b = true → p.next b = some q)
    (hq : ∀ b, isDigit b = true → q.next b = some q) {cs : List Char} (hcs : cs ≠ [])
    (h : ∀ c ∈ cs, c.isDigit = true) : p.scan (asciiBytes cs) = some q := by
  cases cs with
  | nil => exact absurd rfl hcs
  | cons c cs =>
    change p.scan (UInt8.ofNat c.toNat :: asciiBytes cs) = _
    rw [scan_cons, hp _ (isDigit_ofChar (h c List.mem_cons_self))]
    exact scan_digits hq fun c hc => h c (List.mem_cons_of_mem _ hc)

theorem scan_whole {c : Char} {cs : List Char} (hc : c ≠ '0')
    (h : ∀ d ∈ c :: cs, d.isDigit = true) :
    scan .sign (asciiBytes (c :: cs)) = some .digits := by
  have hd := isDigit_ofChar (h c List.mem_cons_self)
  have h0 : (UInt8.ofNat c.toNat == 48) = false := by
    rw [beq_eq_false_iff_ne, ne_eq, ← UInt8.toNat_inj, UInt8.toNat_ofNat']
    have := toNat_lt_of_isDigit (h c List.mem_cons_self)
    rw [Nat.mod_eq_of_lt (by omega)]
    exact fun e => hc (Char.toNat_inj.mp e)
  change scan .sign (UInt8.ofNat c.toNat :: asciiBytes cs) = _
  rw [scan_cons]
  simp only [next, h0, hd, if_true, Bool.false_eq_true, if_false, Option.bind_some]
  exact scan_digits (fun b hb => by simp [next, hb]) fun c hc => h c (List.mem_cons_of_mem _ hc)

theorem scan_fraction {cs : List Char} (hcs : cs ≠ []) (h : ∀ c ∈ cs, c.isDigit = true) :
    scan .point (asciiBytes cs) = some .fraction :=
  scan_digits_of_ne_nil (fun b hb => by simp [next, hb]) (fun b hb => by simp [next, hb]) hcs h

theorem scan_exponent {cs : List Char} (hcs : cs ≠ []) (h : ∀ c ∈ cs, c.isDigit = true) :
    scan .exponentSign (asciiBytes cs) = some .exponentDigits :=
  scan_digits_of_ne_nil (fun b hb => by simp [next, hb]) (fun b hb => by simp [next, hb]) hcs h

end NumberPlace

/-- The characters make one number: the lexer may stop after the last one. -/
structure Numeral (cs : List Char) : Prop where
  ascii : ∀ c ∈ cs, c.toNat < 128
  scan : ∃ body place, (cs = body ∨ cs = '-' :: body) ∧
    NumberPlace.scan .sign (asciiBytes body) = some place ∧ place.complete = true

/-- The parts of an unsigned literal: digits, maybe a point and more digits, maybe an exponent. -/
structure Literal where
  whole : List Char
  fraction : Option (List Char)
  exponent : Option (Bool × List Char)

namespace Literal

open Number

def exponentChars : Option (Bool × List Char) → List Char
  | none => []
  | some (negative, digits) => 'e' :: (if negative then '-' else '+') :: digits

def fractionChars : Option (List Char) → List Char
  | none => []
  | some digits => '.' :: digits

def chars (l : Literal) : List Char :=
  l.whole ++ (fractionChars l.fraction ++ exponentChars l.exponent)

/-- Every part that is there has digits, and there is more than a whole number. -/
structure Sound (l : Literal) : Prop where
  whole : ∀ c ∈ l.whole, c.isDigit = true
  leading : l.whole = ['0'] ∨ ∃ c cs, l.whole = c :: cs ∧ c ≠ '0'
  fraction : ∀ digits, l.fraction = some digits → digits ≠ [] ∧ ∀ c ∈ digits, c.isDigit = true
  exponent : ∀ sign digits, l.exponent = some (sign, digits) →
    digits ≠ [] ∧ ∀ c ∈ digits, c.isDigit = true
  float : l.fraction ≠ none ∨ l.exponent ≠ none

/-- The digits as one number. -/
def mantissa (l : Literal) : Nat := digitsValue (l.whole ++ l.fraction.getD [])

/-- The power of ten of the last digit. -/
def scale (l : Literal) : Int :=
  (match l.exponent with
    | some (true, digits) => -(digitsValue digits : Int)
    | some (false, digits) => digitsValue digits
    | none => 0) - (l.fraction.getD []).length

variable {l : Literal}

theorem Sound.ascii (h : l.Sound) : ∀ c ∈ l.chars, c.toNat < 128 := by
  intro c hc
  rcases List.mem_append.mp hc with hc | hc
  · exact toNat_lt_of_isDigit (h.whole c hc)
  rcases List.mem_append.mp hc with hc | hc
  · cases hf : l.fraction with
    | none => rw [hf] at hc; cases hc
    | some digits =>
      rw [hf] at hc
      rcases List.mem_cons.mp hc with rfl | hc
      · decide
      · exact toNat_lt_of_isDigit ((h.fraction _ hf).2 c hc)
  · cases he : l.exponent with
    | none => rw [he] at hc; cases hc
    | some e =>
      rw [he] at hc
      rcases List.mem_cons.mp hc with rfl | hc
      · decide
      rcases List.mem_cons.mp hc with rfl | hc
      · split <;> decide
      · exact toNat_lt_of_isDigit ((h.exponent e.1 e.2 he).2 c hc)

/-- The lexer reads the literal to its end, part by part. -/
theorem Sound.scan (h : l.Sound) :
    ∃ place, NumberPlace.scan .sign (asciiBytes l.chars) = some place ∧ place.complete = true := by
  unfold chars
  rw [Text.asciiBytes_append, Text.asciiBytes_append, NumberPlace.scan_append]
  obtain ⟨p, hp, whole⟩ : ∃ p, (p = .zero ∨ p = .digits) ∧
      NumberPlace.scan .sign (asciiBytes l.whole) = some p := by
    rcases h.leading with e | ⟨c, cs, e, hc⟩
    · exact ⟨.zero, .inl rfl, by rw [e]; rfl⟩
    · exact ⟨.digits, .inr rfl, by
        rw [e]; exact NumberPlace.scan_whole hc (e ▸ h.whole)⟩
  rw [whole, Option.bind_some, NumberPlace.scan_append]
  obtain ⟨q, hq, fraction⟩ : ∃ q, (q = .zero ∨ q = .digits ∨ q = .fraction) ∧
      p.scan (asciiBytes (fractionChars l.fraction)) = some q := by
    cases hf : l.fraction with
    | none => exact ⟨p, hp.elim .inl fun h => .inr (.inl h), rfl⟩
    | some digits =>
      obtain ⟨hne, hd⟩ := h.fraction _ hf
      refine ⟨.fraction, .inr (.inr rfl), ?_⟩
      change p.scan (46 :: asciiBytes digits) = _
      rw [NumberPlace.scan_cons, show p.next 46 = some .point by rcases hp with rfl | rfl <;> rfl]
      exact NumberPlace.scan_fraction hne hd
  rw [fraction, Option.bind_some]
  cases he : l.exponent with
  | none => exact ⟨q, rfl, by rcases hq with rfl | rfl | rfl <;> rfl⟩
  | some e =>
    obtain ⟨hne, hd⟩ := h.exponent e.1 e.2 he
    refine ⟨.exponentDigits, ?_, rfl⟩
    have mark : q.next 101 = some .exponent := by rcases hq with rfl | rfl | rfl <;> rfl
    change q.scan (101 :: UInt8.ofNat (if e.1 then '-' else '+').toNat :: asciiBytes e.2) = _
    rw [NumberPlace.scan_cons, mark, Option.bind_some, NumberPlace.scan_cons,
      show NumberPlace.next (UInt8.ofNat (if e.1 then '-' else '+').toNat) .exponent =
        some .exponentSign by split <;> rfl]
    exact NumberPlace.scan_exponent hne hd

theorem takeWhile_exponentChars (e : Option (Bool × List Char)) (p : Char → Bool)
    (hp : p 'e' = false) :
    (exponentChars e).takeWhile p = [] ∧ (exponentChars e).dropWhile p = exponentChars e := by
  cases e <;> simp [exponentChars, hp]

theorem takeWhile_rest (f : Option (List Char)) (e : Option (Bool × List Char)) :
    (fractionChars f ++ exponentChars e).takeWhile Char.isDigit = [] ∧
      (fractionChars f ++ exponentChars e).dropWhile Char.isDigit =
        fractionChars f ++ exponentChars e := by
  cases f with
  | none => exact takeWhile_exponentChars e _ rfl
  | some digits => exact ⟨rfl, rfl⟩

theorem Sound.fractionDigits (h : l.Sound) :
    fractionDigits (fractionChars l.fraction ++ exponentChars l.exponent) =
      l.fraction.getD [] := by
  cases hf : l.fraction with
  | none => cases l.exponent <;> rfl
  | some digits =>
    change (digits ++ exponentChars l.exponent).takeWhile Char.isDigit = digits
    rw [List.takeWhile_append_of_pos (h.fraction _ hf).2,
      (takeWhile_exponentChars l.exponent _ rfl).1, List.append_nil]

theorem Sound.exponentPart (h : l.Sound) :
    exponentPart (fractionChars l.fraction ++ exponentChars l.exponent) =
      l.exponent.map fun e => (if e.1 then '-' else '+') :: e.2 := by
  have skipped : ∀ c ∈ fractionChars l.fraction, (c == '.' || c.isDigit) = true := by
    intro c hc
    cases hf : l.fraction with
    | none => rw [hf] at hc; cases hc
    | some digits =>
      rw [hf] at hc
      rcases List.mem_cons.mp hc with rfl | hc
      · rfl
      · rw [(h.fraction _ hf).2 c hc, Bool.or_true]
  unfold Number.exponentPart
  rw [List.dropWhile_append_of_pos skipped, (takeWhile_exponentChars l.exponent _ rfl).2]
  cases l.exponent <;> rfl

/-- A literal with a point or an exponent is read as a decimal. -/
theorem Sound.ofUnsigned (h : l.Sound) (negative : Bool) :
    ofUnsigned negative l.chars =
      (Binary64.ofDecimal negative l.mantissa l.scale).map .float := by
  have ⟨taken, left⟩ := takeWhile_rest l.fraction l.exponent
  have nonempty : (fractionChars l.fraction ++ exponentChars l.exponent).isEmpty = false := by
    rcases h.float with hf | he
    · cases e : l.fraction with
      | none => exact absurd e hf
      | some digits => rfl
    · cases e : l.exponent with
      | none => exact absurd e he
      | some digits => cases l.fraction <;> rfl
  unfold Number.ofUnsigned chars
  rw [List.takeWhile_append_of_pos h.whole, List.dropWhile_append_of_pos h.whole, taken, left,
    List.append_nil]
  simp only [nonempty, Bool.false_and, Bool.false_eq_true, if_false, h.fractionDigits,
    h.exponentPart]
  congr 2
  unfold scale
  cases l.exponent with
  | none => rfl
  | some e => obtain ⟨negative, digits⟩ := e; cases negative <;> rfl

end Literal

/-! ## Doubles -/

namespace Number

/-- A positive decimal, positional or with an exponent. -/
def literal (d : Decimal) : Literal :=
  let digits := Nat.toDigits 10 d.digits
  let point : Int := digits.length + d.exponent
  if 0 ≤ d.exponent ∧ point ≤ 16 then
    ⟨digits ++ List.replicate d.exponent.toNat '0', some ['0'], none⟩
  else if 0 < point ∧ point ≤ 16 then
    ⟨digits.take point.toNat, some (digits.drop point.toNat), none⟩
  else if -5 < point ∧ point ≤ 0 then
    ⟨['0'], some (List.replicate point.natAbs '0' ++ digits), none⟩
  else
    ⟨digits.take 1, if digits.length = 1 then none else some (digits.drop 1),
      some (point - 1 < 0, Nat.toDigits 10 (point - 1).natAbs)⟩

theorem floatLiteral_eq (x : Binary64) : floatLiteral x =
    (if x.negative then "-" else "") ++
      (if x.exponentField = 0 ∧ x.fractionField = 0 then "0.0"
        else String.ofList (literal x.shortest).chars) := by
  unfold floatLiteral literal
  simp only
  split
  · rfl
  congr 2
  rw [Nat.toString_eq_repr, Nat.toList_repr]
  split
  · simp [Literal.chars, Literal.fractionChars, Literal.exponentChars]
  split
  · simp [Literal.chars, Literal.fractionChars, Literal.exponentChars]
  split
  · simp [Literal.chars, Literal.fractionChars, Literal.exponentChars]
  · rcases hd : Nat.toDigits 10 x.shortest.digits with - | ⟨d, - | ⟨d', more⟩⟩
    · exact absurd hd Nat.toDigits_ne_nil
    all_goals simp [Literal.chars, Literal.fractionChars, Literal.exponentChars]

theorem literal_sound {d : Decimal} (h : 0 < d.digits) : (literal d).Sound := by
  obtain ⟨c, cs, hcs, hc⟩ := toDigits_cons h
  have hd : ∀ c ∈ Nat.toDigits 10 d.digits, c.isDigit = true := isDigit_toDigits
  have len : 0 < (Nat.toDigits 10 d.digits).length := Nat.length_toDigits_pos
  have taken : ∀ n, 0 < n → ∃ cs', (Nat.toDigits 10 d.digits).take n = c :: cs' := by
    rintro (- | n) hn
    · omega
    · exact ⟨cs.take n, by rw [hcs, List.take_succ_cons]⟩
  unfold literal
  simp only
  split
  · refine ⟨?_, .inr ⟨c, _, by rw [hcs]; rfl, hc⟩, ?_, nofun, .inl nofun⟩
    · rintro c hc
      exact (List.mem_append.mp hc).elim (hd c) (isDigit_zeros c)
    · rintro digits ⟨⟩
      exact ⟨nofun, by simp⟩
  split
  · refine ⟨fun c hc => hd c (List.mem_of_mem_take hc), .inr ?_, ?_, nofun, .inl nofun⟩
    · obtain ⟨cs', e⟩ := taken ((Nat.toDigits 10 d.digits).length + d.exponent).toNat (by omega)
      exact ⟨c, cs', e, hc⟩
    · rintro digits ⟨⟩
      refine ⟨?_, fun c hc => hd c (List.mem_of_mem_drop hc)⟩
      rw [ne_eq, List.drop_eq_nil_iff]
      omega
  split
  · refine ⟨by simp, .inl rfl, ?_, nofun, .inl nofun⟩
    rintro digits ⟨⟩
    refine ⟨by simp, fun c hc => (List.mem_append.mp hc).elim (isDigit_zeros c) (hd c)⟩
  · refine ⟨fun c hc => hd c (List.mem_of_mem_take hc), .inr ?_, ?_, ?_, .inr nofun⟩
    · obtain ⟨cs', e⟩ := taken 1 (by decide)
      exact ⟨c, cs', e, hc⟩
    · intro digits hdigits
      split at hdigits
      · cases hdigits
      · cases hdigits
        refine ⟨?_, fun c hc => hd c (List.mem_of_mem_drop hc)⟩
        rw [ne_eq, List.drop_eq_nil_iff]
        omega
    · rintro negative digits ⟨⟩
      exact ⟨Nat.toDigits_ne_nil, isDigit_toDigits⟩

/-- The literal spells the digits at their exponent; a whole number has a zero more. -/
theorem literal_parts (d : Decimal) :
    (literal d).mantissa = d.digits ∧ (literal d).scale = d.exponent ∨
      0 ≤ d.exponent ∧ (literal d).mantissa = d.digits * 10 ^ (d.exponent.toNat + 1) ∧
        (literal d).scale = -1 := by
  have len : 0 < (Nat.toDigits 10 d.digits).length := Nat.length_toDigits_pos
  unfold literal
  simp only
  split
  · next h =>
    refine .inr ⟨h.1, ?_, rfl⟩
    unfold Literal.mantissa
    simp only [Option.getD_some, digitsValue_append, digitsValue_toDigits, digitsValue_zeros]
    rw [show digitsValue ['0'] = 0 from rfl, List.length_replicate, List.length_singleton]
    ring
  split
  · refine .inl ⟨?_, ?_⟩
    · unfold Literal.mantissa
      simp only [Option.getD_some, List.take_append_drop, digitsValue_toDigits]
    · unfold Literal.scale
      simp only [Option.getD_some, List.length_drop]
      omega
  split
  · refine .inl ⟨?_, ?_⟩
    · unfold Literal.mantissa
      simp only [Option.getD_some, digitsValue_append, digitsValue_toDigits, digitsValue_zeros]
      rw [show digitsValue ['0'] = 0 from rfl]
      ring
    · unfold Literal.scale
      simp only [Option.getD_some, List.length_append, List.length_replicate]
      omega
  · have digits : (Nat.toDigits 10 d.digits).take 1 ++
        (if (Nat.toDigits 10 d.digits).length = 1 then none
          else some ((Nat.toDigits 10 d.digits).drop 1)).getD [] = Nat.toDigits 10 d.digits := by
      split
      · next h => simpa using List.take_of_length_le (by omega)
      · exact List.take_append_drop 1 _
    have more : ((if (Nat.toDigits 10 d.digits).length = 1 then none
        else some ((Nat.toDigits 10 d.digits).drop 1)).getD []).length =
        (Nat.toDigits 10 d.digits).length - 1 := by
      split
      · next h => simp [h]
      · exact List.length_drop
    refine .inl ⟨?_, ?_⟩
    · unfold Literal.mantissa
      simp only [digits, digitsValue_toDigits]
    · unfold Literal.scale
      simp only [more]
      by_cases hneg : (Nat.toDigits 10 d.digits).length + d.exponent - 1 < 0
      · simp only [hneg, decide_true, digitsValue_toDigits]
        omega
      · simp only [hneg, decide_false, digitsValue_toDigits]
        omega

theorem literal_value {d : Decimal} (h : 0 < d.digits) (least : -341 ≤ d.exponent) :
    (⟨(literal d).mantissa, (literal d).scale⟩ : Decimal).value = d.value ∧
      0 < (literal d).mantissa ∧ -341 ≤ (literal d).scale := by
  rcases literal_parts d with ⟨hm, hs⟩ | ⟨h0, hm, hs⟩ <;> rw [hm, hs]
  · exact ⟨rfl, h, least⟩
  · refine ⟨?_, Nat.mul_pos h (Nat.pow_pos (by decide)), by decide⟩
    obtain ⟨e, he⟩ := Int.eq_ofNat_of_zero_le h0
    unfold Decimal.value
    rw [he]
    push_cast
    rw [Int.toNat_natCast, zpow_natCast, zpow_neg, zpow_one, pow_succ]
    field_simp

/-- A finite double is written as a literal that is read as the double, by any reader that reads
back what is written. -/
theorem floatLiteral_spec {read : Bool → Nat → Int → Option Binary64}
    (back : Binary64.ReadsBack read) {x : Binary64} (fin : x.isFinite = true) :
    ∃ l : Literal, l.Sound ∧
      (floatLiteral x).toList = (if x.negative then ['-'] else []) ++ l.chars ∧
      read x.negative l.mantissa l.scale = some x := by
  rw [floatLiteral_eq]
  by_cases h0 : x.exponentField = 0 ∧ x.fractionField = 0
  · have hx : Binary64.zero x.negative = x := by
      have := x.ofFields_fields
      rwa [h0.1, h0.2] at this
    refine ⟨⟨['0'], some ['0'], none⟩, ?_, ?_, (back.zero _ _).trans (congrArg some hx)⟩
    · exact ⟨by simp, .inl rfl, by rintro digits ⟨⟩; exact ⟨nofun, by simp⟩, nofun, .inl nofun⟩
    · rw [if_pos h0]; split <;> rfl
  · have hs : 0 < x.significand := by
      unfold Binary64.significand
      split
      · omega
      · exact Nat.add_pos_left (Nat.two_pow_pos 52) _
    obtain ⟨-, hd, least⟩ := Binary64.shortest_spec fin hs
    obtain ⟨hv, hm, hl⟩ := literal_value hd least
    refine ⟨literal x.shortest, literal_sound hd, ?_, ?_⟩
    · rw [if_neg h0]; split <;> simp [String.toList_append]
    · exact back.shortest x fin hs ⟨_, _⟩ hv hm hl

end Number

theorem Literal.Sound.chars_ne_sign {l : Literal} (h : l.Sound) (rest : List Char) :
    l.chars ≠ '-' :: rest := by
  unfold Literal.chars
  rcases h.leading with e | ⟨c, cs, e, -⟩
  · rw [e]; rintro ⟨⟩
  · have := h.whole c (e ▸ List.mem_cons_self)
    rw [e]
    rintro ⟨⟩
    exact absurd this (by decide)

theorem Number.ofLiteral?_unsigned {s : String} (h : ∀ rest, s.toList ≠ '-' :: rest) :
    ofLiteral? s = ofUnsigned false s.toList := by
  unfold ofLiteral?
  split
  · next rest e => exact absurd e (h rest)
  · rfl

theorem Number.ofLiteral?_signed {s : String} {rest : List Char} (h : s.toList = '-' :: rest) :
    ofLiteral? s = ofUnsigned true rest := by
  unfold ofLiteral?
  simp only [h]

theorem numeral_floatLiteral {x : Binary64} (fin : x.isFinite = true) :
    Numeral (Number.floatLiteral x).toList := by
  obtain ⟨l, sound, text, -⟩ := Number.floatLiteral_spec Binary64.readsBack_ofDecimal fin
  obtain ⟨place, scan, complete⟩ := sound.scan
  rw [text]
  split
  · refine ⟨?_, l.chars, place, .inr rfl, scan, complete⟩
    rintro c hc
    rcases List.mem_cons.mp hc with rfl | hc
    · decide
    · exact sound.ascii c hc
  · exact ⟨sound.ascii, l.chars, place, .inl rfl, scan, complete⟩

/-- A finite double reads back. -/
theorem ofLiteral?_floatLiteral {x : Binary64} (fin : x.isFinite = true) :
    Number.ofLiteral? (Number.floatLiteral x) = some (.float x) := by
  obtain ⟨l, sound, text, value⟩ := Number.floatLiteral_spec Binary64.readsBack_ofDecimal fin
  by_cases hneg : x.negative = true
  · rw [hneg, if_pos rfl, List.singleton_append] at text
    rw [Number.ofLiteral?_signed text, sound.ofUnsigned, ← hneg, value]
    rfl
  · rw [if_neg hneg] at text
    rw [Number.ofLiteral?_unsigned (by rw [text]; exact sound.chars_ne_sign), text,
      List.nil_append, sound.ofUnsigned, ← Bool.eq_false_iff.mpr hneg, value]
    rfl

/-! ## Whole numbers -/

theorem toList_toString (n : Int) : (toString n).toList =
    (if n < 0 then ['-'] else []) ++ Nat.toDigits 10 n.natAbs := by
  cases n with
  | ofNat n =>
    rw [if_neg (by simp)]
    exact Nat.toList_repr
  | negSucc n =>
    rw [if_pos (by simp [Int.negSucc_lt_zero])]
    change ("-" ++ (n + 1).repr).toList = _
    rw [String.toList_append, Nat.toList_repr]
    rfl

theorem ofUnsigned_toDigits (negative : Bool) {n : Nat}
    (h : if negative then 0 < n ∧ n ≤ 2 ^ 63 else n < 2 ^ 64) :
    Number.ofUnsigned negative (Nat.toDigits 10 n) =
      some (.whole (if negative then -(n : Int) else n)) := by
  have taken : (Nat.toDigits 10 n).takeWhile Char.isDigit = Nat.toDigits 10 n :=
    List.takeWhile_eq_self_iff.mpr isDigit_toDigits
  have left : (Nat.toDigits 10 n).dropWhile Char.isDigit = [] :=
    List.dropWhile_eq_nil_iff.mpr isDigit_toDigits
  unfold Number.ofUnsigned
  simp only [taken, left, digitsValue_toDigits, List.isEmpty_nil, Bool.true_and]
  cases negative with
  | false =>
    simp only [Bool.false_eq_true, if_false] at h
    simp [UInt64.size, show n < 18446744073709551616 from h]
  | true =>
    simp only [if_true] at h
    have : (n != 0 && decide (n ≤ Nat.pow 2 63)) = true := by
      simp only [Bool.and_eq_true, bne_iff_ne, decide_eq_true_eq, Nat.pow_eq]
      omega
    simp [this]

theorem toDigits_ne_sign (n : Nat) (rest : List Char) : Nat.toDigits 10 n ≠ '-' :: rest := by
  intro e
  have := isDigit_toDigits (n := n) '-' (e ▸ List.mem_cons_self)
  exact absurd this (by decide)

/-- A whole number of 64 bits, signed or not, reads back. -/
theorem ofLiteral?_toString {n : Int} (low : -2 ^ 63 ≤ n) (high : n < 2 ^ 64) :
    Number.ofLiteral? (toString n) = some (.whole n) := by
  have text := toList_toString n
  by_cases hn : n < 0
  · rw [if_pos hn, List.singleton_append] at text
    rw [Number.ofLiteral?_signed text, ofUnsigned_toDigits true (by rw [if_pos rfl]; omega),
      if_pos rfl]
    congr 2
    omega
  · rw [if_neg hn, List.nil_append] at text
    rw [Number.ofLiteral?_unsigned (by rw [text]; exact toDigits_ne_sign _), text,
      ofUnsigned_toDigits false (by rw [if_neg Bool.false_ne_true]; omega),
      if_neg Bool.false_ne_true]
    congr 2
    omega

theorem scan_toDigits (n : Nat) : ∃ place,
    NumberPlace.scan .sign (asciiBytes (Nat.toDigits 10 n)) = some place ∧
      place.complete = true := by
  rcases Nat.eq_zero_or_pos n with rfl | hn
  · exact ⟨.zero, rfl, rfl⟩
  · obtain ⟨c, cs, e, hc⟩ := toDigits_cons hn
    exact ⟨.digits, e ▸ NumberPlace.scan_whole hc (e ▸ isDigit_toDigits), rfl⟩

theorem numeral_toString (n : Int) : Numeral (toString n).toList := by
  obtain ⟨place, scan, complete⟩ := scan_toDigits n.natAbs
  have ascii : ∀ c ∈ Nat.toDigits 10 n.natAbs, c.toNat < 128 :=
    fun c hc => toNat_lt_of_isDigit (isDigit_toDigits c hc)
  rw [toList_toString]
  split
  · refine ⟨?_, _, place, .inr rfl, scan, complete⟩
    rintro c hc
    rcases List.mem_cons.mp hc with rfl | hc
    · decide
    · exact ascii c hc
  · exact ⟨ascii, _, place, .inl rfl, scan, complete⟩

/-- No literal is read as an infinity. -/
theorem isFinite_of_ofLiteral? {s : String} {x : Binary64}
    (h : Number.ofLiteral? s = some (.float x)) : x.isFinite = true := by
  have unsigned : ∀ negative cs, Number.ofUnsigned negative cs = some (.float x) →
      x.isFinite = true := by
    intro negative cs h
    unfold Number.ofUnsigned at h
    simp only at h
    by_cases hw : ((cs.dropWhile Char.isDigit).isEmpty && (if negative then
        Number.digitsValue (cs.takeWhile Char.isDigit) != 0 &&
          Number.digitsValue (cs.takeWhile Char.isDigit) ≤ Nat.pow 2 63
        else Number.digitsValue (cs.takeWhile Char.isDigit) < UInt64.size)) = true
    · rw [if_pos hw] at h
      cases h
    · rw [if_neg hw] at h
      obtain ⟨y, hy, e⟩ := Option.map_eq_some_iff.mp h
      cases e
      exact Binary64.isFinite_of_ofDecimal hy
  unfold Number.ofLiteral? at h
  split at h <;> exact unsigned _ _ h

end ScriptHost.Json
