import ScriptHost.Proofs.Json.Number
import ScriptHost.Json.Layout
import Mathlib.Tactic.IntervalCases

/-!
# The layout is read back

The lexer returns the tokens that a text was laid out from (`lex_indented`),
provided no number follows a number: a blank, a bracket or a mark stands
between any others, and ends a number that is still open.
-/

namespace ScriptHost.Json

open Text (asciiBytes toBytes)

namespace Lexer

/-- All bytes have been read as these tokens (last first); only a number may still go on. -/
inductive Settled : Lexer → List Token → Prop where
  | between (ts : List Token) : Settled ⟨ts, .between⟩ ts
  | number (ts : List Token) (place : NumberPlace) (seen : Bytes) (h : place.complete = true) :
      Settled ⟨ts, .number place seen⟩ (.number (Text.ofAscii seen.reverse) :: ts)

theorem Settled.finish {l : Lexer} {ts : List Token} (h : l.Settled ts) :
    l.finish = ts.reverse := by
  cases h with
  | between => rfl
  | number _ place _ h => simp only [Lexer.finish, h, if_true, emit]

/-- A byte that no number goes on with. -/
def isMark (b : UInt8) : Bool :=
  !(NumberPlace.isDigit b || b == 46 || NumberPlace.isExponentMark b)

theorem Settled.step_mark {l : Lexer} {ts : List Token} (h : l.Settled ts) {b : UInt8}
    (hb : isMark b = true) : l.step b = Lexer.begin ⟨ts, .between⟩ b := by
  cases h with
  | between => rfl
  | number ts place seen h =>
    simp only [isMark, Bool.not_eq_true', Bool.or_eq_false_iff] at hb
    obtain ⟨⟨hdigit, hpoint⟩, hexp⟩ := hb
    have stuck : place.next b = none := by
      cases place <;> simp_all [NumberPlace.next, NumberPlace.complete]
    simp [step, inNumber, stuck, h, hdigit, emit]

/-- Only a number may go on. -/
theorem Settled.eq_between {l : Lexer} {t : Token} {ts : List Token} (h : l.Settled (t :: ts))
    (ht : ∀ s, t ≠ .number s) : l = ⟨t :: ts, .between⟩ := by
  cases h with
  | between => rfl
  | number => exact absurd rfl (ht _)

/-- More text. -/
def read (l : Lexer) (s : String) : Lexer := (toBytes s).foldl step l

theorem read_append (l : Lexer) (s t : String) : l.read (s ++ t) = (l.read s).read t := by
  simp [read, List.foldl_append]

theorem read_push (l : Lexer) (s : String) (c : Char) :
    l.read (s.push c) = (String.utf8EncodeChar c).foldl step (l.read s) := by
  simp [read, List.foldl_append]

/-! ## Blanks -/

theorem toBytes_pushn (s : String) (n : Nat) :
    toBytes (s.pushn ' ' n) = toBytes s ++ List.replicate n 32 := by
  rw [String.pushn_eq_repeat_push]
  induction n with
  | zero => simp [Nat.repeat]
  | succ n ih =>
    rw [Nat.repeat, Text.toBytes_push, ih, List.replicate_succ', List.append_assoc]
    rfl

theorem step_blanks (ts : List Token) (n : Nat) :
    (List.replicate n 32).foldl step ⟨ts, .between⟩ = ⟨ts, .between⟩ := by
  induction n with
  | zero => rfl
  | succ n ih => exact ih

/-- A new line ends a number and adds no token. -/
theorem Settled.newline {out : String} {ts : List Token} (h : (start.read out).Settled ts)
    (level : Nat) : start.read (Layout.newline out level) = ⟨ts, .between⟩ := by
  unfold Layout.newline
  rw [read, toBytes_pushn, Text.toBytes_push, List.foldl_append, List.foldl_append]
  change (List.replicate _ 32).foldl step (step (start.read out) 10) = _
  rw [h.step_mark rfl]
  exact step_blanks ts _

/-! ## Numbers -/

theorem step_number {place place' : NumberPlace} {bytes : Bytes}
    (h : place.scan bytes = some place') (ts : List Token) (seen : Bytes) :
    bytes.foldl step ⟨ts, .number place seen⟩ = ⟨ts, .number place' (bytes.reverse ++ seen)⟩ := by
  induction bytes generalizing place seen with
  | nil => cases h; rfl
  | cons b bytes ih =>
    rw [NumberPlace.scan_cons, Option.bind_eq_some_iff] at h
    obtain ⟨p, hp, hrest⟩ := h
    rw [List.foldl_cons]
    change bytes.foldl step (inNumber _ place seen b) = _
    simp only [inNumber, hp, enter]
    rw [ih hrest, List.reverse_cons, List.append_assoc]
    rfl

/-- The first digit. -/
theorem begin_digit {b : UInt8} {place : NumberPlace} (h : NumberPlace.next b .sign = some place)
    (ts : List Token) : Lexer.begin ⟨ts, .between⟩ b = ⟨ts, .number place [b]⟩ := by
  have range : 48 ≤ b.toNat ∧ b.toNat ≤ 57 := by
    unfold NumberPlace.next at h
    by_cases h0 : (b == 48) = true
    · rw [eq_of_beq h0]; decide
    · rw [if_neg h0] at h
      by_cases hd : NumberPlace.isDigit b = true
      · simpa [NumberPlace.isDigit, UInt8.le_iff_toNat_le] using hd
      · rw [if_neg hd] at h; cases h
  have other : ∀ n : UInt8, n.toNat < 48 ∨ 57 < n.toNat → (b == n) = false := by
    intro n hn
    rw [beq_eq_false_iff_ne]
    rintro rfl
    omega
  have o (n : UInt8) (hn : n.toNat < 48 ∨ 57 < n.toNat := by decide) := other n hn
  simp only [begin, isBlank, o 32, o 10, o 13, o 9, o 91, o 93, o 123, o 125, o 44, o 58, o 34,
    o 45, Bool.or_self, Bool.false_eq_true, if_false, enter]
  simp only [NumberPlace.next] at h
  split at h <;> simp_all

theorem read_number {s : String} (h : Numeral s.toList) (ts : List Token) :
    (read ⟨ts, .between⟩ s).Settled (.number s :: ts) := by
  have bytes : toBytes s = asciiBytes s.toList := by
    rw [← Text.toBytes_ascii h.ascii, String.ofList_toList]
  have back : Text.ofAscii (asciiBytes s.toList) = s := by
    rw [Text.ofAscii_asciiBytes h.ascii, String.ofList_toList]
  obtain ⟨body, place, text, scan, complete⟩ := h.scan
  suffices read ⟨ts, .between⟩ s = ⟨ts, .number place (asciiBytes s.toList).reverse⟩ by
    rw [this]
    have := Settled.number ts place (asciiBytes s.toList).reverse complete
    rwa [List.reverse_reverse, back] at this
  rw [read, bytes]
  rcases text with e | e
  · rw [e]
    cases hb : asciiBytes body with
    | nil => rw [hb] at scan; cases scan; cases complete
    | cons b rest =>
      rw [hb, NumberPlace.scan_cons, Option.bind_eq_some_iff] at scan
      obtain ⟨first, hfirst, scan⟩ := scan
      rw [List.foldl_cons]
      change rest.foldl step (Lexer.begin _ b) = _
      rw [begin_digit hfirst, step_number scan, List.reverse_cons]
  · rw [e]
    change (asciiBytes body).foldl step ⟨ts, .number .sign [45]⟩ = _
    rw [step_number scan, ← List.reverse_cons]
    rfl

/-! ## Quoted texts -/

/-- A quoted text so far, outside of an escape. -/
def within (ts : List Token) (seen : Bytes) : Lexer :=
  ⟨ts, .quoted ⟨seen, none, false, .none⟩⟩

theorem step_plain {b : UInt8} (h34 : b ≠ 34) (h92 : b ≠ 92) (h32 : 32 ≤ b.toNat)
    (ts : List Token) (seen : Bytes) : (within ts seen).step b = within ts (b :: seen) := by
  have hlt : ¬ b < 32 := by
    rw [UInt8.lt_iff_toNat_lt]
    exact Nat.not_lt.mpr h32
  simp [within, step, inQuoted, h34, h92, hlt, enter, Quoted.settle]

theorem step_plains {bytes : Bytes} (h : ∀ b ∈ bytes, 128 ≤ b.toNat) (ts : List Token)
    (seen : Bytes) : bytes.foldl step (within ts seen) = within ts (bytes.reverse ++ seen) := by
  induction bytes generalizing seen with
  | nil => rfl
  | cons b bytes ih =>
    have hb := h b List.mem_cons_self
    rw [List.foldl_cons, step_plain (by rintro rfl; revert hb; decide)
      (by rintro rfl; revert hb; decide) (by omega), ih fun b hb => h b (List.mem_cons_of_mem _ hb),
      List.reverse_cons, List.append_assoc]
    rfl

/-- Controls below the blank, each by its escape. -/
theorem step_control (n : Nat) (h : n < 32) (ts : List Token) (seen : Bytes) :
    ((quoteChar (Char.ofNat n)).flatMap String.utf8EncodeChar).foldl step (within ts seen) =
      within ts ((String.utf8EncodeChar (Char.ofNat n)).reverse ++ seen) := by
  interval_cases n <;> rfl

theorem step_quoteChar (c : Char) (ts : List Token) (seen : Bytes) :
    ((quoteChar c).flatMap String.utf8EncodeChar).foldl step (within ts seen) =
      within ts ((String.utf8EncodeChar c).reverse ++ seen) := by
  by_cases hcontrol : c.toNat < 32
  · have := step_control c.toNat hcontrol ts seen
    rwa [Char.ofNat_toNat] at this
  by_cases hquote : c = '"'
  · subst hquote; rfl
  by_cases hslash : c = '\\'
  · subst hslash; rfl
  have ne (n : Nat) (hn : n < 32) : c.toNat ≠ n := by omega
  have plain : quoteChar c = [c] := by
    have h1 : c ≠ '\n' := by rintro rfl; exact hcontrol (by decide)
    have h2 : c ≠ '\r' := by rintro rfl; exact hcontrol (by decide)
    have h3 : c ≠ '\t' := by rintro rfl; exact hcontrol (by decide)
    unfold quoteChar
    rw [if_neg hquote, if_neg hslash, if_neg h1, if_neg h2, if_neg h3, if_neg (ne 8 (by decide)),
      if_neg (ne 12 (by decide)), if_neg hcontrol]
  rw [plain, List.flatMap_singleton]
  by_cases hascii : c.toNat < 128
  · rw [Text.utf8EncodeChar_ascii hascii]
    have byte : (UInt8.ofNat c.toNat).toNat = c.toNat := by
      rw [UInt8.toNat_ofNat', Nat.mod_eq_of_lt (by omega)]
    refine step_plain ?_ ?_ (by rw [byte]; omega) ts seen <;> intro e <;>
      have := congrArg UInt8.toNat e <;> rw [byte] at this
    · exact hquote (Char.toNat_inj.mp this)
    · exact hslash (Char.toNat_inj.mp this)
  · exact step_plains (fun b hb => Text.le_of_mem_utf8EncodeChar (by omega) hb) ts seen

theorem step_quoteChars (cs : List Char) (ts : List Token) (seen : Bytes) :
    ((cs.flatMap quoteChar).flatMap String.utf8EncodeChar).foldl step (within ts seen) =
      within ts ((cs.flatMap String.utf8EncodeChar).reverse ++ seen) := by
  induction cs generalizing seen with
  | nil => rfl
  | cons c cs ih =>
    rw [List.flatMap_cons, List.flatMap_append, List.foldl_append, step_quoteChar, ih,
      List.flatMap_cons, List.reverse_append, List.append_assoc]

theorem toBytes_quote (s : String) : toBytes (quote s) =
    34 :: (s.toList.flatMap quoteChar).flatMap String.utf8EncodeChar ++ [34] := by
  have pushed : ∀ (cs : List Char) (out : String),
      (cs.foldl String.push out).toList = out.toList ++ cs := by
    intro cs
    induction cs with
    | nil => simp
    | cons c cs ih => intro out; simp [ih]
  have folded : ∀ (cs : List Char) (out : String),
      (cs.foldl (fun out c => (quoteChar c).foldl String.push out) out).toList =
        out.toList ++ cs.flatMap quoteChar := by
    intro cs
    induction cs with
    | nil => simp
    | cons c cs ih => intro out; simp [ih, pushed]
  unfold quote
  rw [String.foldl_eq_foldl_toList, Text.toBytes_push, Text.toBytes_eq, folded,
    List.flatMap_append]
  rfl

/-- A quoted text is read as one token. -/
theorem read_quote (s : String) (ts : List Token) :
    read ⟨ts, .between⟩ (quote s) = ⟨.text (some s) :: ts, .between⟩ := by
  rw [read, toBytes_quote, List.foldl_append, List.foldl_cons]
  change step ((_ : Bytes).foldl step (within ts [])) 34 = _
  rw [step_quoteChars, List.append_nil, ← Text.toBytes_eq]
  change (⟨Token.text (Quoted.content _) :: ts, .between⟩ : Lexer) = _
  simp only [Quoted.content, Quoted.settle, Option.isSome_none, Bool.or_self, Bool.false_eq_true,
    if_false, List.reverse_reverse, Text.ofBytes?_toBytes]

end Lexer

/-! ## Whole texts -/

namespace Token

def isNumber : Token → Bool
  | number _ => true
  | _ => false

/-- What a writer may emit: numbers are numbers and texts spell something. -/
def Sound : Token → Prop
  | number literal => Numeral literal.toList
  | text content => content.isSome
  | broken _ _ _ => False
  | _ => True

end Token

/-- A token that is no number and begins with a mark. -/
theorem Token.read_written {t : Token} (ht : t.Sound) (hn : t.isNumber = false) :
    (∃ b rest, toBytes t.written = b :: rest ∧ Lexer.isMark b = true) ∧
      ∀ ts, Lexer.read ⟨ts, .between⟩ t.written = ⟨t :: ts, .between⟩ := by
  cases t with
  | number => cases hn
  | broken => exact ht.elim
  | text content =>
    obtain ⟨s, rfl⟩ := Option.isSome_iff_exists.mp ht
    exact ⟨⟨34, _, Lexer.toBytes_quote s, rfl⟩, Lexer.read_quote s⟩
  | bool b => cases b <;> exact ⟨⟨_, _, rfl, rfl⟩, fun _ => rfl⟩
  | openArray | closeArray | openObject | closeObject | comma | colon | null =>
    exact ⟨⟨_, _, rfl, rfl⟩, fun _ => rfl⟩

namespace Lexer

theorem Settled.read_written {out : String} {ts : List Token} {t : Token}
    (h : (start.read out).Settled ts) (ht : t.Sound) (hn : t.isNumber = false) :
    start.read (out ++ t.written) = ⟨t :: ts, .between⟩ := by
  obtain ⟨⟨b, rest, bytes, mark⟩, spec⟩ := Token.read_written ht hn
  rw [read_append, ← spec ts]
  unfold read at h ⊢
  rw [bytes, List.foldl_cons, List.foldl_cons, h.step_mark mark]
  rfl

theorem Settled.read_number {out literal : String} {ts : List Token}
    (h : (start.read out).Settled ts) (ht : Numeral literal.toList)
    (apart : ∀ t ∈ ts.head?, t.isNumber = false) :
    (start.read (out ++ literal)).Settled (.number literal :: ts) := by
  have : start.read out = ⟨ts, .between⟩ := by
    cases ts with
    | nil => generalize start.read out = l at h; cases h; rfl
    | cons t ts =>
      exact h.eq_between fun s e => by simpa [e, Token.isNumber] using apart t rfl
  rw [read_append, this]
  exact Lexer.read_number ht ts

end Lexer

open Lexer in
/-- One more token, laid out and read. -/
theorem Layout.settled_add {l : Layout} {ts : List Token} {t : Token}
    (h : (start.read l.out).Settled ts) (ht : t.Sound)
    (apart : ∀ t' ∈ ts.head?, t'.isNumber = true → t.isNumber = false) :
    (start.read (l.add t).out).Settled (t :: ts) := by
  have between : ∀ (out : String), start.read out = ⟨ts, .between⟩ → (start.read out).Settled ts :=
    fun out e => e ▸ .between ts
  have lead : (start.read (if l.fresh then newline l.out l.level else l.out)).Settled ts := by
    split
    · exact between _ (h.newline l.level)
    · exact h
  have tail : (start.read (if l.fresh then l.out else newline l.out (l.level - 1))).Settled ts := by
    split
    · exact h
    · exact between _ (h.newline _)
  unfold add
  cases t with
  | number literal =>
    refine lead.read_number ht fun t' ht' => ?_
    cases hn : t'.isNumber with
    | false => rfl
    | true => cases apart t' ht' hn
  | broken => exact ht.elim
  | comma =>
    have written : (start.read (l.out ++ Token.comma.written)).Settled (.comma :: ts) :=
      h.read_written ht rfl ▸ .between _
    exact written.newline l.level ▸ .between _
  | colon =>
    have := h.read_written ht rfl
    change (start.read (l.out ++ ": ")).Settled _
    rw [show l.out ++ ": " = (l.out ++ Token.colon.written).push ' ' by
      rw [← String.append_singleton, String.append_assoc]; rfl, read_push, this]
    exact .between _
  | closeArray | closeObject => exact tail.read_written ht rfl ▸ .between _
  | openArray | openObject | null | bool | text => exact lead.read_written ht rfl ▸ .between _

/-- Tokens that may stand in one text. -/
structure Writable (ts : List Token) : Prop where
  sound : ∀ t ∈ ts, t.Sound
  apart : ts.IsChain fun t t' => t.isNumber = true → t'.isNumber = false

open Lexer in
/-- Reading follows the layout, token by token. -/
theorem settled_layout {ts done : List Token} {l : Layout} (h : (start.read l.out).Settled done)
    (sound : ∀ t ∈ ts, t.Sound)
    (apart : (done.head?.toList ++ ts).IsChain fun t t' => t.isNumber = true → t'.isNumber = false) :
    (start.read (ts.foldl Layout.add l).out).Settled (ts.reverse ++ done) := by
  induction ts generalizing done l with
  | nil => exact h
  | cons t ts ih =>
    rw [List.foldl_cons, List.reverse_cons, List.append_assoc, List.singleton_append]
    refine ih (Layout.settled_add h (sound t List.mem_cons_self) ?_)
      (fun t ht => sound t (List.mem_cons_of_mem _ ht)) ?_
    · intro t' ht'
      rw [Option.mem_def.mp ht'] at apart
      exact (List.isChain_cons_cons.mp apart).1
    · exact (List.isChain_append.mp apart).2.1

theorem lex_indented {ts : List Token} (h : Writable ts) :
    lex (toBytes (indented ts)) = ts := by
  have settled : (Lexer.start.read (ts.foldl Layout.add ⟨"", 0, false⟩).out).Settled
      (ts.reverse ++ []) := settled_layout (.between []) h.sound h.apart
  have := settled.finish
  rwa [List.append_nil, List.reverse_reverse] at this

end ScriptHost.Json
