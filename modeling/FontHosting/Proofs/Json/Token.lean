import FontHosting.Json.Reader
import FontHosting.Json.Writer
import Mathlib.Data.List.TakeWhile

/-!
# Numbers and strings are read back

A number is written without a mark at its end, so it is read back where no digit, point or
exponent follows (`readNumber_renderWhole`).  A string ends with its quote and is read back
wherever it stands (`readString_append`).
-/

namespace FontHosting.Json

/-! ## Whole numbers -/

/-- Whether a text starts with none of the characters that may continue a number. -/
def EndsNumber (rest : List Char) : Prop :=
  ∀ c, rest.head? = some c → c.isDigit = false ∧ c ≠ '.' ∧ c ≠ 'e' ∧ c ≠ 'E'

theorem isDigit_of_mem_toDigits {value : Nat} : ∀ c ∈ Nat.toDigits 10 value, c.isDigit = true :=
  fun _ hc => Nat.isDigit_of_mem_toDigits (by decide) (by decide) hc

theorem spanDigits_append {digits rest : List Char} (hdigits : ∀ c ∈ digits, c.isDigit = true)
    (hrest : EndsNumber rest) : Decimal.spanDigits (digits ++ rest) = (digits, rest) := by
  unfold Decimal.spanDigits
  rw [List.takeWhile_append_of_pos hdigits, List.dropWhile_append_of_pos hdigits]
  cases rest with
  | nil => simp
  | cons c rest => simp [(hrest c rfl).1]

/-- Digits only make a number larger. -/
theorem le_ofDigitChars (digits : List Char) (value : Nat) :
    value ≤ Nat.ofDigitChars 10 digits value := by
  induction digits generalizing value with
  | nil => exact Nat.le_refl value
  | cons c rest ih =>
      rw [Nat.ofDigitChars_cons]
      have hle := ih (10 * value + (c.toNat - '0'.toNat))
      omega

theorem takeSignificand_eq {digits : List Char} {value : Nat}
    (hfits : Nat.ofDigitChars 10 digits value < 0x10000000000000000) :
    takeSignificand value digits = (Nat.ofDigitChars 10 digits value, []) := by
  induction digits generalizing value with
  | nil => rfl
  | cons c rest ih =>
      rw [Nat.ofDigitChars_cons] at hfits ⊢
      have hle := le_ofDigitChars rest (10 * value + (c.toNat - '0'.toNat))
      rw [takeSignificand]
      exact (if_pos (Nat.lt_of_le_of_lt hle hfits)).trans (ih hfits)

private theorem digitChar_ne_zero : ∀ digit < 10, digit ≠ 0 → Nat.digitChar digit ≠ '0' := by
  decide

/-- Only zero is written with a zero in front. -/
theorem head?_toDigits {value : Nat} (hvalue : value ≠ 0) :
    (Nat.toDigits 10 value).head? ≠ some '0' := by
  induction value using Nat.strongRecOn with
  | ind value ih =>
      by_cases hlt : value < 10
      · rw [Nat.toDigits_of_lt_base hlt]
        exact fun heq => digitChar_ne_zero value hlt hvalue (Option.some_inj.mp heq)
      · obtain ⟨first, rest, hdigits⟩ :=
          List.exists_cons_of_ne_nil (Nat.toDigits_ne_nil (b := 10) (n := value / 10))
        have hhead := ih (value / 10) (by omega) (by omega)
        rw [hdigits] at hhead
        rw [Nat.toDigits_of_base_le (by decide) (by omega), hdigits]
        exact hhead

theorem readTail_toDigits {negative : Bool} {value : Nat} {rest : List Char}
    (hvalue : value < 0x8000000000000000) (hsign : negative = true → value ≠ 0)
    (hrest : EndsNumber rest) :
    readTail negative (Nat.toDigits 10 value) rest =
      some (.whole (if negative then -value else value), rest) := by
  have hsame : Nat.ofDigitChars 10 (Nat.toDigits 10 value) 0 = value :=
    Nat.ofDigitChars_ten_toDigits
  have htake : takeSignificand 0 (Nat.toDigits 10 value) = (value, []) := by
    rw [takeSignificand_eq (by omega), hsame]
  have hbound : (value : Int) ≤ 0x8000000000000000 := by omega
  unfold readTail
  rw [htake]
  rcases rest with _ | ⟨c, rest⟩
  · cases negative with
    | false => rfl
    | true => simp [hbound, hsign rfl]
  · obtain ⟨-, hpoint, he, hE⟩ := hrest c rfl
    cases negative with
    | false => simp [hpoint, he, hE]
    | true => simp [hpoint, he, hE, hbound, hsign rfl]

/-- A number behind its sign. -/
def readUnsigned (negative : Bool) (body : List Char) : Option (Number × List Char) :=
  match Decimal.spanDigits body with
  | ([], _) => none
  | ('0' :: _ :: _, _) => none
  | (whole, rest) => readTail negative whole rest

theorem readNumber_minus (body : List Char) : readNumber ('-' :: body) = readUnsigned true body :=
  rfl

theorem readNumber_of_ne {c : Char} (hc : c ≠ '-') (rest : List Char) :
    readNumber (c :: rest) = readUnsigned false (c :: rest) := by
  unfold readNumber
  split
  · rename_i heq
    split at heq
    · rename_i hminus
      exact (hc (List.cons.inj hminus).1).elim
    · cases heq
      rfl

theorem readUnsigned_toDigits {negative : Bool} {value : Nat} {rest : List Char}
    (hvalue : value < 0x8000000000000000) (hsign : negative = true → value ≠ 0)
    (hrest : EndsNumber rest) :
    readUnsigned negative (Nat.toDigits 10 value ++ rest) =
      some (.whole (if negative then -value else value), rest) := by
  unfold readUnsigned
  rw [spanDigits_append isDigit_of_mem_toDigits hrest]
  split
  · rename_i heq
    exact (Nat.toDigits_ne_nil (Prod.mk.inj heq).1).elim
  · rename_i second others _ heq
    have hdigits := (Prod.mk.inj heq).1
    by_cases hzero : value = 0
    · subst hzero
      cases hdigits
    · exact (head?_toDigits hzero (by rw [hdigits]; rfl)).elim
  · rename_i heq
    cases heq
    exact readTail_toDigits hvalue hsign hrest

/-- A character that a number may start with is no blank. -/
theorem isSpace_eq_false {c : Char} (hc : c = '-' ∨ c.isDigit = true) : isSpace c = false := by
  rcases hc with rfl | hdigit
  · decide
  · simp only [isSpace, Bool.or_eq_false_iff, beq_eq_false_iff_ne]
    refine ⟨⟨⟨?_, ?_⟩, ?_⟩, ?_⟩ <;> rintro rfl <;> cases hdigit

/-- A whole number starts with its sign or with a digit. -/
theorem exists_renderWhole_cons (value : Int) :
    ∃ c rest, renderWhole value = c :: rest ∧ (c = '-' ∨ c.isDigit = true) := by
  unfold renderWhole Decimal.signed
  split
  · exact ⟨'-', _, rfl, .inl rfl⟩
  · obtain ⟨c, digits, hdigits⟩ :=
      List.exists_cons_of_ne_nil (Nat.toDigits_ne_nil (b := 10) (n := value.natAbs))
    exact ⟨c, digits, hdigits,
      .inr (isDigit_of_mem_toDigits c (hdigits ▸ List.mem_cons_self))⟩

/-- **A whole number is read back.** -/
theorem readNumber_renderWhole {value : Int} {rest : List Char}
    (hvalue : value.natAbs < 0x8000000000000000) (hrest : EndsNumber rest) :
    readNumber (renderWhole value ++ rest) = some (.whole value, rest) := by
  unfold renderWhole Decimal.signed
  by_cases hnegative : value < 0
  · have hsame : -(value.natAbs : Int) = value := by omega
    rw [if_pos (by simpa using hnegative), List.cons_append, readNumber_minus,
      readUnsigned_toDigits hvalue (by omega) hrest, if_pos rfl, hsame]
  · have hsame : (value.natAbs : Int) = value := by omega
    obtain ⟨c, digits, hdigits⟩ :=
      List.exists_cons_of_ne_nil (Nat.toDigits_ne_nil (b := 10) (n := value.natAbs))
    have hdigit : c.isDigit = true := isDigit_of_mem_toDigits c (hdigits ▸ List.mem_cons_self)
    have hminus : c ≠ '-' := by
      rintro rfl
      cases hdigit
    rw [if_neg (by simpa using hnegative), hdigits, List.cons_append, readNumber_of_ne hminus,
      ← List.cons_append, ← hdigits,
      readUnsigned_toDigits hvalue (fun h => (Bool.false_ne_true h).elim) hrest,
      if_neg Bool.false_ne_true, hsame]

/-! ## Strings -/

private theorem value?_lowerDigit :
    ∀ value < 16, Text.Hex.value? (Text.Hex.lowerDigit value) = some value := by
  decide

/-- A character below the space is read from its four digits. -/
theorem readEscapedUnit_lowerDigits {c : Char} (hc : c.toNat < 0x20) (rest : List Char) :
    readEscapedUnit ('0' :: '0' :: Text.Hex.lowerDigit (c.toNat / 16) ::
      Text.Hex.lowerDigit (c.toNat % 16) :: rest) = some (c, rest) := by
  have hzero : Text.Hex.value? '0' = some 0 := by decide
  have hhigh := value?_lowerDigit (c.toNat / 16) (by omega)
  have hlow := value?_lowerDigit (c.toNat % 16) (by omega)
  have hunit : ((0 * 16 + 0) * 16 + c.toNat / 16) * 16 + c.toNat % 16 = c.toNat := by omega
  have hplain : ¬ (0xD800 ≤ c.toNat ∧ c.toNat < 0xDC00) := by omega
  have hplain' : ¬ (0xDC00 ≤ c.toNat ∧ c.toNat < 0xE000) := by omega
  simp only [readEscapedUnit, readUnit, hzero, hhigh, hlow, hunit, Option.bind_eq_bind,
    Option.bind_some, pure, hplain, hplain', if_false, Char.ofNat_toNat]

/-- **One character of a string is read back.** -/
theorem readCharacters_escapeChar (fuel : Nat) (done : List Char) (c : Char) (rest : List Char) :
    readCharacters (fuel + 1) done (escapeChar c ++ rest) =
      readCharacters fuel (c :: done) rest := by
  unfold escapeChar
  split
  · subst c; rfl
  split
  · subst c; rfl
  split
  · subst c; rfl
  split
  · subst c; rfl
  split
  · subst c; rfl
  split
  · subst c; rfl
  split
  · subst c; rfl
  split
  · rename_i hcontrol
    simp only [List.cons_append, List.nil_append, readCharacters, readEscape,
      readEscapedUnit_lowerDigits hcontrol, Option.bind_eq_bind, Option.bind_some]
  · rename_i hplain
    simp [readCharacters, hplain]

theorem readCharacters_append {text : List Char} {fuel : Nat} (hfuel : text.length < fuel)
    (done rest : List Char) :
    readCharacters fuel done (text.flatMap escapeChar ++ '"' :: rest) =
      some (done.reverse ++ text, rest) := by
  induction text generalizing fuel done with
  | nil =>
      obtain ⟨fuel, rfl⟩ := Nat.exists_eq_succ_of_ne_zero (Nat.ne_of_gt hfuel)
      simp [readCharacters]
  | cons c text ih =>
      obtain ⟨fuel, rfl⟩ := Nat.exists_eq_succ_of_ne_zero (Nat.ne_of_gt (Nat.zero_lt_of_lt hfuel))
      rw [List.flatMap_cons, List.append_assoc, readCharacters_escapeChar,
        ih (Nat.lt_of_succ_lt_succ hfuel), List.reverse_cons, List.append_assoc]
      rfl

theorem length_le_flatMap_escapeChar (text : List Char) :
    text.length ≤ (text.flatMap escapeChar).length := by
  induction text with
  | nil => exact Nat.le_refl 0
  | cons c text ih =>
      have hpositive : 0 < (escapeChar c).length := by
        unfold escapeChar
        split_ifs <;> simp
      rw [List.flatMap_cons, List.length_append, List.length_cons]
      omega

/-- **A string is read back**, and what follows it stays. -/
theorem readString_append (text : String) (rest : List Char) :
    readString (text.toList.flatMap escapeChar ++ '"' :: rest) = some (text, rest) := by
  have hlength := length_le_flatMap_escapeChar text.toList
  rw [readString, readCharacters_append (by rw [List.length_append]; omega)]
  simp

end FontHosting.Json
