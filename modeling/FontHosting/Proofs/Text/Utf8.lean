import FontHosting.Text.Utf8
import Mathlib.Data.Nat.Basic

/-!
# UTF-8 is read back

`decodeLossy_encode`: the decoder gives back every text that was encoded.  The
decoder keeps a range for the next byte, so the proof follows the four lengths of
an encoded character: the first byte leaves the decoder inside the character with
a range that the second byte lies in (`lead_two`, `lead_three`, `lead_four`), and
each further byte moves it on (`run_inside_more`) or ends the character
(`run_inside_last`).

A place in a text is told by the number of bytes before it; `splitAtByte_size` and
`append_inj_of_size` go from such numbers to the characters before a place.
-/

namespace FontHosting.Text.Utf8

/-! ## One byte -/

private theorem toNat_ofNat_byte {byte : Nat} (hbyte : byte < 256) :
    (UInt8.ofNat byte).toNat = byte := by
  simp [Nat.mod_eq_of_lt hbyte]

theorem run_lead {byte : Nat} (hbyte : byte < 256) (rest : List UInt8) :
    Decoder.between.run (UInt8.ofNat byte :: rest) =
      (Decoder.lead byte).1 ++ (Decoder.lead byte).2.run rest := by
  simp only [Decoder.run, Decoder.step, toNat_ofNat_byte hbyte]

/-- A byte in range ends the character that owes only this byte. -/
theorem run_inside_last {low high value byte : Nat} (hlow : low ≤ byte) (hhigh : byte ≤ high)
    (hbyte : byte < 256) (rest : List UInt8) :
    (Decoder.inside 1 low high value).run (UInt8.ofNat byte :: rest) =
      Char.ofNat (value * 64 + (byte - 0x80)) :: Decoder.between.run rest := by
  simp [Decoder.run, Decoder.step, toNat_ofNat_byte hbyte, hlow, hhigh]

/-- A byte in range moves on inside a character that owes more bytes. -/
theorem run_inside_more {owed low high value byte : Nat} (hlow : low ≤ byte) (hhigh : byte ≤ high)
    (hbyte : byte < 256) (rest : List UInt8) :
    (Decoder.inside (owed + 2) low high value).run (UInt8.ofNat byte :: rest) =
      (Decoder.inside (owed + 1) 0x80 0xBF (value * 64 + (byte - 0x80))).run rest := by
  simp [Decoder.run, Decoder.step, toNat_ofNat_byte hbyte, hlow, hhigh]

/-! ## The first byte of a longer character -/

theorem lead_two {value : Nat} (hlow : 0x80 ≤ value) (hhigh : value < 0x800) :
    Decoder.lead (0xC0 + value / 64) = ([], .inside 1 0x80 0xBF (value / 64)) := by
  unfold Decoder.lead
  rw [if_neg (by omega), if_pos (by omega), Nat.add_sub_cancel_left]

/-- The range for the second byte leaves out what a shorter form or half of a pair would
need. -/
theorem lead_three {value : Nat} (hlow : 0x800 ≤ value) (hhigh : value < 0x10000)
    (hpair : value < 0xD800 ∨ 0xDFFF < value) :
    ∃ low high, Decoder.lead (0xE0 + value / 4096) = ([], .inside 2 low high (value / 4096)) ∧
      low ≤ 0x80 + value / 64 % 64 ∧ 0x80 + value / 64 % 64 ≤ high := by
  unfold Decoder.lead
  rw [if_neg (by omega), if_neg (by omega)]
  by_cases hfirst : 0xE0 + value / 4096 = 0xE0
  · have hzero : value / 4096 = 0 := by omega
    rw [if_pos hfirst]
    exact ⟨0xA0, 0xBF, by rw [hzero], by omega, by omega⟩
  · rw [if_neg hfirst]
    by_cases hpairs : 0xE0 + value / 4096 = 0xED
    · have hthirteen : value / 4096 = 13 := by omega
      rw [if_pos hpairs]
      exact ⟨0x80, 0x9F, by rw [hthirteen], by omega, by omega⟩
    · rw [if_neg hpairs, if_pos (by omega), Nat.add_sub_cancel_left]
      exact ⟨0x80, 0xBF, rfl, by omega, by omega⟩

theorem lead_four {value : Nat} (hlow : 0x10000 ≤ value) (hhigh : value < 0x110000) :
    ∃ low high, Decoder.lead (0xF0 + value / 262144) = ([], .inside 3 low high (value / 262144)) ∧
      low ≤ 0x80 + value / 4096 % 64 ∧ 0x80 + value / 4096 % 64 ≤ high := by
  unfold Decoder.lead
  rw [if_neg (by omega), if_neg (by omega), if_neg (by omega), if_neg (by omega),
    if_neg (by omega)]
  by_cases hfirst : 0xF0 + value / 262144 = 0xF0
  · have hzero : value / 262144 = 0 := by omega
    rw [if_pos hfirst]
    exact ⟨0x90, 0xBF, by rw [hzero], by omega, by omega⟩
  · rw [if_neg hfirst]
    by_cases hmiddle : 0xF1 ≤ 0xF0 + value / 262144 ∧ 0xF0 + value / 262144 ≤ 0xF3
    · rw [if_pos hmiddle, Nat.add_sub_cancel_left]
      exact ⟨0x80, 0xBF, rfl, by omega, by omega⟩
    · have hfour : value / 262144 = 4 := by omega
      rw [if_neg hmiddle, if_pos (by omega)]
      exact ⟨0x80, 0x8F, by rw [hfour], by omega, by omega⟩

/-! ## Characters and texts -/

private theorem toNat_range (c : Char) :
    c.toNat < 0xD800 ∨ 0xDFFF < c.toNat ∧ c.toNat < 0x110000 := by
  simpa [UInt32.isValidChar, Nat.isValidChar] using c.valid

/-- Between characters, the bytes of a character are read as that character. -/
theorem run_encodeChar (c : Char) (rest : List UInt8) :
    Decoder.between.run (encodeChar c ++ rest) = c :: Decoder.between.run rest := by
  have hrange := toNat_range c
  have hback : ∀ value, value = c.toNat → Char.ofNat value = c := by
    rintro _ rfl
    exact Char.ofNat_toNat c
  unfold encodeChar
  generalize c.toNat = value at hrange hback
  by_cases hone : value < 0x80
  · rw [if_pos hone, List.cons_append, run_lead (by omega)]
    simp [Decoder.lead, hone, hback]
  rw [if_neg hone]
  by_cases htwo : value < 0x800
  · rw [if_pos htwo, List.cons_append, run_lead (by omega), lead_two (by omega) htwo,
      List.nil_append, List.cons_append,
      run_inside_last (by omega) (by omega) (by omega), hback _ (by omega), List.nil_append]
  rw [if_neg htwo]
  by_cases hthree : value < 0x10000
  · obtain ⟨low, high, hlead, hlow, hhigh⟩ := lead_three (by omega) hthree (by omega)
    rw [if_pos hthree, List.cons_append, run_lead (by omega), hlead, List.nil_append,
      List.cons_append, run_inside_more hlow hhigh (by omega), List.cons_append,
      run_inside_last (by omega) (by omega) (by omega), hback _ (by omega), List.nil_append]
  rw [if_neg hthree]
  obtain ⟨low, high, hlead, hlow, hhigh⟩ := lead_four (Nat.le_of_not_lt hthree) (by omega)
  rw [List.cons_append, run_lead (by omega), hlead, List.nil_append, List.cons_append,
    run_inside_more hlow hhigh (by omega), List.cons_append,
    run_inside_more (by omega) (by omega) (by omega), List.cons_append,
    run_inside_last (by omega) (by omega) (by omega), hback _ (by omega), List.nil_append]

/-- **Decoding undoes encoding.** -/
theorem decodeLossy_encode (text : List Char) : decodeLossy (encode text) = text := by
  unfold decodeLossy
  induction text with
  | nil => rfl
  | cons c rest ih => rw [encode_cons, run_encodeChar, ih]

/-! ## Places -/

/-- A text is cut behind each of its beginnings. -/
theorem splitAtByte_size (first second : List Char) :
    splitAtByte (size first) (first ++ second) = (first, second) := by
  induction first with
  | nil =>
      cases second with
      | nil => rfl
      | cons c rest =>
          have hc := length_encodeChar_pos c
          simp only [size_nil, List.nil_append, splitAtByte]
          rw [if_neg (by omega)]
  | cons c rest ih =>
      simp only [size_cons, List.cons_append, splitAtByte]
      rw [if_pos (by omega), Nat.add_sub_cancel_left, ih]

/-- Of two beginnings of a text that have the same size, each is the other. -/
theorem append_inj_of_size {first second rest others : List Char}
    (h : first ++ rest = second ++ others) (hsize : size first = size second) :
    first = second ∧ rest = others := by
  have hcut := splitAtByte_size first rest
  rw [h, hsize, splitAtByte_size second others] at hcut
  exact ⟨(congrArg Prod.fst hcut).symm, (congrArg Prod.snd hcut).symm⟩

end FontHosting.Text.Utf8
