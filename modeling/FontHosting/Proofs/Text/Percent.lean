import FontHosting.Proofs.Text.Utf8
import FontHosting.Text.Percent
import Mathlib.Data.List.TakeDrop

/-!
# Percent encoding is read back

`decodeValue_encode`: the value of a query is what was encoded, and
`queryPairs_render`: pairs whose values are encoded are read back as they were.
The second needs that an encoded value contains none of the marks of a query,
which holds since it is made of unreserved characters and `%` only
(`mem_encode`).
-/

namespace FontHosting.Text

/-! ## Pieces between separators -/

theorem splitOn_eq_singleton {separator : Char} {text : List Char} (h : separator ∉ text) :
    splitOn separator text = [text] := by
  induction text with
  | nil => rfl
  | cons c rest ih =>
      simp only [List.mem_cons, not_or] at h
      simp [splitOn, Ne.symm h.1, ih h.2]

theorem splitOn_append {separator : Char} {piece : List Char} (h : separator ∉ piece)
    (rest : List Char) :
    splitOn separator (piece ++ separator :: rest) = piece :: splitOn separator rest := by
  induction piece with
  | nil => simp [splitOn]
  | cons c others ih =>
      simp only [List.mem_cons, not_or] at h
      simp [splitOn, Ne.symm h.1, ih h.2]

/-- Pieces that do not contain the separator are found again between the separators. -/
theorem splitOn_join {separator : Char} {pieces : List (List Char)} (hne : pieces ≠ [])
    (h : ∀ piece ∈ pieces, separator ∉ piece) :
    splitOn separator (join [separator] pieces) = pieces := by
  induction pieces with
  | nil => exact absurd rfl hne
  | cons piece others ih =>
      have hpiece : separator ∉ piece := h piece List.mem_cons_self
      cases others with
      | nil => exact splitOn_eq_singleton hpiece
      | cons second others =>
          have hothers := ih (List.cons_ne_nil _ _) fun piece hmem =>
            h piece (List.mem_cons_of_mem _ hmem)
          rw [join, List.append_assoc, List.singleton_append, splitOn_append hpiece, hothers]
          simp

theorem replaceChar_eq_self {old new : Char} {text : List Char} (h : old ∉ text) :
    replaceChar old new text = text := by
  unfold replaceChar
  rw [List.map_congr_left (g := id), List.map_id]
  intro c hc
  have : c ≠ old := fun heq => h (heq ▸ hc)
  simp [this]

namespace Percent

/-! ## What an encoded value is made of -/

private theorem isUnreserved_upperDigit :
    ∀ value < 16, isUnreserved (Hex.upperDigit value) = true := by
  decide

private theorem value?_upperDigit : ∀ value < 16,
    Hex.value? (Hex.upperDigit value) = some value ∧ (Hex.upperDigit value).toNat < 0x80 := by
  decide

/-- An encoded value consists of unreserved characters and percent signs. -/
theorem mem_encode {text : List Char} {c : Char} (h : c ∈ encode text) :
    isUnreserved c = true ∨ c = '%' := by
  obtain ⟨source, -, hc⟩ := List.mem_flatMap.mp h
  unfold encodeChar at hc
  split at hc
  · rename_i hunreserved
    rw [List.mem_singleton.mp hc]
    exact Or.inl hunreserved
  · obtain ⟨byte, -, hc⟩ := List.mem_flatMap.mp hc
    have hbyte : byte.toNat < 256 := byte.toNat_lt
    simp only [escape, List.mem_cons, List.not_mem_nil, or_false] at hc
    rcases hc with rfl | rfl | rfl
    · exact Or.inr rfl
    · exact Or.inl (isUnreserved_upperDigit _ (by omega))
    · exact Or.inl (isUnreserved_upperDigit _ (by omega))

/-- A mark that is neither unreserved nor a percent sign stands in no encoded value. -/
theorem notMem_encode {mark : Char} (hmark : isUnreserved mark = false) (hpercent : mark ≠ '%')
    (text : List Char) : mark ∉ encode text := by
  intro hmem
  rcases mem_encode hmem with h | h
  · rw [hmark] at h
    exact Bool.noConfusion h
  · exact hpercent h

private theorem toNat_lt_of_isUnreserved {c : Char} (h : isUnreserved c = true) :
    c.toNat < 0x80 ∧ c ≠ '%' := by
  simp only [isUnreserved, Bool.or_eq_true, beq_iff_eq] at h
  rcases h with (((h | rfl) | rfl) | rfl) | rfl
  · constructor
    · delta Char.isAlphanum Char.isAlpha Char.isUpper Char.isLower Char.isDigit at h
      simp only [Bool.or_eq_true, Bool.and_eq_true, decide_eq_true_eq,
        UInt32.le_iff_toNat_le] at h
      have : c.toNat = c.val.toNat := rfl
      simp at h
      omega
    · rintro rfl
      exact absurd h (by decide)
  all_goals exact ⟨by decide, by decide⟩

/-- An encoded value is plain ASCII. -/
theorem toNat_lt_of_mem_encode {text : List Char} {c : Char} (h : c ∈ encode text) :
    c.toNat < 0x80 := by
  rcases mem_encode h with hunreserved | rfl
  · exact (toNat_lt_of_isUnreserved hunreserved).1
  · decide

/-! ## Reading one value -/

private theorem encodeChar_of_lt {c : Char} (h : c.toNat < 0x80) :
    Utf8.encodeChar c = [UInt8.ofNat c.toNat] := by
  unfold Utf8.encodeChar
  simp [h]

/-- The three characters of an escape are read as its byte. -/
theorem decodeFrom_escape (byte : UInt8) (rest : List UInt8) :
    decodeFrom 0 (Utf8.encode (escape byte) ++ rest) = byte :: decodeFrom 0 rest := by
  have hbyte : byte.toNat < 256 := byte.toNat_lt
  obtain ⟨hhigh, hhighAscii⟩ := value?_upperDigit (byte.toNat / 16) (by omega)
  obtain ⟨hlow, hlowAscii⟩ := value?_upperDigit (byte.toNat % 16) (by omega)
  have hchar : ∀ c : Char, c.toNat < 0x80 →
      Char.ofNat (UInt8.ofNat c.toNat).toNat = c := by
    intro c hc
    have : (UInt8.ofNat c.toNat).toNat = c.toNat := by
      simp [Nat.mod_eq_of_lt (show c.toNat < 256 by omega)]
    rw [this, Char.ofNat_toNat]
  have hescape : Utf8.encode (escape byte) =
      [0x25, UInt8.ofNat (Hex.upperDigit (byte.toNat / 16)).toNat,
        UInt8.ofNat (Hex.upperDigit (byte.toNat % 16)).toNat] := by
    simp only [escape, Utf8.encode_cons, Utf8.encode_nil, encodeChar_of_lt hhighAscii,
      encodeChar_of_lt hlowAscii]
    rfl
  have hvalue : 16 * (byte.toNat / 16) + byte.toNat % 16 = byte.toNat := by omega
  have hunescape : unescape? (UInt8.ofNat (Hex.upperDigit (byte.toNat / 16)).toNat)
      (UInt8.ofNat (Hex.upperDigit (byte.toNat % 16)).toNat) = some byte := by
    unfold unescape?
    rw [hchar _ hhighAscii, hchar _ hlowAscii, hhigh, hlow]
    simp only [Option.bind_eq_bind, Option.bind_some, hvalue, UInt8.ofNat_toNat]
    rfl
  rw [hescape, List.cons_append, List.cons_append, List.cons_append, List.nil_append, decodeFrom,
    if_pos rfl]
  simp only [hunescape, decodeFrom]

private theorem decodeFrom_escapes (bytes rest : List UInt8) :
    decodeFrom 0 (Utf8.encode (bytes.flatMap escape) ++ rest) = bytes ++ decodeFrom 0 rest := by
  induction bytes with
  | nil => rfl
  | cons byte others ih =>
      rw [List.flatMap_cons, Utf8.encode_append, List.append_assoc, decodeFrom_escape, ih,
        List.cons_append]

theorem decodeFrom_encodeChar (c : Char) (rest : List UInt8) :
    decodeFrom 0 (Utf8.encode (encodeChar c) ++ rest) = Utf8.encodeChar c ++ decodeFrom 0 rest := by
  unfold encodeChar
  split
  · rename_i hunreserved
    obtain ⟨hascii, hpercent⟩ := toNat_lt_of_isUnreserved hunreserved
    have hne : UInt8.ofNat c.toNat ≠ 0x25 := by
      intro heq
      have hvalue : (UInt8.ofNat c.toNat).toNat = 0x25 := by rw [heq]; rfl
      simp only [UInt8.toNat_ofNat', Nat.reducePow] at hvalue
      have : c.toNat = '%'.toNat := by
        rw [show '%'.toNat = 0x25 from rfl]
        omega
      exact hpercent (Char.toNat_inj.mp this)
    simp [encodeChar_of_lt hascii, decodeFrom, hne]
  · exact decodeFrom_escapes _ rest

theorem decodeFrom_encode (text : List Char) :
    decodeFrom 0 (Utf8.encode (encode text)) = Utf8.encode text := by
  induction text with
  | nil => rfl
  | cons c rest ih =>
      have hcons : encode (c :: rest) = encodeChar c ++ encode rest := List.flatMap_cons
      rw [hcons, Utf8.encode_append, decodeFrom_encodeChar, ih, Utf8.encode_cons]

/-- **An encoded value is read back.** -/
theorem decodeValue_encode (text : List Char) : decodeValue (encode text) = text := by
  unfold decodeValue
  rw [replaceChar_eq_self (notMem_encode (by decide) (by decide) text), decodeFrom_encode,
    Utf8.decodeLossy_encode]

/-! ## Reading pairs -/

/-- A key and an encoded value, as they stand in a query. -/
def renderPair (key value : List Char) : List Char :=
  key ++ '=' :: encode value

/-- Keys that stand for themselves in a query. -/
def IsPlainKey (key : List Char) : Prop :=
  '=' ∉ key ∧ '&' ∉ key ∧ decodeValue key = key

theorem decodePair_renderPair {key : List Char} (hkey : IsPlainKey key) (value : List Char) :
    decodePair (renderPair key value) = (key, value) := by
  obtain ⟨hequals, -, hdecode⟩ := hkey
  have hspan : (renderPair key value).span (· != '=') = (key, '=' :: encode value) := by
    have hall : ∀ c ∈ key, (c != '=') = true := by
      intro c hc
      have : c ≠ '=' := fun heq => hequals (heq ▸ hc)
      simpa using this
    rw [List.span_eq_takeWhile_dropWhile]
    unfold renderPair
    rw [List.takeWhile_append_of_pos hall, List.dropWhile_append_of_pos hall]
    simp
  simp only [decodePair, hspan, hdecode, List.drop_one, List.tail_cons, decodeValue_encode]

/-- **Pairs with encoded values are read back.** -/
theorem queryPairs_render {pairs : List (List Char × List Char)}
    (hkeys : ∀ pair ∈ pairs, IsPlainKey pair.1) :
    queryPairs (join ['&'] (pairs.map fun pair => renderPair pair.1 pair.2)) = pairs := by
  unfold queryPairs
  cases pairs with
  | nil => rfl
  | cons first others =>
      have hampersand : ∀ piece ∈ (first :: others).map fun pair => renderPair pair.1 pair.2,
          '&' ∉ piece := by
        intro piece hpiece hmem
        obtain ⟨pair, hpair, rfl⟩ := List.mem_map.mp hpiece
        simp only [renderPair, List.mem_append, List.mem_cons] at hmem
        rcases hmem with hmem | hmem | hmem
        · exact (hkeys pair hpair).2.1 hmem
        · exact absurd hmem (by decide)
        · exact notMem_encode (by decide) (by decide) pair.2 hmem
      have hnonempty : ∀ piece ∈ (first :: others).map fun pair => renderPair pair.1 pair.2,
          (!piece.isEmpty) = true := by
        intro piece hpiece
        obtain ⟨pair, -, rfl⟩ := List.mem_map.mp hpiece
        simp [renderPair]
      rw [splitOn_join (by simp) hampersand, List.filter_eq_self.mpr hnonempty, List.map_map,
        List.map_congr_left (g := id), List.map_id]
      exact fun pair hpair => decodePair_renderPair (hkeys pair hpair) pair.2

end Percent

end FontHosting.Text
