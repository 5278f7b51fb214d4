import FontHosting.Text.Utf8
import FontHosting.Text.Hex
import FontHosting.Text.Search

/-!
# Percent encoding and query pairs

`encode` writes a text so that it can stand as one value in a URL: letters,
digits and `-`, `_`, `.`, `~` stand for themselves, every other byte of the
UTF-8 form is written `%XX`.

`queryPairs` reads what stands after the `?` of a URL.  It accepts more than
`encode` writes: a `+` is a space, a `%` without two digits after it is itself,
and bytes that are no UTF-8 become U+FFFD.
-/

namespace FontHosting.Text.Percent

/-- The characters that stand for themselves. -/
def isUnreserved (c : Char) : Bool :=
  c.isAlphanum || c == '-' || c == '_' || c == '.' || c == '~'

/-- One byte as `%XX`. -/
def escape (byte : UInt8) : List Char :=
  ['%', Hex.upperDigit (byte.toNat / 16), Hex.upperDigit (byte.toNat % 16)]

/-- One character: itself, or its bytes as `%XX`. -/
def encodeChar (c : Char) : List Char :=
  if isUnreserved c then [c] else (Utf8.encodeChar c).flatMap escape

/-- A text as one value of a URL. -/
def encode (text : List Char) : List Char :=
  text.flatMap encodeChar

/-- The byte that a `%` with the two characters after it stands for. -/
def unescape? (high low : UInt8) : Option UInt8 := do
  let high ← Hex.value? (Char.ofNat high.toNat)
  let low ← Hex.value? (Char.ofNat low.toNat)
  return UInt8.ofNat (16 * high + low)

/-- Undo `%XX`; `skip` bytes of an escape already read are passed over. -/
def decodeFrom : Nat → List UInt8 → List UInt8
  | _, [] => []
  | skip + 1, _ :: rest => decodeFrom skip rest
  | 0, byte :: rest =>
      if byte = 0x25 then
        match rest with
        | high :: low :: _ =>
            match unescape? high low with
            | some value => value :: decodeFrom 2 rest
            | none => byte :: decodeFrom 0 rest
        | _ => byte :: decodeFrom 0 rest
      else
        byte :: decodeFrom 0 rest

/-- A value of a query: `+` is a space, `%XX` a byte, and the bytes are read as UTF-8. -/
def decodeValue (text : List Char) : List Char :=
  Utf8.decodeLossy (decodeFrom 0 (Utf8.encode (replaceChar '+' ' ' text)))

/-- One `key=value` of a query; without `=` the value is empty. -/
def decodePair (piece : List Char) : List Char × List Char :=
  let (key, rest) := piece.span (· != '=')
  (decodeValue key, decodeValue (rest.drop 1))

/-- The pairs of a query, in order.  They are separated by `&`, empty ones do not count. -/
def queryPairs (query : List Char) : List (List Char × List Char) :=
  ((splitOn '&' query).filter (!·.isEmpty)).map decodePair

end FontHosting.Text.Percent
