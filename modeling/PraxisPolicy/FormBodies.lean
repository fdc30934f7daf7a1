import PraxisPolicy.PathTexts

/-!
# Form bodies of token requests

A body is taken apart at the ampersands and each part at its first equals sign, so both must come
from the encoder alone.
-/

namespace PraxisPolicy

open EncodedText PathTexts

def isUnreserved (byte : UInt8) : Bool :=
  (65 ≤ byte && byte ≤ 90) || (97 ≤ byte && byte ≤ 122) || (48 ≤ byte && byte ≤ 57) ||
    byte == 42 || byte == 45 || byte == 46 || byte == 95

def upperDigit (n : ℕ) : Char := (Nat.digitChar n).toUpper

def formByte (byte : UInt8) : List Char :=
  if isUnreserved byte then [Char.ofNat byte.toNat]
  else if byte = 32 then ['+']
  else ['%', upperDigit (byte.toNat / 16), upperDigit (byte.toNat % 16)]

def encodeInto (raw : String) : List Char := (encode raw).flatMap formByte

def formUrlencode (pairs : List (String × String)) : String :=
  String.ofList <| ['&'].intercalate <| pairs.map fun p => encodeInto p.1 ++ '=' :: encodeInto p.2

def plusToSpace (c : Char) : Char := if c = '+' then ' ' else c

def decodeComponent (text : List Char) : Option String :=
  decode (percentDecode (text.map plusToSpace))

def decodePart (part : List Char) : Option (String × String) := do
  let key ← decodeComponent (part.takeWhile (· != '='))
  let value ← decodeComponent ((part.dropWhile (· != '=')).drop 1)
  return (key, value)

/-- Parts without any text are passed over. -/
def decodeForm (body : String) : Option (List (String × String)) :=
  ((body.toList.splitOn '&').filter (!·.isEmpty)).mapM decodePart

theorem upperDigit_spec : ∀ n < 16, hexValue (upperDigit n) = some n ∧
    upperDigit n ≠ '&' ∧ upperDigit n ≠ '=' ∧ upperDigit n ≠ '+' := by
  decide

theorem unreserved_spec : ∀ n < 256, isUnreserved (UInt8.ofNat n) = true →
    String.utf8EncodeChar (Char.ofNat n) = [UInt8.ofNat n] ∧ Char.ofNat n ≠ '%' ∧
      Char.ofNat n ≠ '&' ∧ Char.ofNat n ≠ '=' ∧ Char.ofNat n ≠ '+' := by
  decide +kernel

theorem formByte_spec (byte : UInt8) (rest : List Char) :
    '&' ∉ formByte byte ∧ '=' ∉ formByte byte ∧
      percentDecode ((formByte byte).map plusToSpace ++ rest) = byte :: percentDecode rest := by
  have hlt : byte.toNat < 256 := byte.toNat_lt
  have hplain : ∀ {c : Char}, c ≠ '%' → String.utf8EncodeChar c = [byte] →
      percentDecode (c :: rest) = byte :: percentDecode rest := by
    intro c hc hutf8
    rw [percentDecode_cons rest fun a b _ _ => by rw [escaped, if_neg hc], hutf8]
    rfl
  unfold formByte
  split_ifs with hunreserved hspace
  · have hspec := unreserved_spec byte.toNat hlt
    rw [UInt8.ofNat_toNat] at hspec
    obtain ⟨hutf8, hpercent, hamp, hequals, hplus⟩ := hspec hunreserved
    refine ⟨by simpa using hamp.symm, by simpa using hequals.symm, ?_⟩
    rw [List.map_singleton, plusToSpace, if_neg hplus]
    exact hplain hpercent hutf8
  · subst hspace
    exact ⟨by decide, by decide, hplain (by decide) (by decide)⟩
  · obtain ⟨hhigh, hamp, hequals, hplus⟩ := upperDigit_spec (byte.toNat / 16) (by omega)
    obtain ⟨hlow, hamp', hequals', hplus'⟩ := upperDigit_spec (byte.toNat % 16) (by omega)
    have hescaped : escaped '%' (upperDigit (byte.toNat / 16)) (upperDigit (byte.toNat % 16)) =
        some byte := by
      simp only [escaped, if_true, hhigh, hlow]
      exact congrArg some (by rw [Nat.div_add_mod, UInt8.ofNat_toNat])
    refine ⟨by simp [hamp.symm, hamp'.symm], by simp [hequals.symm, hequals'.symm], ?_⟩
    simp only [List.map_cons, plusToSpace, if_neg hplus, if_neg hplus']
    exact percentDecode_escaped hescaped rest

theorem not_mem_encodeInto (raw : String) : '&' ∉ encodeInto raw ∧ '=' ∉ encodeInto raw := by
  simp only [encodeInto, List.mem_flatMap, not_exists, not_and]
  exact ⟨fun byte _ => (formByte_spec byte []).1, fun byte _ => (formByte_spec byte []).2.1⟩

theorem decodeComponent_encodeInto (raw : String) : decodeComponent (encodeInto raw) = some raw := by
  have hbytes : ∀ bytes : List UInt8,
      percentDecode ((bytes.flatMap formByte).map plusToSpace) = bytes := by
    intro bytes
    induction bytes with
    | nil => rfl
    | cons byte bytes ih =>
      rw [List.flatMap_cons, List.map_append, (formByte_spec byte _).2.2, ih]
  rw [decodeComponent, encodeInto, hbytes, decode_encode]

theorem decodePart_pair (key value : String) :
    decodePart (encodeInto key ++ '=' :: encodeInto value) = some (key, value) := by
  have hkey : ∀ c ∈ encodeInto key, (c != '=') = true := by
    intro c hc
    simpa using fun heq : c = '=' => (not_mem_encodeInto key).2 (heq ▸ hc)
  simp [decodePart, List.takeWhile_append_of_pos hkey, List.dropWhile_append_of_pos hkey,
    decodeComponent_encodeInto]

theorem decodeForm_formUrlencode (pairs : List (String × String)) :
    decodeForm (formUrlencode pairs) = some pairs := by
  have hread : ∀ pairs : List (String × String),
      (pairs.map fun p => encodeInto p.1 ++ '=' :: encodeInto p.2).mapM decodePart =
        some pairs := by
    intro pairs
    induction pairs with
    | nil => rfl
    | cons p pairs ih => simp [decodePart_pair, ih]
  rw [decodeForm, formUrlencode, String.toList_ofList]
  cases pairs with
  | nil => rfl
  | cons pair pairs =>
    rw [List.splitOn_intercalate _ _ (by simp), List.filter_eq_self.2, hread]
    · intro part hpart
      obtain ⟨p, -, rfl⟩ := List.mem_map.1 hpart
      simp
    · intro part hpart
      obtain ⟨p, -, rfl⟩ := List.mem_map.1 hpart
      simp [(not_mem_encodeInto _).1]

end PraxisPolicy
