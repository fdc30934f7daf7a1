import PraxisPolicy.CanonicalJson
import PraxisPolicy.PathTexts

/-!
# Reading canonical bytes back

The text of a value without doubles is read back to that value with its members in order, so two
values share their bytes only when they are the same.
-/

namespace PraxisPolicy

open EncodedText JsonValues PathTexts TextScanning
open Json (SameValue)

section Reader

def readDigits (cs : List Char) : Option (ℕ × List Char) :=
  (parseDigits (cs.takeWhile Char.isDigit)).map (·, cs.dropWhile Char.isDigit)

def readInteger (cs : List Char) : Option (Json × List Char) :=
  ((readDigits cs).map fun p => (.number (.posInt p.1), p.2)).or <|
    match cs with
    | '-' :: rest => (readDigits rest).map fun p => (.number (.negInt (-p.1)), p.2)
    | _ => none

def unescape : Char → Option Char
  | '"' => some '"'
  | '\\' => some '\\'
  | '/' => some '/'
  | 'b' => some '\x08'
  | 'f' => some '\x0c'
  | 'n' => some '\n'
  | 'r' => some '\r'
  | 't' => some '\t'
  | _ => none

def unescapeHex (digits : List Char) : Option Char := do
  let values ← digits.mapM hexValue
  let code := values.foldl (fun n value => 16 * n + value) 0
  if code.isValidChar then some (Char.ofNat code) else none

/-- The rest of a string, up to its closing quote. -/
def readString : List Char → Option (List Char × List Char)
  | '"' :: rest => some ([], rest)
  | '\\' :: 'u' :: a :: b :: c :: d :: rest => do
    let char ← unescapeHex [a, b, c, d]
    (readString rest).map fun p => (char :: p.1, p.2)
  | '\\' :: c :: rest => do
    let char ← unescape c
    (readString rest).map fun p => (char :: p.1, p.2)
  | c :: rest => (readString rest).map fun p => (c :: p.1, p.2)
  | [] => none

variable {α : Type}

/-- One or more elements, up to a closing character. -/
def readElements (element : List Char → Option (α × List Char)) (close : Char) :
    ℕ → List Char → Option (List α × List Char)
  | 0, _ => none
  | fuel + 1, cs => do
    let (x, rest) ← element cs
    match rest with
    | [] => none
    | c :: rest =>
      if c = close then return ([x], rest)
      else if c = ',' then
        let (xs, rest) ← readElements element close fuel rest
        return (x :: xs, rest)
      else none

def readSequence (element : List Char → Option (α × List Char)) (close : Char) (fuel : ℕ) :
    List Char → Option (List α × List Char)
  | [] => none
  | c :: rest => if c = close then some ([], rest) else readElements element close fuel (c :: rest)

def readMember (value : List Char → Option (Json × List Char)) :
    List Char → Option ((String × Json) × List Char)
  | '"' :: rest => do
    let (key, rest) ← readString rest
    match rest with
    | ':' :: rest => do
      let (v, rest) ← value rest
      return ((String.ofList key, v), rest)
    | _ => none
  | _ => none

def readStructure (value : List Char → Option (Json × List Char)) (fuel : ℕ) :
    List Char → Option (Json × List Char)
  | 'n' :: 'u' :: 'l' :: 'l' :: rest => some (.null, rest)
  | 't' :: 'r' :: 'u' :: 'e' :: rest => some (.bool true, rest)
  | 'f' :: 'a' :: 'l' :: 's' :: 'e' :: rest => some (.bool false, rest)
  | '"' :: rest => (readString rest).map fun p => (.string (String.ofList p.1), p.2)
  | '[' :: rest => (readSequence value ']' fuel rest).map fun p => (.array p.1, p.2)
  | '\x7b' :: rest => (readSequence (readMember value) '\x7d' fuel rest).map fun p => (.object p.1, p.2)
  | _ => none

/-- A value without white space, fractions and exponents. -/
def readValue : ℕ → List Char → Option (Json × List Char)
  | 0, _ => none
  | fuel + 1, cs => (readInteger cs).or (readStructure (readValue fuel) fuel cs)

def parseBytes (bytes : List UInt8) : Option Json := do
  let text ← decode bytes
  match ← readValue (text.toList.length + 1) text.toList with
  | (v, []) => some v
  | _ => none

end Reader

theorem readString_escapeChar (c : Char) (rest : List Char) :
    readString (escapeChar c ++ rest) = (readString rest).map fun p => (c :: p.1, p.2) := by
  have hcode : ∀ {n : ℕ}, c.toNat = n → c = Char.ofNat n := by
    rintro _ rfl
    exact (Char.ofNat_toNat c).symm
  unfold escapeChar
  split_ifs with hquote hslash hb ht hn hf hr hlow
  · rw [hquote]
    rfl
  · rw [hslash]
    rfl
  · rw [hcode hb]
    rfl
  · rw [hcode ht]
    rfl
  · rw [hcode hn]
    rfl
  · rw [hcode hf]
    rfl
  · rw [hcode hr]
    rfl
  · have hhex : ∀ n < 0x20, unescapeHex ('0' :: '0' :: hexByte n) = some (Char.ofNat n) := by decide
    have hchar := hhex c.toNat hlow
    rw [Char.ofNat_toNat] at hchar
    simp only [hexByte] at hchar ⊢
    simp only [List.cons_append, List.nil_append, readString]
    rw [hchar]
    rfl
  · rw [List.singleton_append]
    simp [readString, hslash]

theorem readString_quoted (s : String) (rest : List Char) :
    ∃ tail, (quoted s).toList ++ rest = '"' :: tail ∧ readString tail = some (s.toList, rest) := by
  refine ⟨s.toList.flatMap escapeChar ++ '"' :: rest, by simp [quoted], ?_⟩
  induction s.toList with
  | nil => rfl
  | cons c cs ih => rw [List.flatMap_cons, List.append_assoc, readString_escapeChar, ih, Option.map_some]

section Integers

/-- A digit behind a number would belong to it. -/
def Ends (rest : List Char) : Prop := ∀ c ∈ rest.head?, c.isDigit = false

variable {rest : List Char}

theorem readDigits_toString (n : ℕ) (h : Ends rest) :
    readDigits ((toString n).toList ++ rest) = some (n, rest) := by
  have hdigits : ∀ c ∈ Nat.toDigits 10 n, c.isDigit = true :=
    fun c hc => Nat.isDigit_of_mem_toDigits (by decide) (by decide) hc
  have htake : rest.takeWhile Char.isDigit = [] ∧ rest.dropWhile Char.isDigit = rest := by
    cases rest with
    | nil => exact ⟨rfl, rfl⟩
    | cons c rest => simp [h c rfl]
  rw [readDigits, Nat.toString_eq_repr, Nat.toList_repr, List.takeWhile_append_of_pos hdigits,
    List.dropWhile_append_of_pos hdigits, htake.1, htake.2, List.append_nil, parseDigits_toDigits]
  rfl

end Integers

section Sequences

variable {α β : Type} {element : List Char → Option (α × List Char)} {close : Char} {fuel : ℕ}
  {xs : List β} {text : β → List Char} {value : β → α} (rest : List Char)

theorem readElements_intercalate (hclose : close ≠ ',' ∧ close.isDigit = false) {x : β}
    (helement : ∀ y ∈ x :: xs, ∀ rest, Ends rest → element (text y ++ rest) = some (value y, rest))
    (hfuel : xs.length < fuel) :
    readElements element close fuel ([','].intercalate ((x :: xs).map text) ++ close :: rest) =
      some ((x :: xs).map value, rest) := by
  induction xs generalizing x fuel with
  | nil =>
    obtain ⟨fuel, rfl⟩ := Nat.exists_eq_succ_of_ne_zero hfuel.ne'
    have hlast := helement x List.mem_cons_self (close :: rest) (by simp [Ends, hclose.2])
    simp [readElements, hlast]
  | cons y ys ih =>
    obtain ⟨fuel, rfl⟩ := Nat.exists_eq_succ_of_ne_zero (Nat.zero_lt_of_lt hfuel).ne'
    obtain ⟨hhead, htail⟩ := List.forall_mem_cons.1 helement
    have hrest := ih htail (Nat.lt_of_succ_lt_succ hfuel)
    have hnext := hhead (',' :: ([','].intercalate ((y :: ys).map text) ++ close :: rest))
      (by simp [Ends])
    simp only [List.map_cons] at hnext hrest ⊢
    rw [List.intercalate_cons_cons, List.append_assoc, List.append_assoc, List.singleton_append]
    simp [readElements, hnext, hrest, hclose.1.symm]

theorem readSequence_intercalate (hclose : close ≠ ',' ∧ close.isDigit = false)
    (hempty : ∀ rest, element (close :: rest) = none)
    (hfuel : ([','].intercalate (xs.map text)).length ≤ fuel)
    (helement : ∀ x ∈ xs, (text x).length ≤ fuel → ∀ rest, Ends rest →
      element (text x ++ rest) = some (value x, rest)) :
    readSequence element close (fuel + 1) ([','].intercalate (xs.map text) ++ close :: rest) =
      some (xs.map value, rest) := by
  cases xs with
  | nil => simp [readSequence]
  | cons x xs =>
    rw [List.map_cons, length_intercalate, List.length_singleton, List.length_map,
      ← List.map_cons] at hfuel
    have hlength : ∀ y ∈ x :: xs, (text y).length ≤ fuel := by
      intro y hy
      have hle := (List.sublist_flatten_of_mem (List.mem_map_of_mem (f := text) hy)).length_le
      omega
    have helements := readElements_intercalate rest hclose
      (fun y hy => helement y hy (hlength y hy)) (show xs.length < fuel + 1 by omega)
    generalize hinput : [','].intercalate ((x :: xs).map text) ++ close :: rest = input at helements ⊢
    cases input with
    | nil => simp at hinput
    | cons c tail =>
      rw [readSequence, if_neg, helements]
      rintro rfl
      simp [readElements, hempty] at helements

end Sequences

section Values

/-- A `u64`, or a negative `i64`. -/
def IsInteger : Number → Prop
  | .posInt _ => True
  | .negInt n => n < 0
  | .float _ => False

/-- A JSON value without doubles. -/
structure IntegerJson where
  value : Json
  keyed : value.Keyed
  integers : ∀ n, (Json.number n).Within value → IsInteger n

variable [AuditLibrary] {v : Json} {rest : List Char} {fuel : ℕ}

theorem readInteger_canonicalNumber {n : Number} (hn : IsInteger n) (h : Ends rest) :
    readInteger ((canonicalNumber n).toList ++ rest) = some (.number n, rest) := by
  cases n with
  | posInt n =>
    rw [canonicalNumber, readInteger.eq_def, readDigits_toString n h]
    rfl
  | negInt n =>
    obtain ⟨m, rfl⟩ := Int.eq_negSucc_of_lt_zero hn
    have htext : canonicalNumber (.negInt (Int.negSucc m)) = "-" ++ toString (m + 1) := rfl
    rw [htext, String.toList_append, List.append_assoc]
    change (readDigits ((toString (m + 1)).toList ++ rest)).map _ = _
    rw [readDigits_toString _ h]
    rfl
  | float f => exact hn.elim

theorem readValue_writeCanonical (hkeyed : v.Keyed)
    (hint : ∀ n, (Json.number n).Within v → IsInteger n)
    (hfuel : (writeCanonical v).toList.length ≤ fuel) (h : Ends rest) :
    readValue (fuel + 1) ((writeCanonical v).toList ++ rest) = some (canonicalOrder v, rest) := by
  induction v using Json.induction generalizing fuel rest with
  | null =>
    rw [writeCanonical]
    rfl
  | bool b =>
    rw [writeCanonical]
    cases b <;> rfl
  | number n =>
    rw [writeCanonical, readValue, readInteger_canonicalNumber (hint n (.refl _)) h]
    rfl
  | string s =>
    obtain ⟨tail, htext, hread⟩ := readString_quoted s rest
    rw [writeCanonical, htext]
    change (readString tail).map _ = _
    rw [hread, Option.map_some, String.ofList_toList]
    rfl
  | array items ih =>
    have htext : (writeCanonical (.array items)).toList =
        '[' :: ([','].intercalate (items.map fun v => (writeCanonical v).toList) ++ [']']) := by
      simp [writeCanonical, writeItems_eq_map, Function.comp_def]
    rw [htext, List.length_cons, List.length_append, List.length_singleton] at hfuel
    obtain ⟨fuel, rfl⟩ := Nat.exists_eq_succ_of_ne_zero (Nat.ne_zero_of_lt hfuel)
    have hitems : readSequence (readValue (fuel + 1)) ']' (fuel + 1)
        ([','].intercalate (items.map fun v => (writeCanonical v).toList) ++ ']' :: rest) =
          some (items.map canonicalOrder, rest) := by
      refine readSequence_intercalate rest (by decide) (fun _ => rfl) (by omega) fun v hv hle rest => ?_
      exact ih v hv (Json.keyed_array.1 hkeyed v hv) (fun n hn => hint n (.item hv hn)) hle
    rw [htext, List.cons_append, List.append_assoc, List.singleton_append]
    change (readSequence _ _ _ _).map _ = _
    rw [hitems, canonicalOrder, orderItems_eq_map]
    rfl
  | object ms ih =>
    have hkeys := Json.keyed_object.1 hkeyed
    have htext : (writeCanonical (.object ms)).toList = '\x7b' :: ([','].intercalate
        ((sortMembers ms).map fun m => (quoted m.1).toList ++ ':' :: (writeCanonical m.2).toList) ++
          ['\x7d']) := by
      simp [writeCanonical, writeMembers_eq_map, ← map_sortMembers fun _ => writeCanonical,
        Function.comp_def]
    rw [htext, List.length_cons, List.length_append, List.length_singleton] at hfuel
    obtain ⟨fuel, rfl⟩ := Nat.exists_eq_succ_of_ne_zero (Nat.ne_zero_of_lt hfuel)
    have hmembers : readSequence (readMember (readValue (fuel + 1))) '\x7d' (fuel + 1)
        ([','].intercalate ((sortMembers ms).map fun m =>
          (quoted m.1).toList ++ ':' :: (writeCanonical m.2).toList) ++ '\x7d' :: rest) =
          some ((sortMembers ms).map fun m => (m.1, canonicalOrder m.2), rest) := by
      refine readSequence_intercalate rest (by decide) (fun _ => rfl) (by omega)
        fun m hm hle rest hrest => ?_
      have hmem := (perm_sortMembers ms).mem_iff.1 hm
      rw [List.length_append, List.length_cons] at hle
      have hle : (writeCanonical m.2).toList.length ≤ fuel := by omega
      have hvalue := ih m hmem (hkeys.2 m hmem)
        (fun n hn => hint n (.member ((lookup_eq_some_iff_mem hkeys.1).2 hmem) hn)) hle hrest
      obtain ⟨tail, hquoted, hkey⟩ :=
        readString_quoted m.1 (':' :: ((writeCanonical m.2).toList ++ rest))
      rw [List.append_assoc, List.cons_append, hquoted]
      simp [readMember, hkey, hvalue]
    rw [htext, List.cons_append, List.append_assoc, List.singleton_append]
    change (readSequence _ _ _ _).map _ = _
    rw [hmembers, canonicalOrder, orderMembers_eq_map, ← map_sortMembers fun _ => canonicalOrder]
    rfl

end Values

section Canonical

theorem sameValue_canonicalOrder (v : Json) : SameValue v (canonicalOrder v) := by
  induction v using Json.induction with
  | array items ih =>
    rw [canonicalOrder, orderItems_eq_map]
    exact Json.sameValue_array (List.forall₂_map_right_iff.2 (List.forall₂_same.2 ih))
  | object ms ih =>
    rw [canonicalOrder, orderMembers_eq_map]
    refine .trans (Json.sameValue_object ?_) (.reorder (perm_sortMembers _).symm)
    exact List.forall₂_map_right_iff.2 (List.forall₂_same.2 fun m hm => ⟨rfl, ih m hm⟩)
  | _ => exact .refl _

theorem keys_canonicalOrder {v : Json} (hv : v.Keyed) {members : Members}
    (h : (Json.object members).Within (canonicalOrder v)) :
    (members.map fun m => encodeUtf16 m.1).Pairwise (· < ·) := by
  induction v using Json.induction with
  | array items ih =>
    rw [canonicalOrder, orderItems_eq_map] at h
    cases h with
    | item hmem hin =>
      obtain ⟨w, hw, rfl⟩ := List.mem_map.1 hmem
      exact ih w hw (Json.keyed_array.1 hv w hw) hin
  | object ms ih =>
    obtain ⟨hnodup, hms⟩ := Json.keyed_object.1 hv
    rw [canonicalOrder] at h
    cases h with
    | refl =>
      have hkeys : ((sortMembers (orderMembers ms)).map Prod.fst).Nodup := by
        rw [((perm_sortMembers _).map _).nodup_iff, keys_orderMembers]
        exact hnodup
      rw [List.pairwise_map]
      refine ((pairwise_sortMembers _).and (List.pairwise_map.1 hkeys)).imp fun hle => ?_
      exact lt_of_le_of_ne hle.1 fun heq => hle.2 (encodeUtf16_injective heq)
    | member hlookup hin =>
      have hmem := (perm_sortMembers _).mem_iff.1 (mem_of_lookup hlookup)
      rw [orderMembers_eq_map] at hmem
      obtain ⟨m, hm, heq⟩ := List.mem_map.1 hmem
      obtain ⟨-, rfl⟩ := Prod.mk.inj heq
      exact ih m hm (hms m hm) hin
  | _ =>
    simp only [canonicalOrder] at h
    cases h

variable [AuditLibrary]

theorem parseBytes_canonicalBytes (v : IntegerJson) :
    parseBytes (canonicalBytes v.value) = some (canonicalOrder v.value) := by
  have hends : Ends [] := fun _ h => (by cases h)
  have hread := readValue_writeCanonical v.keyed v.integers le_rfl hends
  rw [List.append_nil] at hread
  rw [parseBytes, canonicalBytes, decode_encode]
  simp [hread]

/-- The bytes of a value stand for it alone, in whatever order its members come, and members are
printed in the order of their keys. -/
theorem canonicalBytes_canonical (a b : IntegerJson) :
    (canonicalBytes a.value = canonicalBytes b.value ↔ SameValue a.value b.value) ∧
      ∃ v, parseBytes (canonicalBytes a.value) = some v ∧ SameValue v a.value ∧
        ∀ members, (Json.object members).Within v →
          (members.map fun m => encodeUtf16 m.1).Pairwise (· < ·) := by
  have ha := parseBytes_canonicalBytes a
  refine ⟨⟨fun h => ?_, fun h => ?_⟩, _, ha, (sameValue_canonicalOrder _).symm,
    fun members h => keys_canonicalOrder a.keyed h⟩
  · rw [h, parseBytes_canonicalBytes b] at ha
    have horder := Option.some.inj ha
    exact (horder ▸ sameValue_canonicalOrder a.value).trans (sameValue_canonicalOrder b.value).symm
  · exact canonicalBytes_congr (canonicalOrder_eq_of_sameValue h a.keyed)

end Canonical

end PraxisPolicy
