import PraxisPolicy.EncodedText
import PraxisPolicy.ExtensionRecords
import PraxisPolicy.JsonPositions
import PraxisPolicy.SortedLists

/-!
# Canonical bytes of a JSON value

Compact text with the members of every object in the order of the UTF-16 code units of their keys.
Audit records are hashed and signed over it.
-/

namespace PraxisPolicy

open BinaryFloats EncodedText JsonValues SortedLists TextScanning

/-- Library functions that the audit records rest on. -/
class AuditLibrary where
  /-- `ryu::Buffer::format_finite`. -/
  formatFinite : Float64 → String
  /-- `Sha256`. -/
  sha256 : List UInt8 → List UInt8
  /-- `DateTime::to_rfc3339`. -/
  toRfc3339 : DateTime → String
  /-- How a time is serialised. -/
  dateTimeText : DateTime → String

section KeyOrder

def utf16Units (c : Char) : List ℕ :=
  if c.toNat < 0x10000 then [c.toNat]
  else [0xd800 + (c.toNat - 0x10000) / 0x400, 0xdc00 + (c.toNat - 0x10000) % 0x400]

def encodeUtf16 (s : String) : List ℕ := s.toList.flatMap utf16Units

theorem utf16Units_ne_nil (c : Char) : utf16Units c ≠ [] := by
  unfold utf16Units
  split <;> simp

/-- The first code unit tells whether there is a second. -/
theorem utf16Units_append_inj {c d : Char} {s t : List ℕ}
    (h : utf16Units c ++ s = utf16Units d ++ t) : c = d ∧ s = t := by
  have hchar : ∀ {a b : Char}, a.toNat = b.toNat → a = b := fun h =>
    Char.ext (UInt32.toNat_inj.1 h)
  have hvalid : ∀ a : Char, a.toNat < 0xd800 ∨ 0xdfff < a.toNat ∧ a.toNat < 0x110000 :=
    fun a => a.valid
  have hc := hvalid c
  have hd := hvalid d
  unfold utf16Units at h
  split at h <;> split at h <;> simp only [List.cons_append, List.nil_append, List.cons.injEq] at h
  · exact ⟨hchar h.1, h.2⟩
  · omega
  · omega
  · exact ⟨hchar (by omega), h.2.2⟩

theorem encodeUtf16_injective : Function.Injective encodeUtf16 := by
  intro s t h
  rw [← String.toList_inj]
  simp only [encodeUtf16] at h
  generalize s.toList = cs at h
  generalize t.toList = ds at h
  induction cs generalizing ds with
  | nil =>
    cases ds with
    | nil => rfl
    | cons d ds =>
      exact absurd (List.append_eq_nil_iff.1 h.symm).1 (utf16Units_ne_nil d)
  | cons c cs ih =>
    cases ds with
    | nil => exact absurd (List.append_eq_nil_iff.1 h).1 (utf16Units_ne_nil c)
    | cons d ds =>
      obtain ⟨rfl, hrest⟩ := utf16Units_append_inj h
      rw [ih ds hrest]

/-- `utf16_order` does not put `b` before `a`. -/
def utf16Order (a b : String) : Prop := encodeUtf16 a ≤ encodeUtf16 b

instance : DecidableRel utf16Order :=
  fun a b => inferInstanceAs (Decidable (encodeUtf16 a ≤ encodeUtf16 b))

variable {α β : Type}

def sortMembers (ms : List (String × α)) : List (String × α) :=
  ms.insertionSort fun a b => utf16Order a.1 b.1

theorem perm_sortMembers (ms : List (String × α)) : (sortMembers ms).Perm ms :=
  List.perm_insertionSort _ ms

theorem pairwise_sortMembers (ms : List (String × α)) :
    (sortMembers ms).Pairwise fun a b => utf16Order a.1 b.1 :=
  pairwise_sortOn (fun m : String × α => encodeUtf16 m.1) ms

/-- Surrogate pairs come before the end of the basic plane. -/
example : (sortMembers [("\uffee", 0), ("😀", 1), ("é", 2), ("a", 3)]).map Prod.snd =
    [3, 2, 1, 0] := by
  decide

variable {ms ns : List (String × α)}

theorem sortMembers_eq_of_perm (hnodup : (ms.map Prod.fst).Nodup)
    (hperm : ms.Perm ns) : sortMembers ms = sortMembers ns := by
  have hkeys := hnodup.map encodeUtf16_injective
  rw [List.map_map] at hkeys
  exact sortOn_eq_of_perm hkeys hperm

theorem map_sortMembers (f : String → α → β) (ms : List (String × α)) :
    (sortMembers ms).map (fun m => (m.1, f m.1 m.2)) =
      sortMembers (ms.map fun m => (m.1, f m.1 m.2)) :=
  List.map_insertionSort _ _ _ _ fun _ _ _ _ => Iff.rfl

end KeyOrder

section Order

mutual

def canonicalOrder : Json → Json
  | .array items => .array (orderItems items)
  | .object members => .object (sortMembers (orderMembers members))
  | leaf => leaf

def orderItems : List Json → List Json
  | [] => []
  | v :: vs => canonicalOrder v :: orderItems vs

def orderMembers : Members → Members
  | [] => []
  | (key, v) :: ms => (key, canonicalOrder v) :: orderMembers ms

end

theorem orderItems_eq_map (items : List Json) : orderItems items = items.map canonicalOrder := by
  induction items with
  | nil => rfl
  | cons v vs ih => rw [orderItems, ih, List.map_cons]

theorem orderMembers_eq_map (ms : Members) :
    orderMembers ms = ms.map fun m => (m.1, canonicalOrder m.2) := by
  induction ms with
  | nil => rfl
  | cons m ms ih => rw [orderMembers, ih, List.map_cons]

theorem keys_orderMembers (ms : Members) : (orderMembers ms).map Prod.fst = ms.map Prod.fst := by
  simp [orderMembers_eq_map]

theorem canonicalOrder_eq_of_sameValue {v w : Json} (h : Json.SameValue v w) (hv : v.Keyed) :
    canonicalOrder v = canonicalOrder w := by
  induction h with
  | refl v => rfl
  | trans h₁ _ ih₁ ih₂ => exact (ih₁ hv).trans (ih₂ (h₁.keyed hv))
  | item _ _ ih ihs =>
    simp only [Json.keyed_array, List.forall_mem_cons] at hv ihs
    simp only [canonicalOrder, orderItems, Json.array.injEq, List.cons.injEq] at ihs ⊢
    exact ⟨ih hv.1, ihs hv.2⟩
  | @member key v w xs ys _ _ ih ihs =>
    obtain ⟨hnodup, hms⟩ := Json.keyed_object.1 hv
    obtain ⟨hhead, hrest⟩ := List.forall_mem_cons.1 hms
    have htail := ihs (.object (List.nodup_cons.1 hnodup).2 hrest)
    simp only [canonicalOrder, orderMembers, Json.object.injEq, sortMembers,
      List.insertionSort_cons] at htail ⊢
    rw [ih hhead, htail]
  | @reorder xs ys h =>
    obtain ⟨hnodup, -⟩ := Json.keyed_object.1 hv
    simp only [canonicalOrder, orderMembers_eq_map, Json.object.injEq]
    refine sortMembers_eq_of_perm ?_ (h.map _)
    rwa [← orderMembers_eq_map, keys_orderMembers]

variable {v : Json} {f : Json → Json}

theorem canonicalOrder_remove (v : Json) (key : String) :
    canonicalOrder (v.remove key) = (canonicalOrder v).remove key := by
  cases v with
  | object ms =>
    simp only [Json.remove, Json.mapMembers, canonicalOrder, removeMember, Json.object.injEq]
    rw [orderMembers_eq_map, orderMembers_eq_map]
    refine (congrArg sortMembers ?_).trans (filter_sortOn _ _).symm
    rw [List.filter_map]
    rfl
  | _ => rfl

theorem canonicalOrder_modify (hv : v.Keyed)
    (hf : ∀ w, w.Keyed → canonicalOrder (f w) = f (canonicalOrder w)) (key : String) :
    canonicalOrder (v.modify key f) = (canonicalOrder v).modify key f := by
  cases v with
  | object ms =>
    have hms := (Json.keyed_object.1 hv).2
    simp only [Json.modify, Json.mapMembers, canonicalOrder, modifyMember, Json.object.injEq]
    rw [map_sortMembers (fun k w => if k = key then f w else w), orderMembers_eq_map,
      orderMembers_eq_map, List.map_map, List.map_map]
    refine congrArg sortMembers (List.map_congr_left fun m hm => ?_)
    simp only [Function.comp_apply, Prod.mk.injEq, true_and]
    split
    · exact hf m.2 (hms m hm)
    · rfl
  | _ => rfl

theorem canonicalOrder_modifyFirst (hv : v.Keyed)
    (hf : ∀ w, w.Keyed → canonicalOrder (f w) = f (canonicalOrder w)) :
    canonicalOrder (v.modifyFirst f) = (canonicalOrder v).modifyFirst f := by
  cases v with
  | array items =>
    cases items with
    | nil => rfl
    | cons w ws =>
      have hw := (Json.keyed_array.1 hv) w List.mem_cons_self
      simp only [Json.modifyFirst, canonicalOrder, orderItems, hf w hw]
  | _ => rfl

theorem follow_canonicalOrder (hv : v.Keyed) (π : List Step) :
    follow (canonicalOrder v) π = (follow v π).map canonicalOrder := by
  induction π generalizing v with
  | nil => simp
  | cons step π ih =>
    cases v with
    | array items =>
      cases step with
      | key name => rfl
      | index i =>
        simp only [canonicalOrder, orderItems_eq_map, follow, List.getElem?_map]
        cases hi : items[i]? with
        | none => rfl
        | some w => exact ih ((Json.keyed_array.1 hv) w (List.mem_of_getElem? hi))
    | object ms =>
      cases step with
      | index i => rfl
      | key name =>
        have hnodup := (Json.keyed_object.1 hv).1
        have hlookup : (sortMembers (orderMembers ms)).lookup name =
            (ms.lookup name).map canonicalOrder := by
          have hordered : ((orderMembers ms).map Prod.fst).Nodup := by rwa [keys_orderMembers]
          have hsorted : ((sortMembers (orderMembers ms)).map Prod.fst).Nodup :=
            ((perm_sortMembers _).map _).nodup_iff.2 hordered
          ext w
          rw [lookup_eq_some_iff_mem hsorted, (perm_sortMembers _).mem_iff, orderMembers_eq_map]
          simp only [List.mem_map, Prod.mk.injEq, Option.map_eq_some_iff,
            lookup_eq_some_iff_mem hnodup]
          constructor
          · rintro ⟨m, hm, rfl, rfl⟩
            exact ⟨m.2, hm, rfl⟩
          · rintro ⟨u, hu, rfl⟩
            exact ⟨(name, u), hu, rfl, rfl⟩
        simp only [canonicalOrder, follow, hlookup]
        cases hname : ms.lookup name with
        | none => rfl
        | some w => exact ih (hv.of_lookup hname)
    | _ => cases step <;> rfl

end Order

section Text

variable [AuditLibrary]

def splitOnce (c : Char) (cs : List Char) : Option (List Char × List Char) :=
  match cs.dropWhile (· != c) with
  | [] => none
  | _ :: rest => some (cs.takeWhile (· != c), rest)

def saturatingAddI64 (a b : ℤ) : ℤ := max (-2 ^ 63) (min (2 ^ 63 - 1) (a + b))

/-- The digits of a double, with its point or exponent. -/
def placeDigits (digits : List Char) (n : ℤ) : List Char :=
  let k := digits.length
  if k ≤ n ∧ n ≤ 21 then digits ++ List.replicate (n - k).toNat '0'
  else if 0 < n ∧ n ≤ 21 then digits.take n.toNat ++ '.' :: digits.drop n.toNat
  else if -6 < n ∧ n ≤ 0 then '0' :: '.' :: List.replicate (-n).toNat '0' ++ digits
  else
    let mantissa := match digits with
      | [] => []
      | [first] => [first]
      | first :: rest => first :: '.' :: rest
    let e := n - 1
    mantissa ++ 'e' :: (if e < 0 then '-' else '+') :: (toString e.natAbs).toList

/-- The shortest digits, placed as ECMAScript places them. -/
def es6Number (f : Float64) : String :=
  if f.eq (Float64.ofInt 0) then "0"
  else
    let printed := (AuditLibrary.formatFinite { f with negative := false }).toList
    let parts := (splitOnce 'e' printed).elim (printed, 0) fun p =>
      (p.1, (parseI64 (String.ofList p.2)).getD 0)
    let mantissa := (splitOnce '.' parts.1).getD (parts.1, [])
    let digits := mantissa.1 ++ mantissa.2
    let leading := (digits.takeWhile (· == '0')).length
    let n := saturatingAddI64 mantissa.1.length parts.2 - leading
    (if f.lt (Float64.ofInt 0) then "-" else "") ++
      String.ofList (placeDigits ((digits.drop leading).rdropWhile (· == '0')) n)

def canonicalNumber : Number → String
  | .posInt n => toString n
  | .negInt n => toString n
  | .float f => es6Number f

def hexByte (n : ℕ) : List Char := [Nat.digitChar (n / 16), Nat.digitChar (n % 16)]

/-- A character of a string as `serde_json` writes it. -/
def escapeChar (c : Char) : List Char :=
  if c = '"' then ['\\', '"']
  else if c = '\\' then ['\\', '\\']
  else if c.toNat = 0x08 then ['\\', 'b']
  else if c.toNat = 0x09 then ['\\', 't']
  else if c.toNat = 0x0a then ['\\', 'n']
  else if c.toNat = 0x0c then ['\\', 'f']
  else if c.toNat = 0x0d then ['\\', 'r']
  else if c.toNat < 0x20 then '\\' :: 'u' :: '0' :: '0' :: hexByte c.toNat
  else [c]

def quoted (s : String) : String := "\"" ++ String.ofList (s.toList.flatMap escapeChar) ++ "\""

mutual

def writeCanonical : Json → String
  | .null => "null"
  | .bool b => if b then "true" else "false"
  | .number n => canonicalNumber n
  | .string s => quoted s
  | .array items => "[" ++ ",".intercalate (writeItems items) ++ "]"
  | .object members =>
    let written := (sortMembers (writeMembers members)).map fun m => quoted m.1 ++ ":" ++ m.2
    "\x7b" ++ ",".intercalate written ++ "\x7d"

def writeItems : List Json → List String
  | [] => []
  | v :: vs => writeCanonical v :: writeItems vs

def writeMembers : Members → List (String × String)
  | [] => []
  | (key, v) :: ms => (key, writeCanonical v) :: writeMembers ms

end

theorem writeItems_eq_map (items : List Json) : writeItems items = items.map writeCanonical := by
  induction items with
  | nil => rfl
  | cons v vs ih => rw [writeItems, ih, List.map_cons]

theorem writeMembers_eq_map (ms : Members) :
    writeMembers ms = ms.map fun m => (m.1, writeCanonical m.2) := by
  induction ms with
  | nil => rfl
  | cons m ms ih => rw [writeMembers, ih, List.map_cons]

theorem writeCanonical_canonicalOrder (v : Json) :
    writeCanonical (canonicalOrder v) = writeCanonical v := by
  induction v using Json.induction with
  | array items ih =>
    have hitems : writeItems (orderItems items) = writeItems items := by
      rw [writeItems_eq_map, writeItems_eq_map, orderItems_eq_map, List.map_map]
      exact List.map_congr_left ih
    simp only [canonicalOrder, writeCanonical, hitems]
  | object ms ih =>
    have hvalues : writeMembers (orderMembers ms) = writeMembers ms := by
      rw [writeMembers_eq_map, writeMembers_eq_map, orderMembers_eq_map, List.map_map]
      exact List.map_congr_left fun m hm => Prod.ext rfl (ih m hm)
    have hmembers : sortMembers (writeMembers (sortMembers (orderMembers ms))) =
        sortMembers (writeMembers ms) := by
      rw [writeMembers_eq_map, map_sortMembers fun _ => writeCanonical, ← writeMembers_eq_map,
        hvalues]
      exact (pairwise_sortMembers _).insertionSort_eq
    simp only [canonicalOrder, writeCanonical, hmembers]
  | _ => rfl

def canonicalBytes (v : Json) : List UInt8 := encode (writeCanonical v)

theorem canonicalBytes_congr {v w : Json} (h : canonicalOrder v = canonicalOrder w) :
    canonicalBytes v = canonicalBytes w := by
  rw [canonicalBytes, ← writeCanonical_canonicalOrder, h, writeCanonical_canonicalOrder,
    canonicalBytes]

end Text

end PraxisPolicy
