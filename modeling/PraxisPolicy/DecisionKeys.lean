import PraxisPolicy.PrefixCodes
import PraxisPolicy.SessionIds
import PraxisPolicy.SortedLists
import PraxisPolicy.StepInvokers
import PraxisPolicy.YamlValues

/-!
# Keys of cached decisions

A decision is cached under the digest of all it was asked with, each part behind a tag and, where
its size varies, its length; maps and sets are written in the order of their keys.
-/

namespace PraxisPolicy

open BinaryFloats EncodedText HashMaps JsonValues PrefixCodes SortedLists

def hashLen (len : ℕ) : List UInt8 := bytesBE 8 (min len (2 ^ 64 - 1))

def len64 : LengthCode where
  write := hashLen
  width := 8
  limit := 2 ^ 64
  length_write _ := length_bytesBE 8 _
  write_inj hm hn h := by
    have heq := bytesBE_inj (by omega) (by omega) h
    omega

def hashBytes (bytes : List UInt8) : List UInt8 := framed len64 bytes

/-- `i64::to_be_bytes`, in two's complement. -/
def i64Bytes (n : ℤ) : List UInt8 := bytesBE 8 (n % 2 ^ 64).toNat

def f64Bits (f : Float64) : ℕ :=
  (if f.negative then 2 ^ 63 else 0) + f.exponent.val * 2 ^ 52 + f.fraction.val

def f64Bytes (f : Float64) : List UInt8 := bytesBE 8 (f64Bits f)

def boolByte (b : Bool) : UInt8 := if b then 1 else 0

/-- Every number has an `as_f64`, so there is no fourth case. -/
def hashNumber (n : Number) : List UInt8 :=
  match n.asI64, n.asU64 with
  | some i, _ => 2 :: i64Bytes i
  | none, some u => 3 :: bytesBE 8 u
  | none, none => 4 :: f64Bytes n.asF64

def hashDialect : PdpDialect → List UInt8
  | .cedar => [0]
  | .opa => [1]
  | .authZen => [2]
  | .neMo => [3]
  | .cel => [4]
  | .custom name => 5 :: hashBytes (encode name)

def hashAttr (members : Finset String → List String) : AttributeValue → List UInt8
  | .bool b => [0, boolByte b]
  | .int n => 1 :: i64Bytes n
  | .float f => 2 :: f64Bytes f
  | .string s => 3 :: hashBytes (encode s)
  | .stringSet set => 4 :: counted len64 (fun m => hashBytes (encode m)) (sortOn id (members set))
  | .nonScalar => [5]

def hashBag (members : Finset String → List String) (entries : List (String × AttributeValue)) :
    List UInt8 :=
  counted len64 (fun e => hashBytes (encode e.1) ++ hashAttr members e.2) (sortOn Prod.fst entries)

mutual

def hashJson : Json → List UInt8
  | .null => [0]
  | .bool b => [1, boolByte b]
  | .number n => hashNumber n
  | .string s => 6 :: hashBytes (encode s)
  | .array items => 7 :: counted len64 id (hashItems items)
  | .object members =>
    8 :: counted len64 (fun m => hashBytes (encode m.1) ++ m.2)
      (sortOn Prod.fst (hashMembers members))

def hashItems : List Json → List (List UInt8)
  | [] => []
  | v :: vs => hashJson v :: hashItems vs

def hashMembers : List (String × Json) → List (String × List UInt8)
  | [] => []
  | (key, v) :: ms => (key, hashJson v) :: hashMembers ms

end

def byteOrder (bytes : List UInt8) : List ℕ := bytes.map UInt8.toNat

mutual

/-- A tag is kept without its exclamation mark, and entries are sorted by the bytes of their keys.
-/
def hashYaml : Yaml → List UInt8
  | .null => [0]
  | .bool b => [1, boolByte b]
  | .number n => hashNumber n
  | .string s => 6 :: hashBytes (encode s)
  | .sequence items => 7 :: counted len64 id (hashSequence items)
  | .mapping entries =>
    8 :: counted len64 (fun e => hashBytes e.1 ++ e.2)
      (sortOn (fun e => byteOrder e.1) (hashEntries entries))
  | .tagged tag v => 9 :: (hashBytes (encode ("!" ++ tag)) ++ hashYaml v)

def hashSequence : List Yaml → List (List UInt8)
  | [] => []
  | v :: vs => hashYaml v :: hashSequence vs

def hashEntries : List (Yaml × Yaml) → List (List UInt8 × List UInt8)
  | [] => []
  | (k, v) :: es => (hashYaml k, hashYaml v) :: hashEntries es

end

theorem hashItems_eq_map (items : List Json) : hashItems items = items.map hashJson := by
  induction items with
  | nil => rfl
  | cons v vs ih => rw [hashItems, ih, List.map_cons]

theorem hashMembers_eq_map (ms : List (String × Json)) :
    hashMembers ms = ms.map fun m => (m.1, hashJson m.2) := by
  induction ms with
  | nil => rfl
  | cons m ms ih => rw [hashMembers, ih, List.map_cons]

theorem hashSequence_eq_map (items : List Yaml) : hashSequence items = items.map hashYaml := by
  induction items with
  | nil => rfl
  | cons v vs ih => rw [hashSequence, ih, List.map_cons]

theorem hashEntries_eq_map (es : List (Yaml × Yaml)) :
    hashEntries es = es.map fun e => (hashYaml e.1, hashYaml e.2) := by
  induction es with
  | nil => rfl
  | cons e es ih => rw [hashEntries, ih, List.map_cons]

theorem hashJson_array (items : List Json) :
    hashJson (.array items) = 7 :: counted len64 hashJson items := by
  rw [hashJson, hashItems_eq_map, counted_map]
  rfl

theorem hashJson_object (ms : List (String × Json)) :
    hashJson (.object ms) =
      8 :: counted len64 (fun m => hashBytes (encode m.1) ++ hashJson m.2) (sortOn Prod.fst ms) := by
  rw [hashJson, hashMembers_eq_map, ← map_sortOn fun _ _ => rfl, counted_map]

theorem hashYaml_sequence (items : List Yaml) :
    hashYaml (.sequence items) = 7 :: counted len64 hashYaml items := by
  rw [hashYaml, hashSequence_eq_map, counted_map]
  rfl

theorem hashYaml_mapping (es : List (Yaml × Yaml)) :
    hashYaml (.mapping es) =
      8 :: counted len64 (fun e => hashBytes (hashYaml e.1) ++ hashYaml e.2)
        (sortOn (fun e => byteOrder (hashYaml e.1)) es) := by
  rw [hashYaml, hashEntries_eq_map, ← map_sortOn fun _ _ => rfl, counted_map]

def hashOptionalJson : Option Json → List UInt8
  | none => [0]
  | some v => 1 :: hashJson v

def hashStructured (structured : StructuredInput) : List UInt8 :=
  boolByte structured.tooDeep ::
    (hashOptionalJson structured.llmRequest ++ hashOptionalJson structured.args)

/-- What a decision is asked with. -/
structure PdpEvaluation where
  call : PdpCall
  bag : AttributeBag
  structured : StructuredInput

structure IterationOrder (bag : AttributeBag) where
  entries : List (String × AttributeValue)
  members : Finset String → List String
  enumerates : Enumerates entries bag.attrs
  nodup_members : ∀ set, (members set).Nodup
  mem_members : ∀ set x, x ∈ members set ↔ x ∈ set

def PdpEvaluation.preimage (e : PdpEvaluation) (order : IterationOrder e.bag) : List UInt8 :=
  hashDialect e.call.dialect ++ (hashYaml e.call.args ++
    (hashBag order.members order.entries ++ hashStructured e.structured))

def PdpEvaluation.cacheKey [DigestBackend] (e : PdpEvaluation) (order : IterationOrder e.bag) :
    Except CryptoError (List UInt8) :=
  DigestBackend.sha256 (e.preimage order)

end PraxisPolicy
