import PraxisPolicy.HashMaps
import PraxisPolicy.JsonValues
import PraxisPolicy.TextScanning

/-!
# The attribute bag

Policies are evaluated against a flat bag of named, typed values.  `Library` collects the functions
of the standard library and of third-party crates that are not spelled out here.
-/

namespace PraxisPolicy

open BinaryFloats HashMaps JsonValues TextScanning

/-- Library functions that the model takes as given. -/
class Library where
  /-- `str::to_lowercase`, the full Unicode mapping. -/
  toLowercase : String → String
  /-- `str::parse::<f64>`. -/
  parseF64 : String → Option Float64
  /-- `f64::to_string`. -/
  displayF64 : Float64 → String
  /-- The `Debug` form of a string. -/
  debugStr : String → String
  /-- `Regex::new`, with `is_match` of what it compiles to. -/
  regex : String → Except String (String → Bool)
  /-- `serde_json::to_string`. -/
  jsonText : Json → String
  /-- Sixteen hexadecimal digits of the default hash of a string. -/
  hashHex : String → String
  /-- `to_rfc3339_opts` with whole seconds and `Z`. -/
  rfc3339 : ℤ → String

/-- As the real library on ASCII text and integer spellings. -/
@[reducible] def Library.ascii : Library where
  toLowercase := toAsciiLowercase
  parseF64 s := (parseI64 s).map Float64.ofInt
  displayF64 f := toString (f.scaled / 2 ^ 1074)
  debugStr s := "\"" ++ s ++ "\""
  regex pattern := .ok fun s => s == pattern
  jsonText v := (v.asStr).getD ""
  hashHex s := s
  rfc3339 seconds := toString seconds ++ "Z"

inductive AttributeValue where
  | bool (b : Bool)
  | int (n : ℤ)
  | float (f : Float64)
  | string (s : String)
  | stringSet (s : Finset String)
  | nonScalar
  deriving DecidableEq

/-- The flat namespace a policy is evaluated against. -/
structure AttributeBag where
  attrs : HashMap String AttributeValue
  deriving DecidableEq

namespace AttributeBag

def empty : AttributeBag := ⟨∅⟩

def set (bag : AttributeBag) (key : String) (value : AttributeValue) : AttributeBag :=
  ⟨bag.attrs.insert key value⟩

def setAll (bag : AttributeBag) (writes : List (String × AttributeValue)) : AttributeBag :=
  ⟨writeAll bag.attrs writes⟩

def get (bag : AttributeBag) (key : String) : Option AttributeValue := bag.attrs.lookup key

def contains (bag : AttributeBag) (key : String) : Bool := (bag.get key).isSome

def getBool (bag : AttributeBag) (key : String) : Option Bool :=
  match bag.get key with
  | some (.bool b) => some b
  | _ => none

def getString (bag : AttributeBag) (key : String) : Option String :=
  match bag.get key with
  | some (.string s) => some s
  | _ => none

def getStringSet (bag : AttributeBag) (key : String) : Option (Finset String) :=
  match bag.get key with
  | some (.stringSet s) => some s
  | _ => none

def setContains (bag : AttributeBag) (key value : String) : Bool :=
  ((bag.getStringSet key).map fun s => decide (value ∈ s)).getD false

theorem ext_get {bag bag' : AttributeBag} (h : ∀ key, bag.get key = bag'.get key) :
    bag = bag' :=
  congrArg AttributeBag.mk (Finmap.ext_lookup h)

theorem get_setAll (bag : AttributeBag) (writes : List (String × AttributeValue)) (key : String) :
    (bag.setAll writes).get key = (lastWrite key writes).or (bag.get key) :=
  lookup_writeAll bag.attrs writes key

variable [Library]

/-- The scalar at `key` as a path segment. -/
def scalarAsString (bag : AttributeBag) (key : String) : Option String :=
  match bag.get key with
  | some (.string s) => some s
  | some (.int i) => some (toString i)
  | some (.bool b) => some (toString b)
  | some (.float f) => some (Library.displayF64 f)
  | some (.stringSet _) | some .nonScalar | none => none

/-- Replace each group `[inner]` by a dot and the scalar under `inner`. -/
def expandGroups (bag : AttributeBag) : ℕ → List Char → Option (List Char)
  | 0, rest => some rest
  | fuel + 1, rest =>
    match rest.dropWhile (· ≠ '[') with
    | [] => some rest
    | _ :: after =>
      match after.dropWhile (· ≠ ']') with
      | [] => none
      | _ :: tail => do
        let scalar ← bag.scalarAsString (trim (String.ofList (after.takeWhile (· ≠ ']'))))
        let expanded ← expandGroups bag fuel tail
        return rest.takeWhile (· ≠ '[') ++ '.' :: scalar.toList ++ expanded

/-- The flat key of an attribute path; `none` when a group has no scalar. -/
def resolveKey (bag : AttributeBag) (key : String) : Option String :=
  if key.toList.contains '[' then
    (bag.expandGroups key.toList.length key.toList).map String.ofList
  else some key

end AttributeBag

end PraxisPolicy
