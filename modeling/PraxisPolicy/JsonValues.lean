import PraxisPolicy.BinaryFloats

/-!
# JSON values

A JSON tree with serde's three kinds of number.  An object is the list of its members in iteration
order, and lookups take the first member of that name.
-/

namespace PraxisPolicy.JsonValues

open BinaryFloats

/-- `u64`, negative `i64`, or a finite double. -/
inductive Number where
  | posInt (n : ℕ)
  | negInt (n : ℤ)
  | float (f : Float64)
  deriving DecidableEq, Repr

namespace Number

def asI64 : Number → Option ℤ
  | .posInt n => if n < 2 ^ 63 then some n else none
  | .negInt n => some n
  | .float _ => none

def asU64 : Number → Option ℕ
  | .posInt n => some n
  | .negInt _ => none
  | .float _ => none

def isI64 (n : Number) : Bool := n.asI64.isSome

def isF64 : Number → Bool
  | .float _ => true
  | _ => false

def asF64 : Number → Float64
  | .posInt n => Float64.ofInt n
  | .negInt n => Float64.ofInt n
  | .float f => f

/-- In units of the least double. -/
def scaled : Number → ℤ
  | .posInt n => n * 2 ^ 1074
  | .negInt n => n * 2 ^ 1074
  | .float f => f.scaled

end Number

inductive Json where
  | null
  | bool (b : Bool)
  | number (n : Number)
  | string (s : String)
  | array (items : List Json)
  | object (members : List (String × Json))

namespace Json

theorem induction {motive : Json → Prop}
    (null : motive .null) (bool : ∀ b, motive (.bool b)) (number : ∀ n, motive (.number n))
    (string : ∀ s, motive (.string s))
    (array : ∀ items, (∀ v ∈ items, motive v) → motive (.array items))
    (object : ∀ members, (∀ e ∈ members, motive e.2) → motive (.object members))
    (v : Json) : motive v :=
  @Json.rec motive (fun items => ∀ v ∈ items, motive v)
    (fun members => ∀ e ∈ members, motive e.2) (fun e => motive e.2)
    null bool number string array object
    (by simp) (fun _ _ h hs => List.forall_mem_cons.mpr ⟨h, hs⟩)
    (by simp) (fun _ _ h hs => List.forall_mem_cons.mpr ⟨h, hs⟩)
    (fun _ _ h => h) v

/-- Each under its key or its index in text. -/
def children : Json → List (String × Json)
  | .object members => members
  | .array items => items.zipIdx.map fun e => (toString e.2, e.1)
  | _ => []

def asStr : Json → Option String
  | .string s => some s
  | _ => none

inductive Within : Json → Json → Prop
  | refl (v : Json) : Within v v
  | item {items : List Json} {v w : Json} (hv : v ∈ items) (h : Within w v) :
      Within w (.array items)
  | member {members : List (String × Json)} {key : String} {v w : Json}
      (hv : members.lookup key = some v) (h : Within w v) : Within w (.object members)

end Json

end PraxisPolicy.JsonValues
