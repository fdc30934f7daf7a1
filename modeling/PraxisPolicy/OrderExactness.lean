import PraxisPolicy.StageParsing

/-!
# Exactness of order comparisons

Integers reach an order comparison as themselves or spelled in a string.  A spelling that fits
`i64` is compared only up to `2 ^ 53`, where every integer is a double of its own.  A longer
spelling is read as a double and rounded; the answer is then exact unless both operands are such
spellings, of different integers, and round to the same double.
-/

namespace PraxisPolicy

open BinaryFloats BinaryFloats.Float64 JsonValues TextScanning

def integerText (text : String) : Option ℤ :=
  let cs := text.toList
  if cs.head? = some '-' then (parseDigits cs.tail).map fun n : ℕ => -(n : ℤ)
  else if cs.head? = some '+' then (parseDigits cs.tail).map fun n : ℕ => (n : ℤ)
  else (parseDigits cs).map fun n : ℕ => (n : ℤ)

def attrInteger : AttributeValue → Option ℤ
  | .int a => (some a).filter fitsI64
  | .string s => integerText (trim s)
  | _ => none

def litInteger : Literal → Option ℤ
  | .int b => (some b).filter fitsI64
  | .string s => integerText (trim s)
  | _ => none

/-- The exact comparison. -/
def OrderOp.holds (op : OrderOp) (a b : ℤ) : Bool :=
  match op with
  | .gt => decide (b < a)
  | .gtEq => decide (b ≤ a)
  | .lt => decide (a < b)
  | .ltEq => decide (a ≤ b)

def OrderOp.holdsF64 (op : OrderOp) (x y : Float64) : Bool :=
  match op with
  | .gt => y.lt x
  | .gtEq => y.le x
  | .lt => x.lt y
  | .ltEq => x.le y

/-- Two spellings beyond `i64` whose difference is lost in rounding. -/
structure RoundTogether (a b : ℤ) : Prop where
  beyond : fitsI64 a = false ∧ fitsI64 b = false
  ne : a ≠ b
  finite : (nearest a).isFinite = true ∧ (nearest b).isFinite = true
  eq : (nearest a).eq (nearest b) = true

theorem parseI64_eq_filter (text : String) : parseI64 text = (integerText text).filter fitsI64 := by
  have hfilter : ∀ (o : Option ℕ) (p : ℕ → Bool) (f : ℤ → ℤ), (∀ n : ℕ, p n = fitsI64 (f n)) →
      (o.filter p >>= fun n => pure (n : ℤ)).map f = (o.map fun n : ℕ => f n).filter fitsI64 := by
    intro o p f h
    cases o with
    | none => rfl
    | some n => cases hn : fitsI64 (f n) <;> simp [Option.filter_some, h n, hn]
  have hdecide : ∀ (n : ℤ) (p : Prop) [Decidable p], (p ↔ -2 ^ 63 ≤ n ∧ n < 2 ^ 63) →
      decide p = fitsI64 n := by
    intro n p _ h
    rw [fitsI64, ← Bool.decide_and]
    exact decide_eq_decide.2 h
  unfold parseI64 integerText
  generalize text.toList = cs
  split
  · exact hfilter _ _ _ fun n => hdecide _ _ (by omega)
  · exact hfilter _ _ _ fun n => hdecide _ _ (by omega)
  · next h h' =>
    have hsign : ∀ c, (∀ rest, cs = c :: rest → False) → ¬ cs.head? = some c := by
      intro c hne hc
      obtain ⟨rest, hrest⟩ := List.head?_eq_some_iff.1 hc
      exact hne rest hrest
    dsimp only
    rw [if_neg (hsign _ h), if_neg (hsign _ h')]
    exact hfilter _ _ _ fun n => hdecide _ _ (by omega)

section Coercions

def coerceInteger (n : ℤ) : Option Float64 :=
  if fitsI64 n then i64AsExactF64 n else finiteF64 (nearest n)

theorem coerceInteger_cases (n : ℤ) :
    (coerceInteger n = none ∧ (fitsI64 n = false → (nearest n).isFinite = false)) ∨
      coerceInteger n = some (nearest n) ∧ (nearest n).isFinite = true ∧
        (n.natAbs ≤ 2 ^ 53 ∨ fitsI64 n = false) := by
  cases hfits : fitsI64 n with
  | true =>
    rw [coerceInteger, hfits, if_pos rfl, i64AsExactF64, f64ExactIntBound]
    split_ifs with hbound
    · have hsmall : n.natAbs ≤ 2 ^ 53 := by omega
      exact .inr ⟨(congrArg some (nearest_eq_ofInt hsmall)).symm, isFinite_nearest hsmall, .inl hsmall⟩
    · exact .inl ⟨rfl, nofun⟩
  | false =>
    rw [coerceInteger, hfits, if_neg (by decide), finiteF64]
    cases hfinite : (nearest n).isFinite with
    | true => exact .inr ⟨rfl, rfl, .inr rfl⟩
    | false => exact .inl ⟨rfl, fun _ => rfl⟩

variable [Library]

/-- At the integers that `parse::<i64>` refuses. -/
def ParsesNearest : Prop :=
  ∀ text n, integerText text = some n → parseI64 text = none →
    Library.parseF64 text = some (nearest n)

variable {n : ℤ}

theorem coerceF64NumericString_eq (hparse : ParsesNearest) {s : String}
    (h : integerText (trim s) = some n) : coerceF64NumericString s = coerceInteger n := by
  have hread : parseI64 (trim s) = (some n).filter fitsI64 := by rw [parseI64_eq_filter, h]
  rw [coerceF64NumericString, hread, coerceInteger]
  rw [Option.filter_some] at hread ⊢
  cases hfits : fitsI64 n with
  | true => simp
  | false =>
    rw [hfits, if_neg Bool.false_ne_true] at hread
    simp [hparse _ n h hread]

theorem coerceF64Attr_eq (hparse : ParsesNearest) {attr : AttributeValue}
    (h : attrInteger attr = some n) : coerceF64Attr attr = coerceInteger n := by
  cases attr with
  | int a =>
    rw [attrInteger, Option.filter_eq_some_iff, Option.some_inj] at h
    obtain ⟨rfl, hfits⟩ := h
    rw [coerceF64Attr, coerceInteger, if_pos hfits]
  | string s => exact coerceF64NumericString_eq hparse h
  | _ => cases h

theorem coerceF64Lit_eq (hparse : ParsesNearest) {lit : Literal}
    (h : litInteger lit = some n) : coerceF64Lit lit = coerceInteger n := by
  cases lit with
  | int b =>
    rw [litInteger, Option.filter_eq_some_iff, Option.some_inj] at h
    obtain ⟨rfl, hfits⟩ := h
    rw [coerceF64Lit, coerceInteger, if_pos hfits]
  | string s => exact coerceF64NumericString_eq hparse h
  | _ => cases h

end Coercions

section Exactness

theorem holds_roundedInt_iff {a b : ℤ} :
    (∀ op : OrderOp, op.holds (roundedInt a) (roundedInt b) = op.holds a b) ↔
      ¬ (a ≠ b ∧ roundedInt a = roundedInt b) := by
  constructor
  · rintro h ⟨hne, heq⟩
    have hle := decide_eq_decide.1 (h .ltEq)
    have hge := decide_eq_decide.1 (h .gtEq)
    omega
  · intro h op
    have hle : a ≤ b → roundedInt a ≤ roundedInt b := roundedInt_mono
    have hge : b ≤ a → roundedInt b ≤ roundedInt a := roundedInt_mono
    cases op <;> exact decide_eq_decide.2 (by grind)

theorem eq_of_roundedInt_eq {m n : ℤ} (hm : m.natAbs ≤ 2 ^ 53)
    (hn : n.natAbs ≤ 2 ^ 53 ∨ fitsI64 n = false) (h : roundedInt m = roundedInt n) : m = n := by
  rcases hn with hn | hn
  · rwa [roundedInt_eq_self hm, roundedInt_eq_self hn] at h
  · have hlarge : 2 ^ 63 ≤ n.natAbs := by
      simp only [fitsI64, Bool.and_eq_false_iff, decide_eq_false_iff_not] at hn
      omega
    have hrounded : 2 ^ 63 ≤ rounded n.natAbs := rounded_mono hlarge
    rw [← natAbs_roundedInt, ← h, roundedInt_eq_self hm] at hrounded
    omega

theorem holdsF64_nearest {a b : ℤ} (ha : (nearest a).isFinite = true)
    (hb : (nearest b).isFinite = true) (op : OrderOp) :
    op.holdsF64 (nearest a) (nearest b) = op.holds (roundedInt a) (roundedInt b) := by
  obtain ⟨hlt, hle, -⟩ := compare_nearest ha hb
  obtain ⟨hgt, hge, -⟩ := compare_nearest hb ha
  cases op with
  | gt => exact hgt
  | gtEq => exact hge
  | lt => exact hlt
  | ltEq => exact hle

variable [Library] {attr : AttributeValue} {lit : Literal} {a b : ℤ}

theorem numericCompare_eq_bind (h : ∀ m n, attr = .int m → lit = .int n → False) (op : OrderOp) :
    numericCompare attr lit op =
      (coerceF64Attr attr).bind fun x => (coerceF64Lit lit).map (op.holdsF64 x) := by
  rw [numericCompare]
  · cases coerceF64Attr attr <;> cases coerceF64Lit lit <;> cases op <;> rfl
  · exact h

theorem numericCompare_cases (hparse : ParsesNearest) (ha : attrInteger attr = some a)
    (hb : litInteger lit = some b) :
    (fitsI64 a = true ∧ ∀ op, numericCompare attr lit op = some (op.holds a b)) ∨
      ∀ op, numericCompare attr lit op =
        (coerceInteger a).bind fun x => (coerceInteger b).map (op.holdsF64 x) := by
  by_cases hints : ∃ m n, attr = .int m ∧ lit = .int n
  · obtain ⟨m, n, rfl, rfl⟩ := hints
    rw [attrInteger, Option.filter_eq_some_iff, Option.some_inj] at ha
    rw [litInteger, Option.filter_eq_some_iff, Option.some_inj] at hb
    obtain ⟨rfl, hfits⟩ := ha
    obtain ⟨rfl, -⟩ := hb
    exact .inl ⟨hfits, fun op => by cases op <;> rfl⟩
  · refine .inr fun op => ?_
    rw [numericCompare_eq_bind fun m n hm hn => hints ⟨m, n, hm, hn⟩,
      coerceF64Attr_eq hparse ha, coerceF64Lit_eq hparse hb]

end Exactness

section Instances

/-- It reads integer spellings of any length. -/
local instance integerLibrary : Library :=
  { Library.ascii with parseF64 := fun text => (integerText text).map nearest }

theorem parsesNearest_integerLibrary : ParsesNearest := by
  intro text n h _
  change (integerText text).map nearest = some (nearest n)
  rw [h, Option.map_some]

end Instances

end PraxisPolicy
