import Mathlib.Data.Nat.Log
import Mathlib.Tactic.Ring
import Mathlib.Tactic.Positivity

/-!
# Double-precision numbers

Every number a double can stand for is a multiple of `2 ^ (-1074)`, so doubles are ordered as the
integers `scaled` are.  NaN is excluded by the comparisons themselves.
-/

namespace PraxisPolicy.BinaryFloats

structure Float64 where
  negative : Bool
  exponent : Fin 2048
  fraction : Fin (2 ^ 52)
  deriving DecidableEq, Repr

namespace Float64

def isFinite (x : Float64) : Bool := x.exponent != 2047

def isNaN (x : Float64) : Bool := x.exponent == 2047 && x.fraction != 0

def magnitude (x : Float64) : ℕ :=
  if x.exponent.val = 0 then x.fraction.val
  else (2 ^ 52 + x.fraction.val) * 2 ^ (x.exponent.val - 1)

def scaled (x : Float64) : ℤ := if x.negative then -x.magnitude else x.magnitude

/-- IEEE equality: the two zeros are equal and NaN equals nothing. -/
def eq (x y : Float64) : Bool := !x.isNaN && !y.isNaN && x.scaled == y.scaled

def lt (x y : Float64) : Bool := !x.isNaN && !y.isNaN && decide (x.scaled < y.scaled)

def le (x y : Float64) : Bool := !x.isNaN && !y.isNaN && decide (x.scaled ≤ y.scaled)

def assemble (negative : Bool) (e significand : ℕ) : Float64 where
  negative := negative
  exponent := Fin.ofNat 2048 (e + 1023)
  fraction := Fin.ofNat (2 ^ 52) (significand - 2 ^ 52)

/-- Nearest double to a natural number below `2 ^ 1023`, ties to even. -/
def ofMagnitude (negative : Bool) (m : ℕ) : Float64 :=
  let e := Nat.log2 m
  if m = 0 then ⟨false, 0, 0⟩
  else if e ≤ 52 then assemble negative e (m * 2 ^ (52 - e))
  else
    let unit := 2 ^ (e - 52)
    let down := m / unit
    let up := 2 * (m % unit) > unit ∨ (2 * (m % unit) = unit ∧ down % 2 = 1)
    let significand := if up then down + 1 else down
    if significand = 2 ^ 53 then assemble negative (e + 1) (2 ^ 52)
    else assemble negative e significand

def ofInt (n : ℤ) : Float64 := ofMagnitude (decide (n < 0)) n.natAbs

/-- Whole units nearest to `m`, ties to even. -/
def roundTo (unit m : ℕ) : ℕ :=
  if 2 * (m % unit) > unit ∨ (2 * (m % unit) = unit ∧ m / unit % 2 = 1) then m / unit + 1
  else m / unit

def lastBit (m : ℕ) : ℕ := 2 ^ (Nat.log2 m - 52)

def rounded (m : ℕ) : ℕ := roundTo (lastBit m) m * lastBit m

def roundedInt : ℤ → ℤ
  | .ofNat m => rounded m
  | .negSucc m => -rounded (m + 1)

/-- Too large a magnitude is infinite. -/
def nearest (n : ℤ) : Float64 :=
  if 1024 ≤ Nat.log2 n.natAbs then ⟨decide (n < 0), 2047, 0⟩ else ofInt n

section Rounding

theorem roundTo_mono (unit : ℕ) {a b : ℕ} (h : a ≤ b) : roundTo unit a ≤ roundTo unit b := by
  have hdiv : a / unit ≤ b / unit := Nat.div_le_div_right h
  unfold roundTo
  rcases hdiv.eq_or_lt with heq | hlt
  · -- within one unit the remainders are ordered
    have hmod : a % unit ≤ b % unit := by
      have ha := Nat.div_add_mod a unit
      have hb := Nat.div_add_mod b unit
      rw [heq] at ha
      omega
    rw [heq]
    split_ifs <;> omega
  · split_ifs <;> omega

theorem roundTo_mul {unit : ℕ} (hunit : 0 < unit) (k : ℕ) : roundTo unit (k * unit) = k := by
  rw [roundTo, Nat.mul_mod_left, Nat.mul_div_cancel k hunit, if_neg]
  omega

variable {m : ℕ}

theorem roundTo_bounds (h : 52 ≤ Nat.log2 m) :
    2 ^ 52 ≤ roundTo (lastBit m) m ∧ roundTo (lastBit m) m ≤ 2 ^ 53 := by
  have hpos : 0 < lastBit m := Nat.two_pow_pos _
  have hm : m ≠ 0 := by
    rintro rfl
    exact absurd h (by decide)
  have hlow : 2 ^ 52 * lastBit m ≤ m := by
    rw [lastBit, ← pow_add, Nat.add_sub_cancel' h]
    exact Nat.log2_self_le hm
  have hhigh : m ≤ 2 ^ 53 * lastBit m := by
    rw [lastBit, ← pow_add, show 53 + (Nat.log2 m - 52) = Nat.log2 m + 1 by omega]
    exact Nat.lt_log2_self.le
  exact ⟨(roundTo_mul hpos _).ge.trans (roundTo_mono _ hlow),
    (roundTo_mono _ hhigh).trans (roundTo_mul hpos _).le⟩

theorem rounded_eq_self (h : Nat.log2 m ≤ 52) : rounded m = m := by
  have hlast : lastBit m = 1 := by rw [lastBit, Nat.sub_eq_zero_of_le h, pow_zero]
  have hround := roundTo_mul Nat.one_pos m
  rw [mul_one] at hround
  rw [rounded, hlast, hround, mul_one]

theorem rounded_bounds (hm : m ≠ 0) :
    2 ^ Nat.log2 m ≤ rounded m ∧ rounded m ≤ 2 ^ (Nat.log2 m + 1) := by
  rcases Nat.le_total (Nat.log2 m) 52 with h | h
  · rw [rounded_eq_self h]
    exact ⟨Nat.log2_self_le hm, Nat.lt_log2_self.le⟩
  · obtain ⟨hlow, hhigh⟩ := roundTo_bounds h
    have hsplit : 2 ^ Nat.log2 m = 2 ^ 52 * lastBit m := by
      rw [lastBit, ← pow_add, Nat.add_sub_cancel' h]
    rw [pow_succ, hsplit, rounded, Nat.mul_right_comm]
    exact ⟨Nat.mul_le_mul_right _ hlow, Nat.mul_le_mul_right _ hhigh⟩

theorem rounded_mono {a b : ℕ} (h : a ≤ b) : rounded a ≤ rounded b := by
  rcases Nat.eq_zero_or_pos a with rfl | ha
  · exact Nat.zero_le _
  have hlog : Nat.log2 a ≤ Nat.log2 b := (Nat.le_log2 (by omega)).2 ((Nat.log2_self_le ha.ne').trans h)
  rcases hlog.eq_or_lt with heq | hlt
  · rw [rounded, rounded, lastBit, heq]
    exact Nat.mul_le_mul_right _ (roundTo_mono _ h)
  · -- a power of two lies between them
    calc rounded a ≤ 2 ^ (Nat.log2 a + 1) := (rounded_bounds ha.ne').2
      _ ≤ 2 ^ Nat.log2 b := Nat.pow_le_pow_right (by omega) hlt
      _ ≤ rounded b := (rounded_bounds (by omega)).1

theorem roundedInt_mono {a b : ℤ} (h : a ≤ b) : roundedInt a ≤ roundedInt b := by
  cases a with
  | ofNat m =>
    cases b with
    | ofNat n => exact Int.ofNat_le.2 (rounded_mono (Int.ofNat_le.1 h))
    | negSucc n => exact absurd h (Int.not_le.2 (Int.negSucc_lt_zero n |>.trans_le (Int.natCast_nonneg m)))
  | negSucc m =>
    cases b with
    | ofNat n => exact (Int.neg_nonpos_of_nonneg (Int.natCast_nonneg _)).trans (Int.natCast_nonneg _)
    | negSucc n => exact Int.neg_le_neg (Int.ofNat_le.2 (rounded_mono (by omega)))

theorem natAbs_roundedInt (n : ℤ) : (roundedInt n).natAbs = rounded n.natAbs := by
  cases n with
  | ofNat m => rfl
  | negSucc m => exact Int.natAbs_neg _

theorem roundedInt_eq_self {n : ℤ} (h : n.natAbs ≤ 2 ^ 53) : roundedInt n = n := by
  have hself : ∀ m ≤ 2 ^ 53, rounded m = m := by
    intro m hm
    rcases hm.eq_or_lt with rfl | hlt
    · decide
    · rcases Nat.eq_zero_or_pos m with rfl | hpos
      · rfl
      · exact rounded_eq_self (Nat.le_of_lt_succ ((Nat.log2_lt hpos.ne').2 hlt))
  cases n with
  | ofNat m => exact congrArg Int.ofNat (hself m h)
  | negSucc m => exact congrArg (fun k : ℕ => -(k : ℤ)) (hself (m + 1) h)

end Rounding

theorem magnitude_assemble (negative : Bool) {e s : ℕ} (he : e ≤ 1024)
    (hs : 2 ^ 52 ≤ s) (hs' : s < 2 ^ 53) :
    (assemble negative e s).magnitude = s * 2 ^ (e + 1022) := by
  have hexp : (assemble negative e s).exponent.val = e + 1023 := by
    simp only [assemble, Fin.ofNat]
    omega
  have hfrac : (assemble negative e s).fraction.val = s - 2 ^ 52 := by
    simp only [assemble, Fin.ofNat]
    exact Nat.mod_eq_of_lt (by omega)
  rw [magnitude, hexp, hfrac, if_neg (by omega), Nat.add_sub_cancel' hs]
  rfl

variable {m : ℕ} {n : ℤ}

theorem magnitude_ofMagnitude (negative : Bool) (h : Nat.log2 m ≤ 1023) :
    (ofMagnitude negative m).magnitude = rounded m * 2 ^ 1074 := by
  by_cases h0 : m = 0
  · subst h0
    rw [rounded_eq_self (by decide), Nat.zero_mul]
    rfl
  by_cases he : Nat.log2 m ≤ 52
  · have hexp : 52 - Nat.log2 m + (Nat.log2 m + 1022) = 1074 := by omega
    have hsplit : 2 ^ Nat.log2 m * 2 ^ (52 - Nat.log2 m) = 2 ^ 52 := by
      rw [← pow_add, Nat.add_sub_cancel' he]
    have hge := hsplit ▸ Nat.mul_le_mul_right (2 ^ (52 - Nat.log2 m)) (Nat.log2_self_le h0)
    have hlt := Nat.mul_lt_mul_of_pos_right (Nat.lt_log2_self (n := m))
      (Nat.two_pow_pos (52 - Nat.log2 m))
    rw [pow_succ, Nat.mul_right_comm, hsplit] at hlt
    simp only [ofMagnitude, h0, he, if_false, if_true]
    rw [magnitude_assemble negative (by omega) hge hlt, rounded_eq_self he, Nat.mul_assoc,
      ← pow_add, hexp]
  · have hexp : 2 ^ (Nat.log2 m + 1022) = lastBit m * 2 ^ 1074 := by
      rw [lastBit, ← pow_add]
      congr 1
      omega
    obtain ⟨hlow, hhigh⟩ := roundTo_bounds (m := m) (by omega)
    have hfields : ofMagnitude negative m = if roundTo (lastBit m) m = 2 ^ 53
        then assemble negative (Nat.log2 m + 1) (2 ^ 52)
        else assemble negative (Nat.log2 m) (roundTo (lastBit m) m) := by
      simp only [ofMagnitude, h0, he, if_false]
      rfl
    rw [hfields, rounded, Nat.mul_assoc, ← hexp]
    split_ifs with hcarry
    · have hnext : 52 + (Nat.log2 m + 1 + 1022) = 53 + (Nat.log2 m + 1022) := by omega
      rw [magnitude_assemble negative (by omega) le_rfl (by omega), hcarry, ← pow_add, ← pow_add,
        hnext]
    · exact magnitude_assemble negative (by omega) hlow (by omega)

theorem negative_ofMagnitude (negative : Bool) (h0 : m ≠ 0) :
    (ofMagnitude negative m).negative = negative := by
  simp only [ofMagnitude, h0, if_false, apply_ite Float64.negative, assemble, ite_self]

theorem scaled_ofInt (h : Nat.log2 n.natAbs ≤ 1023) :
    (ofInt n).scaled = roundedInt n * 2 ^ 1074 := by
  have hmag := magnitude_ofMagnitude (decide (n < 0)) h
  rcases eq_or_ne n 0 with rfl | h0
  · rw [roundedInt_eq_self (by decide), zero_mul]
    rfl
  · have hneg := negative_ofMagnitude (decide (n < 0)) (Int.natAbs_ne_zero.mpr h0)
    rw [ofInt, scaled, hneg, hmag, Nat.cast_mul, Nat.cast_pow]
    generalize ((2 : ℕ) : ℤ) ^ 1074 = unit
    cases n with
    | ofNat m => rfl
    | negSucc m =>
      rw [decide_eq_true (Int.negSucc_lt_zero m), if_pos rfl]
      exact (Int.neg_mul _ _).symm

theorem two_pow_le_magnitude {x : Float64} (h : x.exponent.val ≠ 0) :
    2 ^ (52 + (x.exponent.val - 1)) ≤ x.magnitude := by
  rw [magnitude, if_neg h, pow_add]
  exact Nat.mul_le_mul_right _ (Nat.le_add_right _ _)

theorem log2_le_of_le (h : m ≤ 2 ^ 53) : Nat.log2 m ≤ 53 := by
  rcases Nat.eq_zero_or_pos m with rfl | hpos
  · decide
  · exact Nat.le_of_lt_succ ((Nat.log2_lt hpos.ne').2 (by omega))

theorem nearest_eq_ofInt (h : n.natAbs ≤ 2 ^ 53) : nearest n = ofInt n := by
  have hlog := log2_le_of_le h
  exact if_neg (by omega)

theorem isFinite_nearest (h : n.natAbs ≤ 2 ^ 53) : (nearest n).isFinite = true := by
  have hlog := log2_le_of_le h
  rw [nearest_eq_ofInt h, isFinite, bne_iff_ne]
  intro hexp
  have hvalue : (ofInt n).exponent.val = 2047 := congrArg Fin.val hexp
  have hmag : (ofInt n).magnitude ≤ 2 ^ (53 + 1074) := by
    rw [ofInt, magnitude_ofMagnitude _ (by omega), ← natAbs_roundedInt, roundedInt_eq_self h, pow_add]
    exact Nat.mul_le_mul_right _ h
  have hpow := (two_pow_le_magnitude (by omega)).trans hmag
  have := (Nat.pow_le_pow_iff_right (by omega)).mp hpow
  omega

theorem scaled_nearest (h : (nearest n).isFinite = true) :
    (nearest n).scaled = roundedInt n * 2 ^ 1074 := by
  by_cases hlog : 1024 ≤ Nat.log2 n.natAbs
  · rw [nearest, if_pos hlog] at h
    cases h
  · rw [nearest, if_neg hlog, scaled_ofInt (by omega)]

theorem isNaN_of_isFinite {x : Float64} (h : x.isFinite = true) : x.isNaN = false := by
  rw [isNaN, beq_eq_false_iff_ne.2 (bne_iff_ne.1 h), Bool.false_and]

theorem compare_nearest {a b : ℤ} (ha : (nearest a).isFinite = true)
    (hb : (nearest b).isFinite = true) :
    lt (nearest a) (nearest b) = decide (roundedInt a < roundedInt b) ∧
      le (nearest a) (nearest b) = decide (roundedInt a ≤ roundedInt b) ∧
      eq (nearest a) (nearest b) = decide (roundedInt a = roundedInt b) := by
  have hunit : (0 : ℤ) < 2 ^ 1074 := by positivity
  simp only [lt, le, eq, isNaN_of_isFinite ha, isNaN_of_isFinite hb, scaled_nearest ha,
    scaled_nearest hb, Bool.not_false, Bool.true_and]
  refine ⟨decide_eq_decide.2 ?_, decide_eq_decide.2 ?_, decide_eq_decide.2 ?_⟩
  · exact mul_lt_mul_iff_left₀ hunit
  · exact mul_le_mul_iff_left₀ hunit
  · exact mul_left_inj' hunit.ne'

end Float64

end PraxisPolicy.BinaryFloats
