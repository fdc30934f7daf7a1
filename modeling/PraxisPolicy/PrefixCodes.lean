import Mathlib.Data.List.Forall2
import Mathlib.Tactic.Ring

/-!
# Encodings that can be read back

Two texts of this kind that begin alike agree element by element, and in what comes after.
-/

namespace PraxisPolicy.PrefixCodes

def bytesLE : ℕ → ℕ → List UInt8
  | 0, _ => []
  | width + 1, n => UInt8.ofNat (n % 256) :: bytesLE width (n / 256)

def bytesBE (width n : ℕ) : List UInt8 := (bytesLE width n).reverse

@[simp] theorem length_bytesLE (width n : ℕ) : (bytesLE width n).length = width := by
  induction width generalizing n with
  | zero => rfl
  | succ width ih => rw [bytesLE, List.length_cons, ih]

@[simp] theorem length_bytesBE (width n : ℕ) : (bytesBE width n).length = width := by
  rw [bytesBE, List.length_reverse, length_bytesLE]

theorem bytesLE_inj {width m n : ℕ} (hm : m < 256 ^ width) (hn : n < 256 ^ width)
    (h : bytesLE width m = bytesLE width n) : m = n := by
  induction width generalizing m n with
  | zero =>
    rw [pow_zero, Nat.lt_one_iff] at hm hn
    rw [hm, hn]
  | succ width ih =>
    rw [bytesLE, bytesLE, List.cons.injEq] at h
    have hlow : m % 256 = n % 256 := by
      have hbyte := congrArg UInt8.toNat h.1
      rw [UInt8.toNat_ofNat', UInt8.toNat_ofNat'] at hbyte
      omega
    have hhigh : m / 256 = n / 256 := by
      rw [pow_succ] at hm hn
      refine ih ?_ ?_ h.2
      · exact Nat.div_lt_of_lt_mul (by rwa [Nat.mul_comm])
      · exact Nat.div_lt_of_lt_mul (by rwa [Nat.mul_comm])
    omega

theorem bytesBE_inj {width m n : ℕ} (hm : m < 256 ^ width) (hn : n < 256 ^ width)
    (h : bytesBE width m = bytesBE width n) : m = n :=
  bytesLE_inj hm hn (List.reverse_injective h)

section Frames

/-- In a fixed number of bytes, and differently below a limit. -/
structure LengthCode where
  write : ℕ → List UInt8
  width : ℕ
  limit : ℕ
  length_write : ∀ n, (write n).length = width
  write_inj : ∀ {m n}, m < limit → n < limit → write m = write n → m = n

variable (code : LengthCode) {α : Type*}

def framed (bytes : List UInt8) : List UInt8 := code.write bytes.length ++ bytes

def counted (enc : α → List UInt8) (items : List α) : List UInt8 :=
  code.write items.length ++ items.flatMap enc

def optional (enc : α → List UInt8) : Option α → List UInt8
  | none => [0x00]
  | some x => 0x01 :: enc x

variable {code}

@[simp] theorem length_framed (bytes : List UInt8) :
    (framed code bytes).length = code.width + bytes.length := by
  rw [framed, List.length_append, code.length_write]

theorem length_counted (enc : α → List UInt8) (items : List α) :
    (counted code enc items).length = code.width + (items.flatMap enc).length := by
  rw [counted, List.length_append, code.length_write]

theorem counted_map {β : Type*} (enc : β → List UInt8) (f : α → β) (items : List α) :
    counted code enc (items.map f) = counted code (fun x => enc (f x)) items := by
  rw [counted, counted, List.length_map, List.flatMap_map]

variable {r s : List UInt8} {enc : α → List UInt8} {R : α → α → Prop}

theorem write_append_inj {m n : ℕ} (hm : m < code.limit) (hn : n < code.limit)
    (h : code.write m ++ r = code.write n ++ s) : m = n ∧ r = s := by
  have hsplit := List.append_inj h (by rw [code.length_write, code.length_write])
  exact ⟨code.write_inj hm hn hsplit.1, hsplit.2⟩

theorem framed_append_inj {a b : List UInt8} (ha : a.length < code.limit)
    (hb : b.length < code.limit) (h : framed code a ++ r = framed code b ++ s) : a = b ∧ r = s := by
  rw [framed, framed, List.append_assoc, List.append_assoc] at h
  obtain ⟨hlength, hrest⟩ := write_append_inj ha hb h
  exact List.append_inj hrest hlength

theorem flatMap_append_inj {l m : List α} (hlength : l.length = m.length)
    (henc : ∀ x ∈ l, ∀ y ∈ m, ∀ r s, enc x ++ r = enc y ++ s → R x y ∧ r = s)
    (h : l.flatMap enc ++ r = m.flatMap enc ++ s) : List.Forall₂ R l m ∧ r = s := by
  induction l generalizing m with
  | nil =>
    obtain rfl : m = [] := List.length_eq_zero_iff.1 hlength.symm
    exact ⟨.nil, h⟩
  | cons x l ih =>
    cases m with
    | nil => cases hlength
    | cons y m =>
      rw [List.flatMap_cons, List.flatMap_cons, List.append_assoc, List.append_assoc] at h
      obtain ⟨hhead, hrest⟩ := henc x List.mem_cons_self y List.mem_cons_self _ _ h
      obtain ⟨htail, hend⟩ := ih (Nat.succ.inj hlength)
        (fun x' hx' y' hy' => henc x' (List.mem_cons_of_mem _ hx') y' (List.mem_cons_of_mem _ hy'))
        hrest
      exact ⟨.cons hhead htail, hend⟩

theorem counted_append_inj {l m : List α} (hl : l.length < code.limit) (hm : m.length < code.limit)
    (henc : ∀ x ∈ l, ∀ y ∈ m, ∀ r s, enc x ++ r = enc y ++ s → R x y ∧ r = s)
    (h : counted code enc l ++ r = counted code enc m ++ s) : List.Forall₂ R l m ∧ r = s := by
  rw [counted, counted, List.append_assoc, List.append_assoc] at h
  obtain ⟨hlength, hrest⟩ := write_append_inj hl hm h
  exact flatMap_append_inj hlength henc hrest

theorem optional_append_inj {a b : Option α}
    (henc : ∀ x ∈ a, ∀ y ∈ b, ∀ r s, enc x ++ r = enc y ++ s → R x y ∧ r = s)
    (h : optional enc a ++ r = optional enc b ++ s) : Option.Rel R a b ∧ r = s := by
  cases a with
  | none =>
    cases b with
    | none => exact ⟨.none, (List.cons.inj h).2⟩
    | some y => exact absurd (List.cons.inj h).1 (by decide)
  | some x =>
    cases b with
    | none => exact absurd (List.cons.inj h).1 (by decide)
    | some y =>
      obtain ⟨hvalue, hrest⟩ := henc x rfl y rfl r s (List.cons.inj h).2
      exact ⟨.some hvalue, hrest⟩

theorem length_le_length_flatMap {items : List α} (h : ∀ x ∈ items, enc x ≠ []) :
    items.length ≤ (items.flatMap enc).length := by
  induction items with
  | nil => exact Nat.zero_le _
  | cons x items ih =>
    have hpos := List.length_pos_iff.2 (h x List.mem_cons_self)
    have htail := ih fun y hy => h y (List.mem_cons_of_mem _ hy)
    rw [List.flatMap_cons, List.length_append, List.length_cons]
    omega

theorem length_le_of_mem_flatMap (enc : α → List UInt8) {items : List α} {x : α}
    (h : x ∈ items) : (enc x).length ≤ (items.flatMap enc).length := by
  obtain ⟨before, after, rfl⟩ := List.append_of_mem h
  simp only [List.flatMap_append, List.flatMap_cons, List.length_append]
  omega

end Frames

end PraxisPolicy.PrefixCodes
