import Mathlib.Data.Char
import Mathlib.Data.List.Forall2
import PraxisPolicy.EncodedText

/-!
# Texts of paths

A path is put together from the pieces of a template with one text between them, sent with
percent-escapes, and read by segments.
-/

namespace PraxisPolicy.PathTexts

open EncodedText

section Pieces

variable {α : Type*}

/-- At every occurrence, left to right; `skip` elements of one are still to be passed over. -/
def cutAt [DecidableEq α] (pattern : List α) : ℕ → List α → List (List α)
  | _, [] => [[]]
  | skip + 1, _ :: rest => cutAt pattern skip rest
  | 0, c :: rest =>
    if pattern.isPrefixOf (c :: rest) then [] :: cutAt pattern (pattern.length - 1) rest
    else (cutAt pattern 0 rest).modifyHead (c :: ·)

theorem cutAt_ne_nil [DecidableEq α] (pattern : List α) (skip : ℕ) (text : List α) :
    cutAt pattern skip text ≠ [] := by
  induction text generalizing skip with
  | nil => simp [cutAt]
  | cons c rest ih =>
    cases skip with
    | zero =>
      rw [cutAt]
      split_ifs
      · exact List.cons_ne_nil _ _
      · simpa [List.modifyHead_eq_nil_iff] using ih 0
    | succ skip => exact ih skip

theorem two_le_length_cutAt [DecidableEq α] {pattern text : List α} (hpattern : pattern ≠ [])
    (h : pattern <:+: text) : 2 ≤ (cutAt pattern 0 text).length := by
  induction text with
  | nil => exact absurd (List.infix_nil.1 h) hpattern
  | cons c rest ih =>
    rw [cutAt]
    split_ifs with hhere
    · have hrest := List.length_pos_iff.2 (cutAt_ne_nil pattern (pattern.length - 1) rest)
      rw [List.length_cons]
      omega
    · rcases List.infix_cons_iff.1 h with hstart | hlater
      · exact absurd (List.isPrefixOf_iff_prefix.2 hstart) hhere
      · rw [List.length_modifyHead]
        exact ih hlater

theorem mem_of_mem_cutAt [DecidableEq α] {pattern text piece : List α} {skip : ℕ}
    (hpiece : piece ∈ cutAt pattern skip text) {c : α} (hc : c ∈ piece) : c ∈ text := by
  induction text generalizing skip piece with
  | nil =>
    simp only [cutAt, List.mem_singleton] at hpiece
    rw [hpiece] at hc
    exact hc
  | cons d rest ih =>
    cases skip with
    | succ skip => exact List.mem_cons_of_mem _ (ih hpiece hc)
    | zero =>
      rw [cutAt] at hpiece
      split_ifs at hpiece
      · rcases List.mem_cons.1 hpiece with rfl | hpiece
        · cases hc
        · exact List.mem_cons_of_mem _ (ih hpiece hc)
      · -- the first piece begins with this element
        obtain ⟨first, others, hcut⟩ := List.exists_cons_of_ne_nil (cutAt_ne_nil pattern 0 rest)
        rw [hcut, List.modifyHead_cons] at hpiece
        rcases List.mem_cons.1 hpiece with rfl | hpiece
        · rcases List.mem_cons.1 hc with rfl | hc
          · exact List.mem_cons_self
          · exact List.mem_cons_of_mem _ (ih (hcut ▸ List.mem_cons_self) hc)
        · exact List.mem_cons_of_mem _ (ih (hcut ▸ List.mem_cons_of_mem _ hpiece) hc)

theorem length_intercalate (text : List α) (first : List α) (pieces : List (List α)) :
    (text.intercalate (first :: pieces)).length =
      (first :: pieces).flatten.length + pieces.length * text.length := by
  induction pieces generalizing first with
  | nil => simp
  | cons piece pieces ih =>
    rw [List.intercalate_cons_cons, List.length_append, List.length_append, ih]
    simp only [List.flatten_cons, List.length_append, List.length_cons, Nat.succ_mul]
    omega

theorem intercalate_inj {pieces : List (List α)} (hpieces : 2 ≤ pieces.length) {v w : List α}
    (h : v.intercalate pieces = w.intercalate pieces) : v = w := by
  obtain ⟨first, next, rest, rfl⟩ : ∃ first next rest, pieces = first :: next :: rest := by
    match pieces, hpieces with
    | first :: next :: rest, _ => exact ⟨first, next, rest, rfl⟩
  have hlength : v.length = w.length := by
    have hall := congrArg List.length h
    rw [length_intercalate, length_intercalate] at hall
    exact Nat.eq_of_mul_eq_mul_left (Nat.succ_pos _) (Nat.add_left_cancel hall)
  rw [List.intercalate_cons_cons, List.intercalate_cons_cons] at h
  have hbehind := List.append_cancel_left (by simpa only [List.append_assoc] using h)
  exact (List.append_inj hbehind hlength).1

end Pieces

section Escapes

def hexValue (c : Char) : Option ℕ :=
  if '0' ≤ c ∧ c ≤ '9' then some (c.toNat - 48)
  else if 'a' ≤ c ∧ c ≤ 'f' then some (c.toNat - 87)
  else if 'A' ≤ c ∧ c ≤ 'F' then some (c.toNat - 55)
  else none

variable {c : Char} {text front back : List Char}

theorem hexValue_bounds {n : ℕ} (h : hexValue c = some n) :
    c.toNat < 128 ∧ n < 16 := by
  unfold hexValue at h
  split_ifs at h with hdigit hlower hupper
  · have hle : c.toNat ≤ 57 := hdigit.2
    have hn := Option.some.inj h
    omega
  · have hle : c.toNat ≤ 102 := hlower.2
    have hn := Option.some.inj h
    omega
  · have hle : c.toNat ≤ 70 := hupper.2
    have hn := Option.some.inj h
    omega

theorem hexValue_cases {n : ℕ} {P : Char → Prop} (h : hexValue c = some n)
    (hall : ∀ code < 128, hexValue (Char.ofNat code) = some n → P (Char.ofNat code)) : P c := by
  have hcode := hall c.toNat (hexValue_bounds h).1
  rw [Char.ofNat_toNat] at hcode
  exact hcode h

def escaped (c a b : Char) : Option UInt8 :=
  if c = '%' then do return UInt8.ofNat (16 * (← hexValue a) + (← hexValue b)) else none

/-- An escape stands for its byte, any other character for its UTF-8. -/
def percentDecode : List Char → List UInt8
  | c :: a :: b :: rest =>
    match escaped c a b with
    | some byte => byte :: percentDecode rest
    | none => String.utf8EncodeChar c ++ percentDecode (a :: b :: rest)
  | [c, a] => String.utf8EncodeChar c ++ String.utf8EncodeChar a
  | [c] => String.utf8EncodeChar c
  | [] => []

/-- An escape that begins in one text and ends in the next. -/
def Straddles (front back : List Char) : Prop :=
  ∃ c a b, (escaped c a b).isSome ∧
    ((([c] <:+ front) ∧ [a, b] <+: back) ∨ (([c, a] <:+ front) ∧ [b] <+: back))

theorem escaped_isSome {a b : Char} (h : (escaped c a b).isSome) : c = '%' := by
  unfold escaped at h
  split_ifs at h with hc
  · exact hc
  · cases h

theorem escaped_eq_some {a b : Char} {byte : UInt8} (h : escaped c a b = some byte) :
    c = '%' ∧ ∃ x y, hexValue a = some x ∧ hexValue b = some y ∧
      UInt8.ofNat (16 * x + y) = byte := by
  have hc := escaped_isSome (by rw [h]; rfl)
  simpa [escaped, hc, Option.bind_eq_some_iff] using h

theorem percentDecode_cons (rest : List Char)
    (h : ∀ a b after, rest = a :: b :: after → escaped c a b = none) :
    percentDecode (c :: rest) = String.utf8EncodeChar c ++ percentDecode rest := by
  match rest with
  | [] => simp [percentDecode]
  | [a] => simp [percentDecode]
  | a :: b :: after =>
    rw [percentDecode, h a b after rfl]

theorem percentDecode_escaped {a b : Char} {byte : UInt8} (h : escaped c a b = some byte)
    (rest : List Char) : percentDecode (c :: a :: b :: rest) = byte :: percentDecode rest := by
  rw [percentDecode, h]

theorem percentDecode_of_not_mem (h : '%' ∉ text) :
    percentDecode text = text.flatMap String.utf8EncodeChar := by
  induction text with
  | nil => rfl
  | cons c rest ih =>
    rw [List.mem_cons, not_or] at h
    rw [percentDecode_cons rest, ih h.2, List.flatMap_cons]
    intro a b after _
    rw [escaped, if_neg (Ne.symm h.1)]

theorem Straddles.of_suffix {longer : List Char} (h : Straddles front back)
    (hlonger : front <:+ longer) : Straddles longer back := by
  obtain ⟨c, a, b, hsome, hcut⟩ := h
  refine ⟨c, a, b, hsome, ?_⟩
  exact hcut.imp (And.imp_left (·.trans hlonger)) (And.imp_left (·.trans hlonger))

theorem escaped_eq_none_of_last (h : ¬Straddles front back) (hlast : [c] <:+ front) (a b : Char)
    (after : List Char) (hback : back = a :: b :: after) : escaped c a b = none := by
  by_contra hsome
  rw [← ne_eq, Option.ne_none_iff_isSome] at hsome
  exact h ⟨c, a, b, hsome, .inl ⟨hlast, after, hback.symm⟩⟩

theorem percentDecode_append (h : ¬Straddles front back) :
    percentDecode (front ++ back) = percentDecode front ++ percentDecode back := by
  induction front using percentDecode.induct with
  | case1 c a b rest byte hbyte ih =>
    have htail : ¬Straddles rest back := fun hs => h (hs.of_suffix ⟨[c, a, b], rfl⟩)
    simp only [List.cons_append, percentDecode_escaped hbyte, ih htail]
  | case2 c a b rest hnone ih =>
    have htail : ¬Straddles (a :: b :: rest) back := fun hs => h (hs.of_suffix ⟨[c], rfl⟩)
    have hcons (after : List Char) : percentDecode (c :: a :: b :: after) =
        String.utf8EncodeChar c ++ percentDecode (a :: b :: after) := by
      rw [percentDecode, hnone]
    have ih := ih htail
    simp only [List.cons_append] at ih ⊢
    rw [hcons, hcons, ih, List.append_assoc]
  | case3 c a =>
    have hfirst : percentDecode (c :: a :: back) =
        String.utf8EncodeChar c ++ percentDecode (a :: back) := by
      refine percentDecode_cons _ fun a' b after hrest => ?_
      obtain ⟨rfl, hback⟩ := List.cons.inj hrest
      by_contra hsome
      rw [← ne_eq, Option.ne_none_iff_isSome] at hsome
      exact h ⟨c, a, b, hsome, .inr ⟨List.suffix_rfl, after, hback.symm⟩⟩
    have hsecond : percentDecode (a :: back) = String.utf8EncodeChar a ++ percentDecode back :=
      percentDecode_cons _ (escaped_eq_none_of_last h ⟨[c], rfl⟩)
    simp only [List.cons_append, List.nil_append, hfirst, hsecond, percentDecode,
      List.append_assoc]
  | case4 c =>
    have hfirst : percentDecode (c :: back) = String.utf8EncodeChar c ++ percentDecode back :=
      percentDecode_cons _ (escaped_eq_none_of_last h List.suffix_rfl)
    simpa only [List.cons_append, List.nil_append, percentDecode] using hfirst
  | case5 => rfl

theorem not_straddles_of_not_mem (h : '%' ∉ front) :
    ¬Straddles front back := by
  rintro ⟨c, a, b, hsome, hcut⟩
  obtain rfl := escaped_isSome hsome
  rcases hcut with ⟨hsuffix, -⟩ | ⟨hsuffix, -⟩
  · exact h (hsuffix.subset List.mem_cons_self)
  · exact h (hsuffix.subset List.mem_cons_self)

theorem not_straddles_slash (front back : List Char) : ¬Straddles (front ++ ['/']) back := by
  rintro ⟨c, a, b, hsome, hcut⟩
  obtain rfl := escaped_isSome hsome
  rcases hcut with ⟨hsuffix, -⟩ | ⟨hsuffix, -⟩
  · have hlast := hsuffix.getLast (by simp)
    simp at hlast
  · have hlast := hsuffix.getLast (by simp)
    simp only [List.getLast_append_singleton] at hlast
    subst hlast
    simp [escaped, hexValue] at hsome

/-- No copy of the text is completed to an escape by what stands behind it. -/
def ClosedIn (text : List Char) : List (List Char) → Prop
  | _ :: next :: rest => ¬Straddles text (text.intercalate (next :: rest)) ∧
      ClosedIn text (next :: rest)
  | _ => True

theorem closedIn_of_not_mem (h : '%' ∉ text) (pieces : List (List Char)) :
    ClosedIn text pieces := by
  induction pieces with
  | nil => trivial
  | cons piece pieces ih =>
    cases pieces with
    | nil => trivial
    | cons next rest => exact ⟨not_straddles_of_not_mem h, ih⟩

theorem percentDecode_intercalate {pieces : List (List Char)}
    (hpieces : ∀ piece ∈ pieces, '%' ∉ piece) (hclosed : ClosedIn text pieces) :
    percentDecode (text.intercalate pieces) =
      (percentDecode text).intercalate
        (pieces.map fun piece => piece.flatMap String.utf8EncodeChar) := by
  induction pieces with
  | nil => rfl
  | cons piece pieces ih =>
    have hpiece := hpieces piece List.mem_cons_self
    cases pieces with
    | nil => simpa using percentDecode_of_not_mem hpiece
    | cons next rest =>
      have ih := ih (fun other hother => hpieces other (List.mem_cons_of_mem _ hother)) hclosed.2
      rw [List.intercalate_cons_cons, List.append_assoc,
        percentDecode_append (not_straddles_of_not_mem hpiece), percentDecode_append hclosed.1, ih,
        percentDecode_of_not_mem hpiece]
      simp only [List.map_cons, List.intercalate_cons_cons, List.append_assoc]

end Escapes

section Segments

/-- What separates segments, and what dot segments are made of. -/
structure Marks (α : Type) where
  slash : α
  dot : α
  dot_ne_slash : dot ≠ slash

variable {α β : Type} [DecidableEq α] [DecidableEq β] (m : Marks α)

def HasDotSegment (text : List α) : Prop :=
  ∃ segment ∈ text.splitOn m.slash, segment = [m.dot] ∨ segment = [m.dot, m.dot]

instance (text : List α) : Decidable (HasDotSegment m text) :=
  inferInstanceAs (Decidable (∃ segment ∈ _, _))

/-- Nothing, one dot, two dots, anything else. -/
def readMark (read : ℕ) (c : α) : ℕ := if c = m.dot then min 3 (read + 1) else 3

def isDots (read : ℕ) : Bool := read == 1 || read == 2

def closesDots : ℕ → List α → Bool
  | _, [] => false
  | read, c :: rest =>
    if c = m.slash then isDots read || closesDots 0 rest else closesDots (readMark m read c) rest

def readAfter : ℕ → List α → ℕ
  | read, [] => read
  | read, c :: rest => if c = m.slash then readAfter 0 rest else readAfter (readMark m read c) rest

theorem closesDots_append (read : ℕ) (front back : List α) :
    closesDots m read (front ++ back) =
      (closesDots m read front || closesDots m (readAfter m read front) back) := by
  induction front generalizing read with
  | nil => rfl
  | cons c rest ih =>
    simp only [List.cons_append, closesDots, readAfter]
    split_ifs
    · rw [ih, Bool.or_assoc]
    · rw [ih]

theorem readAfter_append (read : ℕ) (front back : List α) :
    readAfter m read (front ++ back) = readAfter m (readAfter m read front) back := by
  induction front generalizing read with
  | nil => rfl
  | cons c rest ih =>
    simp only [List.cons_append, readAfter]
    split_ifs
    · rw [ih]
    · rw [ih]

theorem isDots_eq_false {read : ℕ} : isDots read = false ↔ read ≠ 1 ∧ read ≠ 2 := by
  simp [isDots]

theorem readMark_mono {low high : ℕ} (h : low ≤ high) (c : α) :
    1 ≤ readMark m low c ∧ readMark m low c ≤ readMark m high c ∧ readMark m high c ≤ 3 := by
  unfold readMark
  split_ifs <;> omega

theorem readMark_three (c : α) : readMark m 3 c = 3 := by
  unfold readMark
  split_ifs <;> rfl

variable {segment : List α}

theorem readAfter_three (h : m.slash ∉ segment) : readAfter m 3 segment = 3 := by
  induction segment with
  | nil => rfl
  | cons c rest ih =>
    rw [List.mem_cons, not_or] at h
    rw [readAfter, if_neg (Ne.symm h.1), readMark_three, ih h.2]

theorem isDots_readAfter (h : m.slash ∉ segment) :
    isDots (readAfter m 0 segment) = true ↔ segment = [m.dot] ∨ segment = [m.dot, m.dot] := by
  match segment with
  | [] => simp [readAfter, isDots]
  | [a] =>
    rw [List.mem_singleton] at h
    by_cases ha : a = m.dot <;> simp [readAfter, readMark, isDots, Ne.symm h, ha, m.dot_ne_slash]
  | [a, b] =>
    simp only [List.mem_cons, List.not_mem_nil, or_false, not_or] at h
    by_cases ha : a = m.dot <;> by_cases hb : b = m.dot <;>
      simp [readAfter, readMark, isDots, Ne.symm h.1, Ne.symm h.2, ha, hb, m.dot_ne_slash]
  | a :: b :: c :: rest =>
    simp only [List.mem_cons, not_or] at h
    have hthree : readMark m (readMark m (readMark m 0 a) b) c = 3 := by
      unfold readMark
      split_ifs <;> rfl
    simp [readAfter, Ne.symm h.1, Ne.symm h.2.1, Ne.symm h.2.2.1, hthree,
      readAfter_three m h.2.2.2, isDots]

theorem hasDotSegment_append_iff {read : List α} (hread : m.slash ∉ read) (text : List α) :
    HasDotSegment m (read ++ text) ↔
      (closesDots m (readAfter m 0 read) text ||
        isDots (readAfter m (readAfter m 0 read) text)) = true := by
  induction text generalizing read with
  | nil =>
    rw [HasDotSegment, List.append_nil, List.splitOn_eq_singleton hread]
    simp [closesDots, readAfter, isDots_readAfter m hread]
  | cons c rest ih =>
    by_cases hc : c = m.slash
    · subst hc
      have hsplit : (read ++ m.slash :: rest).splitOn m.slash =
          read :: rest.splitOn m.slash := by
        rw [List.splitOn_eq_splitOnP, List.splitOnP_append_cons _ _ (by simp),
          ← List.splitOn_eq_splitOnP, ← List.splitOn_eq_splitOnP,
          List.splitOn_eq_singleton hread, List.singleton_append]
      have hrest : HasDotSegment m rest ↔
          (closesDots m 0 rest || isDots (readAfter m 0 rest)) = true :=
        ih List.not_mem_nil
      have hwhole : HasDotSegment m (read ++ m.slash :: rest) ↔
          (read = [m.dot] ∨ read = [m.dot, m.dot]) ∨ HasDotSegment m rest := by
        rw [HasDotSegment, hsplit]
        simp only [List.mem_cons, exists_eq_or_imp, HasDotSegment]
      rw [hwhole, hrest, ← isDots_readAfter m hread]
      simp only [closesDots, readAfter, if_true, Bool.or_eq_true, or_assoc]
    · have hread' : m.slash ∉ read ++ [c] := by
        simp [hread, Ne.symm hc]
      have hnext := ih hread'
      rw [List.append_assoc, List.singleton_append, readAfter_append] at hnext
      simpa only [readAfter, closesDots, if_neg hc] using hnext

theorem hasDotSegment_iff (text : List α) :
    HasDotSegment m text ↔
      (closesDots m 0 text || isDots (readAfter m 0 text)) = true :=
  hasDotSegment_append_iff m List.not_mem_nil text

/-- A reader of segments takes them alike, wherever they stand. -/
def ReadAlike (m : Marks α) (k : Marks β) (x : List α) (y : List β) : Prop :=
  ∀ read, closesDots m read x = closesDots k read y ∧ readAfter m read x = readAfter k read y

variable {m} {k : Marks β}

variable {x text : List α} {y : List β}

theorem ReadAlike.hasDotSegment (h : ReadAlike m k x y) :
    HasDotSegment m x ↔ HasDotSegment k y := by
  rw [hasDotSegment_iff, hasDotSegment_iff, (h 0).1, (h 0).2]

theorem ReadAlike.append {x' : List α} {y' : List β} (h : ReadAlike m k x y)
    (h' : ReadAlike m k x' y') : ReadAlike m k (x ++ x') (y ++ y') := by
  intro read
  rw [closesDots_append, closesDots_append, readAfter_append, readAfter_append, (h read).1,
    (h read).2, (h' _).1, (h' _).2]
  exact ⟨rfl, rfl⟩

theorem ReadAlike.intercalate (h : ReadAlike m k x y) {pieces : List (List α)}
    {others : List (List β)} (hpieces : List.Forall₂ (ReadAlike m k) pieces others) :
    ReadAlike m k (x.intercalate pieces) (y.intercalate others) := by
  induction hpieces with
  | nil => exact fun _ => ⟨rfl, rfl⟩
  | cons hfirst hrest ih =>
    cases hrest with
    | nil => simpa using hfirst
    | cons hnext hrest =>
      rw [List.intercalate_cons_cons, List.intercalate_cons_cons]
      exact (hfirst.append h).append ih

theorem read_unmarked (hne : text ≠ []) (hslash : m.slash ∉ text) (hdot : m.dot ∉ text) (read : ℕ) :
    closesDots m read text = false ∧ readAfter m read text = 3 := by
  induction text generalizing read with
  | nil => exact absurd rfl hne
  | cons c rest ih =>
    rw [List.mem_cons, not_or] at hslash hdot
    rw [closesDots, readAfter, if_neg (Ne.symm hslash.1), if_neg (Ne.symm hslash.1), readMark,
      if_neg (Ne.symm hdot.1)]
    cases rest with
    | nil => exact ⟨rfl, rfl⟩
    | cons d rest => exact ih (List.cons_ne_nil _ _) hslash.2 hdot.2 3

theorem readAlike_unmarked (hx : x ≠ []) (hy : y ≠ []) (hxmarks : m.slash ∉ x ∧ m.dot ∉ x)
    (hymarks : k.slash ∉ y ∧ k.dot ∉ y) :
    ReadAlike m k x y := by
  intro read
  obtain ⟨hxcloses, hxafter⟩ := read_unmarked hx hxmarks.1 hxmarks.2 read
  obtain ⟨hycloses, hyafter⟩ := read_unmarked hy hymarks.1 hymarks.2 read
  rw [hxcloses, hycloses, hxafter, hyafter]
  exact ⟨rfl, rfl⟩

theorem read_further {low high : ℕ} (hlow : 1 ≤ low) (hle : low ≤ high) (hhigh : high ≤ 3)
    (hcloses : closesDots m low text = false) (hafter : isDots (readAfter m low text) = false) :
    closesDots m high text = false ∧ readAfter m high text = readAfter m low text := by
  have hthree (hdots : isDots low = false) : low = 3 ∧ high = 3 := by
    rw [isDots_eq_false] at hdots
    omega
  induction text generalizing low high with
  | nil =>
    obtain ⟨rfl, rfl⟩ := hthree hafter
    exact ⟨rfl, rfl⟩
  | cons c rest ih =>
    by_cases hc : c = m.slash
    · simp only [closesDots, readAfter, if_pos hc, Bool.or_eq_false_iff] at hcloses ⊢
      obtain ⟨rfl, rfl⟩ := hthree hcloses.1
      exact ⟨hcloses, trivial⟩
    · simp only [closesDots, readAfter, if_neg hc] at hcloses hafter ⊢
      have hmarks := readMark_mono m hle c
      refine ih hmarks.1 hmarks.2.1 hmarks.2.2 hcloses hafter fun hdots => ?_
      rw [isDots_eq_false] at hdots
      omega

/-- Without dot segments only the slashes at the ends matter. -/
theorem read_of_not_hasDotSegment (hne : text ≠ []) (h : ¬HasDotSegment m text) (read : ℕ) :
    closesDots m read text = (decide (text.head? = some m.slash) && isDots read) ∧
      readAfter m read text = if text.getLast? = some m.slash then 0 else 3 := by
  rw [hasDotSegment_iff, Bool.or_eq_true, not_or, Bool.not_eq_true, Bool.not_eq_true] at h
  have hsame : closesDots m read text = (decide (text.head? = some m.slash) && isDots read) ∧
      readAfter m read text = readAfter m 0 text := by
    cases text with
    | nil => exact absurd rfl hne
    | cons c rest =>
      by_cases hc : c = m.slash
      · simp only [closesDots, readAfter, if_pos hc, Bool.or_eq_false_iff] at h ⊢
        simp [h.1.2, hc]
      · simp only [closesDots, readAfter, if_neg hc] at h ⊢
        have hmarks := readMark_mono m (Nat.zero_le read) c
        obtain ⟨hcloses, hafter⟩ := read_further hmarks.1 hmarks.2.1 hmarks.2.2 h.1 h.2
        simp [hcloses, hafter, hc]
  refine ⟨hsame.1, hsame.2.trans ?_⟩
  obtain ⟨front, c, rfl⟩ : ∃ front c, text = front ++ [c] :=
    ⟨text.dropLast, text.getLast hne, (List.dropLast_append_getLast hne).symm⟩
  have hafter := h.2
  rw [readAfter_append] at hafter ⊢
  simp only [readAfter, List.getLast?_concat, Option.some.injEq] at hafter ⊢
  split_ifs with hc
  · rfl
  · rw [if_neg hc, isDots_eq_false] at hafter
    have hmarks := readMark_mono m (le_refl (readAfter m 0 front)) c
    omega

theorem readAlike_of_ends (hx : x ≠ []) (hy : y ≠ []) (hxdots : ¬HasDotSegment m x)
    (hydots : ¬HasDotSegment k y) (hhead : x.head? = some m.slash ↔ y.head? = some k.slash)
    (hlast : x.getLast? = some m.slash ↔ y.getLast? = some k.slash) : ReadAlike m k x y := by
  intro read
  obtain ⟨hxcloses, hxafter⟩ := read_of_not_hasDotSegment hx hxdots read
  obtain ⟨hycloses, hyafter⟩ := read_of_not_hasDotSegment hy hydots read
  rw [hxcloses, hycloses, hxafter, hyafter]
  simp only [hhead, hlast, and_self]

end Segments

def charMarks : Marks Char := ⟨'/', '.', by decide⟩

def byteMarks : Marks UInt8 := ⟨47, 46, by decide⟩

theorem readAlike_utf8EncodeChar (c : Char) :
    ReadAlike byteMarks charMarks (String.utf8EncodeChar c) [c] := by
  by_cases hslash : c = '/'
  · subst hslash
    exact fun read => ⟨rfl, rfl⟩
  by_cases hdot : c = '.'
  · subst hdot
    exact fun read => ⟨rfl, rfl⟩
  have hmark {byte : UInt8} (hbyte : byte.toNat < 128) (hne : c ≠ Char.ofNat byte.toNat) :
      byte ∉ String.utf8EncodeChar c := by
    rw [ascii_mem_utf8EncodeChar hbyte]
    intro heq
    rw [← heq, Char.ofNat_toNat] at hne
    exact hne rfl
  refine readAlike_unmarked (by simp) (List.cons_ne_nil _ _)
    ⟨hmark (by decide) hslash, hmark (by decide) hdot⟩ ?_
  simp [charMarks, Ne.symm hslash, Ne.symm hdot]

theorem readAlike_utf8 (text : List Char) :
    ReadAlike byteMarks charMarks (text.flatMap String.utf8EncodeChar) text := by
  induction text with
  | nil => exact fun _ => ⟨rfl, rfl⟩
  | cons c rest ih => exact (readAlike_utf8EncodeChar c).append ih

/-- No escape of the text stands for a slash or a dot. -/
def PlainEscapes (text : List Char) : Prop :=
  ∀ c a b byte, escaped c a b = some byte → [c, a, b] <:+: text →
    byte ≠ byteMarks.slash ∧ byte ≠ byteMarks.dot

theorem PlainEscapes.of_infix {text part : List Char} (h : PlainEscapes text)
    (hpart : part <:+: text) : PlainEscapes part :=
  fun c a b byte hbyte hin => h c a b byte hbyte (hin.trans hpart)

theorem escaped_mark {c a b : Char} {byte : UInt8} (h : escaped c a b = some byte) :
    (byte = byteMarks.slash → [c, a, b] = "%2f".toList ∨ [c, a, b] = "%2F".toList) ∧
      (byte = byteMarks.dot → [c, a, b] = "%2e".toList ∨ [c, a, b] = "%2E".toList) := by
  obtain ⟨rfl, x, y, hx, hy, hbyte⟩ := escaped_eq_some h
  have hbyte : (16 * x + y) % 256 = byte.toNat := congrArg UInt8.toNat hbyte
  have hxlt := (hexValue_bounds hx).2
  have hylt := (hexValue_bounds hy).2
  have hlook (low : ℕ) (htwo : 16 * x + y = 32 + low) (hlow : low < 16) :
      a = '2' ∧ hexValue b = some low := by
    obtain ⟨rfl, rfl⟩ : x = 2 ∧ y = low := by omega
    exact ⟨hexValue_cases (P := (· = '2')) hx (by decide), hy⟩
  constructor
  · rintro rfl
    obtain ⟨rfl, hb⟩ := hlook 15 (by change _ = 47 at hbyte; omega) (by decide)
    exact hexValue_cases (P := fun b => ['%', '2', b] = _ ∨ ['%', '2', b] = _) hb (by decide)
  · rintro rfl
    obtain ⟨rfl, hb⟩ := hlook 14 (by change _ = 46 at hbyte; omega) (by decide)
    exact hexValue_cases (P := fun b => ['%', '2', b] = _ ∨ ['%', '2', b] = _) hb (by decide)

theorem escaped_unmarked {c a b : Char} {byte : UInt8} (h : escaped c a b = some byte) :
    charMarks.slash ∉ [c, a, b] ∧ charMarks.dot ∉ [c, a, b] := by
  obtain ⟨rfl, x, y, ha, hb, -⟩ := escaped_eq_some h
  have hhex {d : Char} {n : ℕ} (hd : hexValue d = some n) : d ≠ '/' ∧ d ≠ '.' := by
    constructor <;> rintro rfl <;> cases hd
  simp [charMarks, Ne.symm (hhex ha).1, Ne.symm (hhex ha).2, Ne.symm (hhex hb).1,
    Ne.symm (hhex hb).2]

theorem readAlike_percentDecode {text : List Char} (h : PlainEscapes text) :
    ReadAlike byteMarks charMarks (percentDecode text) text := by
  induction text using percentDecode.induct with
  | case1 c a b rest byte hbyte ih =>
    obtain ⟨hslash, hdot⟩ := h c a b byte hbyte ⟨[], rest, rfl⟩
    have hfirst : ReadAlike byteMarks charMarks [byte] [c, a, b] :=
      readAlike_unmarked (List.cons_ne_nil _ _) (List.cons_ne_nil _ _)
        (by simp [Ne.symm hslash, Ne.symm hdot]) (escaped_unmarked hbyte)
    rw [percentDecode_escaped hbyte]
    exact hfirst.append (ih (h.of_infix ⟨[c, a, b], [], by simp⟩))
  | case2 c a b rest hnone ih =>
    rw [percentDecode, hnone]
    exact (readAlike_utf8EncodeChar c).append (ih (h.of_infix ⟨[c], [], by simp⟩))
  | case3 c a => exact (readAlike_utf8EncodeChar c).append (readAlike_utf8EncodeChar a)
  | case4 c => exact readAlike_utf8EncodeChar c
  | case5 => exact fun _ => ⟨rfl, rfl⟩

end PraxisPolicy.PathTexts
