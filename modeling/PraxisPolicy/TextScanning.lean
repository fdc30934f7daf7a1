import Mathlib.Data.Finset.Sort
import Mathlib.Data.List.Destutter
import Mathlib.Data.List.DropRight
import Mathlib.Data.String.Basic
import Mathlib.Algebra.Group.Int.Defs

/-!
# Scanning text

The string operations of the standard library that the modelled code calls, on lists of characters.
-/

namespace PraxisPolicy.TextScanning

/-- Characters with the Unicode `White_Space` property. -/
def isWhitespace (c : Char) : Bool :=
  let n := c.toNat
  (9 ≤ n && n ≤ 13) || n == 0x20 || n == 0x85 || n == 0xA0 || n == 0x1680 ||
    (0x2000 ≤ n && n ≤ 0x200A) || n == 0x2028 || n == 0x2029 || n == 0x202F ||
    n == 0x205F || n == 0x3000

def trim (s : String) : String :=
  String.ofList ((s.toList.dropWhile isWhitespace).reverse.dropWhile isWhitespace).reverse

def trimChars (cs : List Char) : List Char :=
  ((cs.dropWhile isWhitespace).reverse.dropWhile isWhitespace).reverse

@[simp] theorem toList_trim (s : String) : (trim s).toList = trimChars s.toList :=
  String.toList_ofList

section Trimming

variable {cs tail : List Char}

def StartsVisible (cs : List Char) : Prop := ∃ c t, cs = c :: t ∧ isWhitespace c = false

theorem StartsVisible.dropWhile_append (h : StartsVisible tail) :
    (cs ++ tail).dropWhile isWhitespace = cs.dropWhile isWhitespace ++ tail := by
  obtain ⟨c, t, rfl, hc⟩ := h
  rw [List.dropWhile_append]
  split_ifs with hempty
  · rw [List.isEmpty_iff.1 hempty, List.dropWhile_cons_of_neg (by simp [hc]), List.nil_append]
  · rfl

theorem trimChars_append (hstart : StartsVisible tail) (hend : StartsVisible tail.reverse) :
    trimChars (cs ++ tail) = cs.dropWhile isWhitespace ++ tail := by
  rw [trimChars, hstart.dropWhile_append, List.reverse_append]
  obtain ⟨c, t, htail, hc⟩ := hend
  rw [htail, List.cons_append, List.dropWhile_cons_of_neg (by simp [hc]), ← List.cons_append, ← htail,
    ← List.reverse_append, List.reverse_reverse]

theorem trimChars_of_visible (hstart : StartsVisible cs) (hend : StartsVisible cs.reverse) :
    trimChars cs = cs :=
  @trimChars_append [] cs hstart hend

theorem trimChars_space_cons (hstart : StartsVisible cs) (hend : StartsVisible cs.reverse) :
    trimChars (' ' :: cs) = cs :=
  @trimChars_append [' '] cs hstart hend

theorem exists_trailing (cs : List Char) :
    ∃ trailing, cs.dropWhile isWhitespace = trimChars cs ++ trailing ∧
      ∀ c ∈ trailing, isWhitespace c = true := by
  refine ⟨((cs.dropWhile isWhitespace).reverse.takeWhile isWhitespace).reverse, ?_, fun c hc => ?_⟩
  · rw [trimChars, ← List.reverse_append, List.takeWhile_append_dropWhile, List.reverse_reverse]
  · exact List.mem_takeWhile_imp (List.mem_reverse.1 hc)

theorem trimChars_dropWhile (cs : List Char) :
    trimChars (cs.dropWhile isWhitespace) = trimChars cs := by
  rw [trimChars, List.dropWhile_idempotent, trimChars]

theorem trimChars_visible {c : Char} (hc : isWhitespace c = false) (left right : List Char) :
    trimChars (left ++ c :: right) =
      left.dropWhile isWhitespace ++ c :: (right.reverse.dropWhile isWhitespace).reverse := by
  have hback : StartsVisible (c :: (left.dropWhile isWhitespace).reverse) := ⟨c, _, rfl, hc⟩
  rw [trimChars, StartsVisible.dropWhile_append ⟨c, right, rfl, hc⟩, List.reverse_append,
    List.reverse_cons, List.append_assoc, List.singleton_append, hback.dropWhile_append]
  simp

theorem blank_or_visible (cs : List Char) :
    (∀ c ∈ cs, isWhitespace c = true) ∨ ∃ lead c rest, cs = lead ++ c :: rest ∧
      (∀ d ∈ lead, isWhitespace d = true) ∧ isWhitespace c = false := by
  cases hrest : cs.dropWhile isWhitespace with
  | nil => exact .inl (List.dropWhile_eq_nil_iff.1 hrest)
  | cons c rest =>
    refine .inr ⟨cs.takeWhile isWhitespace, c, rest, ?_, fun d hd => List.mem_takeWhile_imp hd, ?_⟩
    · rw [← hrest, List.takeWhile_append_dropWhile]
    · have hhead := List.head_dropWhile_not isWhitespace (l := cs) (by simp [hrest])
      simpa [hrest] using hhead

theorem trimChars_lead {lead : List Char} {c : Char} (hlead : ∀ d ∈ lead, isWhitespace d = true)
    (hc : isWhitespace c = false) (rest : List Char) :
    trimChars (lead ++ c :: rest) = c :: (rest.reverse.dropWhile isWhitespace).reverse := by
  rw [trimChars_visible hc, List.dropWhile_eq_nil_iff.2 hlead, List.nil_append]

theorem trimChars_eq_nil_iff : trimChars cs = [] ↔ ∀ c ∈ cs, isWhitespace c = true := by
  constructor
  · intro h
    rcases blank_or_visible cs with hblank | ⟨lead, c, rest, rfl, -, hc⟩
    · exact hblank
    · simp [trimChars_visible hc] at h
  · intro h
    rw [trimChars, List.dropWhile_eq_nil_iff.2 h]
    rfl

@[simp] theorem trimChars_trimChars (cs : List Char) : trimChars (trimChars cs) = trimChars cs := by
  rcases blank_or_visible cs with hblank | ⟨lead, c, rest, rfl, hlead, hc⟩
  · rw [trimChars_eq_nil_iff.2 hblank]
    rfl
  · rw [trimChars_lead hlead hc]
    refine (trimChars_visible hc [] _).trans ?_
    simp [List.dropWhile_idempotent]

theorem trim_ne_empty {text : String} {c : Char} (hmem : c ∈ text.toList)
    (hc : isWhitespace c = false) : trim text ≠ "" := by
  intro htrim
  have hnil : trimChars text.toList = [] := by rw [← toList_trim, htrim, String.toList_empty]
  rw [trimChars_eq_nil_iff.1 hnil c hmem] at hc
  cases hc

end Trimming

def stripPrefix (p s : String) : Option String :=
  if p.toList.isPrefixOf s.toList then some (String.ofList (s.toList.drop p.toList.length))
  else none

@[simp] theorem stripPrefix_append (p s : String) : stripPrefix p (p ++ s) = some s := by
  simp [stripPrefix]

def toAsciiLowercase (s : String) : String := String.ofList (s.toList.map Char.toLower)

def toAsciiUppercase (s : String) : String := String.ofList (s.toList.map Char.toUpper)

def eqIgnoreAsciiCase (s t : String) : Bool := toAsciiLowercase s == toAsciiLowercase t

def parseDigits (cs : List Char) : Option ℕ :=
  if cs ≠ [] ∧ cs.all Char.isDigit then
    some (Nat.ofDigitChars 10 cs 0)
  else none

def parseUsize (s : String) : Option ℕ :=
  let digits := match s.toList with
    | '+' :: rest => rest
    | cs => cs
  (parseDigits digits).filter (· < 2 ^ 64)

def parseI64 (s : String) : Option ℤ :=
  match s.toList with
  | '-' :: rest => ((parseDigits rest).filter (· ≤ 2 ^ 63)).map fun n => -(n : ℤ)
  | '+' :: rest => ((parseDigits rest).filter (· < 2 ^ 63)).map fun n => (n : ℤ)
  | cs => ((parseDigits cs).filter (· < 2 ^ 63)).map fun n => (n : ℤ)

theorem parseDigits_toDigits (n : ℕ) : parseDigits (Nat.toDigits 10 n) = some n := by
  have hdigits : (Nat.toDigits 10 n).all Char.isDigit = true :=
    List.all_eq_true.mpr fun c hc => Nat.isDigit_of_mem_toDigits (by omega) (by omega) hc
  rw [parseDigits, if_pos ⟨Nat.toDigits_ne_nil, hdigits⟩, Nat.ofDigitChars_ten_toDigits]

theorem parseUsize_toString {n : ℕ} (h : n < 2 ^ 64) : parseUsize (toString n) = some n := by
  have hlist : (toString n).toList = Nat.toDigits 10 n := by
    rw [Nat.toString_eq_repr, Nat.toList_repr]
  have hplus : ∀ rest, Nat.toDigits 10 n ≠ '+' :: rest := by
    intro rest heq
    have hmem : '+' ∈ Nat.toDigits 10 n := heq ▸ List.mem_cons_self
    exact absurd (Nat.isDigit_of_mem_toDigits (by omega) (by omega) hmem) (by decide)
  rw [parseUsize, hlist]
  split
  · rename_i rest heq
    exact absurd heq (hplus rest)
  · rw [parseDigits_toDigits]
    exact Option.filter_eq_some_iff.2 ⟨rfl, decide_eq_true h⟩

def containsDot (s : String) : Bool := s.toList.contains '.'

def segments (s : String) : List String := (s.toList.splitOn '.').map String.ofList

def joinDots (path : List String) : String :=
  String.ofList (['.'].intercalate (path.map String.toList))

theorem toList_joinDots (path : List String) :
    (joinDots path).toList = ['.'].intercalate (path.map String.toList) :=
  String.toList_ofList

/-- Where two texts with a separator agree, one goes on past the separator of the other. -/
theorem append_cons_eq_append_cons_iff {α : Type} {sep : α} {a b x y : List α} (hne : a ≠ b) :
    a ++ sep :: x = b ++ sep :: y ↔
      (∃ t, b = a ++ sep :: t ∧ x = t ++ sep :: y) ∨ ∃ t, a = b ++ sep :: t ∧ y = t ++ sep :: x := by
  constructor
  · intro h
    rcases List.append_eq_append_iff.1 h with ⟨c, rfl, hc⟩ | ⟨c, rfl, hc⟩
    · cases c with
      | nil => exact absurd (List.append_nil a).symm hne
      | cons d t =>
        obtain ⟨rfl, hx⟩ := List.cons.inj hc
        exact .inl ⟨t, rfl, hx⟩
    · cases c with
      | nil => exact absurd (List.append_nil b) hne
      | cons d t =>
        obtain ⟨rfl, hy⟩ := List.cons.inj hc
        exact .inr ⟨t, rfl, hy⟩
  · rintro (⟨t, rfl, rfl⟩ | ⟨t, rfl, rfl⟩) <;> simp

def textOrder (s t : String) : Prop := s ≤ t

instance : DecidableRel textOrder := fun s t => inferInstanceAs (Decidable (s ≤ t))

instance : IsTrans String textOrder := inferInstanceAs (IsTrans String (· ≤ ·))

instance : Std.Antisymm textOrder := inferInstanceAs (Std.Antisymm fun s t : String => s ≤ t)

instance : Std.Total textOrder := inferInstanceAs (Std.Total fun s t : String => s ≤ t)

/-- The texts of a set, in order. -/
def sortedTexts (texts : Finset String) : List String := texts.sort textOrder

@[simp] theorem mem_sortedTexts {texts : Finset String} {text : String} :
    text ∈ sortedTexts texts ↔ text ∈ texts :=
  Finset.mem_sort textOrder

theorem nodup_sortedTexts (texts : Finset String) : (sortedTexts texts).Nodup :=
  Finset.sort_nodup texts textOrder

@[simp] theorem sortedTexts_empty : sortedTexts ∅ = [] :=
  Finset.sort_empty textOrder

@[simp] theorem sortedTexts_singleton (text : String) : sortedTexts {text} = [text] :=
  Finset.sort_singleton textOrder text

theorem mem_destutter_ne {α : Type} [DecidableEq α] {a : α} {l : List α} :
    a ∈ l.destutter (· ≠ ·) ↔ a ∈ l := by
  constructor
  · exact fun h => (List.destutter_sublist _ l).subset h
  intro h
  cases l with
  | nil => cases h
  | cons b l =>
    rw [List.destutter_cons']
    induction l generalizing b with
    | nil => simpa using h
    | cons c l ih =>
      by_cases hbc : b = c
      · subst hbc
        rw [List.destutter'_cons_neg _ (by simp)]
        exact ih b (by simpa using h)
      · rw [List.destutter'_cons_pos _ hbc]
        rcases List.mem_cons.mp h with rfl | h
        · exact List.mem_cons_self
        · exact List.mem_cons_of_mem _ (ih c h)

end PraxisPolicy.TextScanning
