import PraxisPolicy.CandidateFolding
import PraxisPolicy.GlobPatterns

/-!
# What `glob_match` matches

The matcher compares bytes before it looks for a wildcard, so a `*` of the text uses up the `*` of
the pattern it meets.
-/

namespace PraxisPolicy

open EncodedText GlobPatterns

section Loop

variable {p t : List UInt8} {star : Option (List UInt8 × List UInt8)}

/-- The bytes passed since the last `*` are the same in the pattern and in the text. -/
def KeptPoint (p t : List UInt8) (star : Option (List UInt8 × List UInt8)) : Prop :=
  ∀ s ∈ star, ∃ u, s.1 = u ++ p ∧ s.2 = u ++ t

/-- The pattern behind the last `*` reads a text that starts later than at the point to resume from.
-/
def Resumes (star : Option (List UInt8 × List UInt8)) : Prop :=
  ∃ s ∈ star, ∃ x, x <:+ s.2.tail ∧ Reads starByte s.1 x

variable {b : UInt8}

theorem KeptPoint.step (h : KeptPoint (b :: p) (b :: t) star) : KeptPoint p t star := by
  intro s hs
  obtain ⟨u, hp, ht⟩ := h s hs
  refine ⟨u ++ [b], ?_, ?_⟩
  · rw [hp, List.append_assoc, List.singleton_append]
  · rw [ht, List.append_assoc, List.singleton_append]

theorem keptPoint_start : KeptPoint p t (some (p, t)) := by
  intro s hs
  cases hs
  exact ⟨[], rfl, rfl⟩

theorem KeptPoint.reads_of_resumes (h : KeptPoint p t star) (hresumes : Resumes star) :
    ∃ x, x <:+ t ∧ Reads starByte p x := by
  obtain ⟨s, hs, x, hx, hreads⟩ := hresumes
  obtain ⟨u, hp, ht⟩ := h s hs
  rw [hp] at hreads
  obtain ⟨w, hw⟩ : x <:+ u ++ t := ht ▸ hx.trans (List.tail_suffix s.2)
  rcases List.append_eq_append_iff.1 hw with ⟨v, rfl, rfl⟩ | ⟨v, rfl, rfl⟩
  · exact hreads.drop_sublist (List.sublist_append_right w v)
  · obtain ⟨y, hy, hreads⟩ := hreads.drop_sublist (v := []) (List.nil_sublist u)
    exact ⟨y, hy.trans (List.suffix_append v x), hreads⟩

theorem reads_or_resumes_iff :
    Reads starByte p t ∨ Resumes (some (p, t)) ↔ ∃ x, x <:+ t ∧ Reads starByte p x := by
  constructor
  · rintro (hreads | ⟨s, hs, x, hx, hreads⟩)
    · exact ⟨t, List.suffix_rfl, hreads⟩
    · cases hs
      exact ⟨x, hx.trans (List.tail_suffix t), hreads⟩
  · rintro ⟨x, hx, hreads⟩
    cases t with
    | nil => exact .inl (List.suffix_nil.1 hx ▸ hreads)
    | cons b t =>
      rcases List.suffix_cons_iff.1 hx with rfl | hx
      · exact .inl hreads
      · exact .inr ⟨_, rfl, x, hx, hreads⟩

theorem not_resumes_none : ¬ Resumes none := by
  rintro ⟨s, hs, -⟩
  cases hs

theorem resumes_cons_iff :
    Resumes (some (p, b :: t)) ↔ ∃ x, x <:+ t ∧ Reads starByte p x := by
  constructor
  · rintro ⟨s, hs, x, hx, hreads⟩
    cases hs
    exact ⟨x, hx, hreads⟩
  · rintro ⟨x, hx, hreads⟩
    exact ⟨_, rfl, x, hx, hreads⟩

theorem dropWhile_star_isEmpty_iff :
    (p.dropWhile (· == starByte)).isEmpty = true ↔ Reads starByte p [] := by
  rw [reads_nil_iff, List.isEmpty_iff, List.dropWhile_eq_nil_iff]
  simp only [beq_iff_eq]

theorem globLoop_same (h : ∀ s ∈ star, (b :: t).length ≤ s.2.length) :
    globLoop (b :: p) (b :: t) star h =
      globLoop p t star fun s hs => (Nat.le_succ _).trans (h s hs) := by
  rw [globLoop.eq_def]
  exact if_pos rfl

theorem length_le_of_mem_some : ∀ s ∈ some (p, t), t.length ≤ s.2.length := by
  rintro _ ⟨⟩
  exact le_rfl

theorem globLoop_star (hb : starByte ≠ b) (h : ∀ s ∈ star, (b :: t).length ≤ s.2.length) :
    globLoop (starByte :: p) (b :: t) star h =
      globLoop p (b :: t) (some (p, b :: t)) length_le_of_mem_some := by
  rw [globLoop.eq_def]
  exact (if_neg hb).trans (if_pos rfl)

def Stuck (p : List UInt8) (b : UInt8) : Prop := ∀ c ∈ p.head?, c ≠ b ∧ c ≠ starByte

theorem Stuck.not_reads (h : Stuck p b) : ¬ Reads starByte p (b :: t) := by
  cases p with
  | nil => exact not_reads_nil_cons
  | cons c p =>
    obtain ⟨hne, hc⟩ := h c rfl
    exact not_reads_cons_cons hne hc

/-- A mismatch is answered one byte behind the point to resume from. -/
theorem globLoop_stuck_iff (hstuck : Stuck p b) (h : ∀ s ∈ star, (b :: t).length ≤ s.2.length)
    (hresumed : ∀ behind r resume, star = some (behind, r :: resume) →
      (globLoop behind resume (some (behind, resume)) (by simp) = true ↔
        Reads starByte behind resume ∨ Resumes (some (behind, resume)))) :
    globLoop p (b :: t) star h = true ↔ Reads starByte p (b :: t) ∨ Resumes star := by
  rw [or_iff_right hstuck.not_reads]
  match star, h with
  | none, h =>
    have hstop : globLoop p (b :: t) none h = false := by
      cases p with
      | nil => rw [globLoop]
      | cons c p =>
        obtain ⟨hne, hc⟩ := hstuck c rfl
        rw [globLoop, if_neg hne, if_neg hc]
    rw [hstop]
    exact iff_of_false Bool.false_ne_true not_resumes_none
  | some (behind, []), h => exact absurd (h _ rfl) (Nat.not_succ_le_zero _)
  | some (behind, r :: resume), h =>
    have hback : globLoop p (b :: t) (some (behind, r :: resume)) h =
        globLoop behind resume (some (behind, resume)) (by simp) := by
      cases p with
      | nil => rw [globLoop]
      | cons c p =>
        obtain ⟨hne, hc⟩ := hstuck c rfl
        rw [globLoop, if_neg hne, if_neg hc]
    rw [hback, hresumed behind r resume rfl, reads_or_resumes_iff, resumes_cons_iff]

/-- The rest of the pattern reads the rest of the text, or the pattern behind the last `*` reads it
from later on. -/
theorem globLoop_iff (p t : List UInt8) (star : Option (List UInt8 × List UInt8))
    (h : ∀ s ∈ star, t.length ≤ s.2.length) (hkept : KeptPoint p t star) :
    globLoop p t star h = true ↔ Reads starByte p t ∨ Resumes star := by
  have hresumed : ∀ behind r resume, star = some (behind, r :: resume) →
      (globLoop behind resume (some (behind, resume)) (by simp) = true ↔
        Reads starByte behind resume ∨ Resumes (some (behind, resume))) :=
    fun behind r resume hstar => globLoop_iff behind resume _ _ keptPoint_start
  match t, p with
  | [], p =>
    rw [globLoop, dropWhile_star_isEmpty_iff, iff_self_or]
    intro hresumes
    obtain ⟨x, hx, hreads⟩ := hkept.reads_of_resumes hresumes
    exact List.suffix_nil.1 hx ▸ hreads
  | b :: t, [] => exact globLoop_stuck_iff (by simp [Stuck]) h hresumed
  | b :: t, c :: p =>
    by_cases hcb : c = b
    · subst hcb
      rw [globLoop_same, reads_cons_self_iff]
      exact globLoop_iff p t star _ hkept.step
    · by_cases hc : c = starByte
      · subst hc
        rw [globLoop_star hcb, globLoop_iff p (b :: t) _ _ keptPoint_start, reads_or_resumes_iff,
          reads_star_cons_iff (Ne.symm hcb), iff_self_or]
        -- the earlier `*` would read nothing that this one does not
        intro hresumes
        obtain ⟨x, hx, hreads⟩ := hkept.reads_of_resumes hresumes
        obtain ⟨y, hy, hreads⟩ := hreads.behind_star
        exact ⟨y, hy.trans hx, hreads⟩
      · refine globLoop_stuck_iff ?_ h hresumed
        intro a ha
        cases ha
        exact ⟨hcb, hc⟩
termination_by (star.elim (t.length + 1) (·.2.length), p.length)
decreasing_by
  · subst hstar
    simp [Prod.lex_def]
  · cases star <;> simp [Prod.lex_def]
  · cases star with
    | none => simp [Prod.lex_def]
    | some s =>
      have hle := h s rfl
      simp only [List.length_cons] at hle
      simp only [Option.elim_some, List.length_cons, Prod.lex_def]
      omega

end Loop

def globMatchBytes (p t : List UInt8) : Bool := globLoop p t none (by simp)

theorem globMatchBytes_iff_reads (p t : List UInt8) :
    globMatchBytes p t = true ↔ Reads starByte p t := by
  rw [globMatchBytes, globLoop_iff p t none _ (by simp [KeptPoint]), or_iff_left not_resumes_none]

/-- The matcher agrees with the reference exactly where a matched text has a split in which every
`*` that meets a `*` stands for just that byte. -/
theorem globMatch_agrees_iff (p t : List UInt8) (pattern text : String) :
    ((globMatchBytes p t = true ↔ Matches starByte p t) ↔
      (Matches starByte p t → Reads starByte p t)) ∧
    ((globMatch pattern text = true ↔ Matches starByte (encode pattern) (encode text)) ↔
      (Matches starByte (encode pattern) (encode text) →
        Reads starByte (encode pattern) (encode text))) := by
  have hbytes : ∀ p t : List UInt8, (globMatchBytes p t = true ↔ Matches starByte p t) ↔
      (Matches starByte p t → Reads starByte p t) := by
    intro p t
    rw [globMatchBytes_iff_reads]
    exact ⟨Iff.mpr, fun h => ⟨Reads.matches, h⟩⟩
  exact ⟨hbytes p t, hbytes (encode pattern) (encode text)⟩

def denyingModels (patterns : List String) : CandidateConstraintExtension where
  allowModels := none
  denyModels := patterns
  allowRegions := none
  allowSites := none
  maxCostTiers := []
  custom := ∅
  onEmpty := .deny

/-- The pattern `*b` stands for every model that ends in `b`, yet denying it does not exclude `*ab`.
-/
theorem starred_model_not_denied :
    globMatch "*b" "*ab" = false ∧ Matches starByte (encode "*b") (encode "*ab") ∧
      (denyingModels ["*b"]).accepts
        (fun label => if label = "model" then some "*ab" else none) (fun _ => none) = true := by
  have hmatch : globMatch "*b" "*ab" = false := by
    simp [globMatch, encode, globLoop, starByte, String.utf8EncodeChar]
  refine ⟨hmatch, ?_, ?_⟩
  · exact .run (encode "*a") (.symbol (by decide) .nil)
  · simp [CandidateConstraintExtension.accepts, denyingModels, allowed, withinTiers, hmatch]

end PraxisPolicy
