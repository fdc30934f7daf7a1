import Mathlib.Data.List.Basic

/-!
# The first maximum of a scored list

A loop that replaces its candidate only by a strictly better one ends with the first maximum.
-/

namespace PraxisPolicy.FirstMaximum

variable {α : Type}

def keepBetter (best : Option (ℕ × α)) (candidate : ℕ × α) : Option (ℕ × α) :=
  match best with
  | none => some candidate
  | some incumbent => if incumbent.1 < candidate.1 then some candidate else some incumbent

def firstMaximum (candidates : List (ℕ × α)) : Option (ℕ × α) :=
  candidates.foldl keepBetter none

def FirstMaximal (best : ℕ × α) (candidates : List (ℕ × α)) : Prop :=
  ∃ before after, candidates = before ++ best :: after ∧
    (∀ c ∈ before, c.1 < best.1) ∧ ∀ c ∈ after, c.1 ≤ best.1

variable {incumbent : ℕ × α}

theorem FirstMaximal.keepBetter {seen : List (ℕ × α)} (c : ℕ × α)
    (h : FirstMaximal incumbent seen) :
    ∃ next, keepBetter (some incumbent) c = some next ∧ FirstMaximal next (seen ++ [c]) := by
  obtain ⟨before, after, rfl, hbefore, hafter⟩ := h
  unfold FirstMaximum.keepBetter
  by_cases hlt : incumbent.1 < c.1
  · refine ⟨c, if_pos hlt, before ++ incumbent :: after, [], by simp, ?_, by simp⟩
    intro d hd
    rcases List.mem_append.1 hd with hd | hd
    · exact Nat.lt_trans (hbefore d hd) hlt
    · rcases List.mem_cons.1 hd with rfl | hd
      · exact hlt
      · exact Nat.lt_of_le_of_lt (hafter d hd) hlt
  · refine ⟨incumbent, if_neg hlt, before, after ++ [c], by simp, hbefore, ?_⟩
    intro d hd
    rcases List.mem_append.1 hd with hd | hd
    · exact hafter d hd
    · obtain rfl := List.mem_singleton.1 hd
      exact Nat.le_of_not_lt hlt

variable {best : ℕ × α} {candidates : List (ℕ × α)}

theorem firstMaximal_foldl {seen rest : List (ℕ × α)} (h : FirstMaximal incumbent seen)
    (hbest : rest.foldl FirstMaximum.keepBetter (some incumbent) = some best) :
    FirstMaximal best (seen ++ rest) := by
  induction rest generalizing seen incumbent with
  | nil =>
    obtain rfl := Option.some.inj hbest
    simpa using h
  | cons c rest ih =>
    obtain ⟨next, hnext, hkept⟩ := h.keepBetter c
    rw [List.foldl_cons, hnext] at hbest
    simpa using ih hkept hbest

theorem firstMaximal_of_firstMaximum (h : firstMaximum candidates = some best) :
    FirstMaximal best candidates := by
  cases candidates with
  | nil => cases h
  | cons c rest =>
    have hfirst : FirstMaximal c [c] := ⟨[], [], rfl, by simp, by simp⟩
    exact firstMaximal_foldl hfirst h

theorem firstMaximum_eq_none_iff :
    firstMaximum candidates = none ↔ candidates = [] := by
  refine ⟨fun h => ?_, fun h => by rw [h]; rfl⟩
  cases candidates with
  | nil => rfl
  | cons c rest =>
    have hkept : ∀ (rest : List (ℕ × α)) (best : ℕ × α),
        rest.foldl keepBetter (some best) ≠ none := by
      intro rest
      induction rest with
      | nil => simp
      | cons d rest ih =>
        intro best
        rw [List.foldl_cons, keepBetter]
        split_ifs <;> exact ih _
    exact absurd h (hkept rest c)

theorem FirstMaximal.mem (h : FirstMaximal best candidates) : best ∈ candidates := by
  obtain ⟨before, after, rfl, -, -⟩ := h
  exact List.mem_append_right _ List.mem_cons_self

variable (rank : α → ℕ)

theorem FirstMaximal.compare {c : ℕ × α}
    (horder : candidates.Pairwise fun x y => rank x.2 < rank y.2) (h : FirstMaximal best candidates)
    (hc : c ∈ candidates) :
    c = best ∨ (c.1 < best.1 ∧ rank c.2 < rank best.2) ∨
      (c.1 ≤ best.1 ∧ rank best.2 < rank c.2) := by
  obtain ⟨before, after, rfl, hbefore, hafter⟩ := h
  obtain ⟨-, htail, hcross⟩ := List.pairwise_append.1 horder
  rcases List.mem_append.1 hc with hc | hc
  · exact .inr (.inl ⟨hbefore c hc, hcross c hc best List.mem_cons_self⟩)
  · rcases List.mem_cons.1 hc with rfl | hc
    · exact .inl rfl
    · exact .inr (.inr ⟨hafter c hc, (List.pairwise_cons.1 htail).1 c hc⟩)

/-- Lists in rank order that hold each other's first maximum have the same one. -/
theorem firstMaximal_unique {c₁ c₂ : List (ℕ × α)} {b₁ b₂ : ℕ × α}
    (horder₁ : c₁.Pairwise fun x y => rank x.2 < rank y.2)
    (horder₂ : c₂.Pairwise fun x y => rank x.2 < rank y.2)
    (h₁ : FirstMaximal b₁ c₁) (h₂ : FirstMaximal b₂ c₂) (hin₁ : b₂ ∈ c₁) (hin₂ : b₁ ∈ c₂) :
    b₁ = b₂ := by
  rcases h₁.compare rank horder₁ hin₁ with rfl | h₁
  · rfl
  rcases h₂.compare rank horder₂ hin₂ with rfl | h₂
  · rfl
  omega

end PraxisPolicy.FirstMaximum
