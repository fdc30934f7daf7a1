import Mathlib.Data.List.Infix

/-!
# Glob patterns

In the strict reading a star that meets a star of the text stands for that one symbol only.  It is
the one a matcher decides that compares first and keeps a single point to resume from.
-/

namespace PraxisPolicy.GlobPatterns

variable {α : Type*} {star : α} {p q t u v : List α}

/-- The text is the pattern with each star replaced by some run of symbols. -/
inductive Matches (star : α) : List α → List α → Prop
  | nil : Matches star [] []
  | symbol {c : α} {p t : List α} (hc : c ≠ star) (h : Matches star p t) :
      Matches star (c :: p) (c :: t)
  | run (r : List α) {p t : List α} (h : Matches star p t) : Matches star (star :: p) (r ++ t)

/-- As `Matches`, but a star that meets a star stands for just that symbol. -/
inductive Reads (star : α) : List α → List α → Prop
  | nil : Reads star [] []
  | same (c : α) {p t : List α} (h : Reads star p t) : Reads star (c :: p) (c :: t)
  | run (r : List α) {p t : List α} (hr : (r ++ t).head? ≠ some star) (h : Reads star p t) :
      Reads star (star :: p) (r ++ t)

theorem Reads.matches (h : Reads star p t) : Matches star p t := by
  induction h with
  | nil => exact .nil
  | same c _ ih =>
    by_cases hc : c = star
    · subst hc
      exact .run [c] ih
    · exact .symbol hc ih
  | run r _ _ ih => exact .run r ih

theorem reads_cons_self_iff {c : α} : Reads star (c :: p) (c :: t) ↔ Reads star p t := by
  refine ⟨fun h => ?_, .same c⟩
  generalize hx : c :: t = x at h
  cases h with
  | same _ h => exact (List.cons.inj hx).2 ▸ h
  | run r hr _ => exact absurd (by rw [← hx, List.head?_cons]) hr

theorem not_reads_cons_cons {c d : α} (hne : c ≠ d) (hc : c ≠ star) :
    ¬ Reads star (c :: p) (d :: t) := by
  intro h
  generalize hx : d :: t = x at h
  cases h with
  | same _ _ => exact hne (List.cons.inj hx).1.symm
  | run _ _ _ => exact hc rfl

theorem not_reads_nil_cons {d : α} : ¬ Reads star [] (d :: t) := by
  intro h
  cases h

theorem reads_nil_iff : Reads star p [] ↔ ∀ c ∈ p, c = star := by
  induction p with
  | nil => exact ⟨fun _ c hc => absurd hc List.not_mem_nil, fun _ => .nil⟩
  | cons c p ih =>
    rw [List.forall_mem_cons, ← ih]
    constructor
    · intro h
      generalize hx : ([] : List α) = x at h
      cases h with
      | same _ _ => cases hx
      | run r _ h =>
        obtain ⟨rfl, rfl⟩ := List.append_eq_nil_iff.1 hx.symm
        exact ⟨rfl, h⟩
    · rintro ⟨rfl, h⟩
      exact .run [] (by simp) h

theorem reads_star_cons_iff {d : α} (hd : d ≠ star) :
    Reads star (star :: p) (d :: t) ↔ ∃ x, x <:+ d :: t ∧ Reads star p x := by
  constructor
  · intro h
    generalize hx : d :: t = x at h
    cases h with
    | same _ _ => exact absurd (List.cons.inj hx).1 hd
    | run r _ h => exact ⟨_, List.suffix_append r _, h⟩
  · rintro ⟨x, ⟨r, hr⟩, h⟩
    rw [← hr]
    refine .run r ?_ h
    rw [hr, List.head?_cons]
    exact fun heq => hd (Option.some.inj heq)

theorem Reads.behind_star (h : Reads star (star :: p) t) : ∃ x, x <:+ t ∧ Reads star p x := by
  cases h with
  | same _ h => exact ⟨_, List.suffix_cons star _, h⟩
  | run r _ h => exact ⟨_, List.suffix_append r _, h⟩

/-- A pattern that starts with `u` gets through `u` no earlier than a text of symbols of `u` does.
-/
theorem Reads.drop_sublist (h : Reads star (u ++ q) (v ++ t)) (hv : v.Sublist u) :
    ∃ x, x <:+ t ∧ Reads star q x := by
  induction u generalizing v t with
  | nil =>
    rw [List.eq_nil_of_sublist_nil hv] at h
    exact ⟨t, List.suffix_rfl, h⟩
  | cons c u ih =>
    generalize hx : v ++ t = x at h
    rw [List.cons_append] at h
    cases h with
    | same _ h =>
      cases v with
      | nil =>
        obtain ⟨x, hsuffix, hreads⟩ := ih (v := []) h (List.nil_sublist u)
        rw [List.nil_append] at hx
        exact ⟨x, hx ▸ hsuffix.trans (List.suffix_cons c _), hreads⟩
      | cons d v =>
        obtain ⟨rfl, rfl⟩ := List.cons.inj hx
        exact ih h (List.cons_sublist_cons.1 hv)
    | run r hr h =>
      -- the star stands for a run that ends among the symbols of `v` or behind them
      rcases List.append_eq_append_iff.1 hx with ⟨w, rfl, rfl⟩ | ⟨w, rfl, rfl⟩
      · obtain ⟨x, hsuffix, hreads⟩ := ih (v := []) h (List.nil_sublist u)
        exact ⟨x, hsuffix.trans (List.suffix_append w _), hreads⟩
      · have hbehind : (r ++ w).Sublist u := by
          rw [← List.append_assoc] at hr
          generalize r ++ w = v at hv hr
          cases hv with
          | cons _ hv => exact hv
          | cons_cons _ _ => exact absurd List.head?_cons hr
        exact ih h ((List.sublist_append_right r w).trans hbehind)

end PraxisPolicy.GlobPatterns
