import Mathlib.Data.List.Forall2

/-!
# Three-valued connectives over lists

`none` is an undetermined truth value.  `Admits` relates a truth value to the booleans it may still
turn into, and the connectives respect it.
-/

namespace PraxisPolicy.KleeneLogic

abbrev Truth := Option Bool

def not (t : Truth) : Truth := t.map Bool.not

def all (ts : List Truth) : Truth :=
  if some false ∈ ts then some false
  else if none ∈ ts then none
  else some true

def any (ts : List Truth) : Truth :=
  if some true ∈ ts then some true
  else if none ∈ ts then none
  else some false

variable {ts us : List Truth}

theorem all_congr (h : ∀ t, t ∈ ts ↔ t ∈ us) : all ts = all us := by
  simp only [all, h]

theorem any_congr (h : ∀ t, t ∈ ts ↔ t ∈ us) : any ts = any us := by
  simp only [any, h]

@[simp] theorem all_nil : all [] = some true := rfl

@[simp] theorem any_nil : any [] = some false := rfl

theorem all_cons (t : Truth) (ts : List Truth) :
    all (t :: ts) = match t with
      | some false => some false
      | some true => all ts
      | none => if all ts = some false then some false else none := by
  rcases t with _ | _ | _
  · by_cases hf : some false ∈ ts
    · simp [all, hf]
    · by_cases hn : none ∈ ts <;> simp [all, hf, hn]
  · simp [all]
  · simp [all]

/-- The boolean `b` is one the truth value `t` may turn into. -/
def Admits (t : Truth) (b : Bool) : Prop := ∀ c, t = some c → b = c

theorem Admits.not {t : Truth} {b : Bool} (h : Admits t b) :
    Admits (KleeneLogic.not t) (!b) := by
  intro c hc
  obtain ⟨d, hd, rfl⟩ := Option.map_eq_some_iff.mp hc
  rw [h d hd]

theorem Admits.all {bs : List Bool} (h : List.Forall₂ Admits ts bs) :
    Admits (KleeneLogic.all ts) (bs.all id) := by
  induction h with
  | nil => simp [Admits]
  | @cons t b ts bs ht _ ih =>
    intro c hc
    rw [all_cons] at hc
    rcases t with _ | _ | _
    · by_cases hf : KleeneLogic.all ts = some false
      · rw [if_pos hf, Option.some.injEq] at hc
        subst hc
        simp [ih false hf]
      · rw [if_neg hf] at hc
        cases hc
    · rw [Option.some.injEq] at hc
      simp [ht false rfl, ← hc]
    · simpa [ht true rfl] using ih c hc

theorem any_eq_not_all (ts : List Truth) : any ts = not (all (ts.map not)) := by
  have hfalse : some false ∈ ts.map not ↔ some true ∈ ts := by simp [not]
  have hnone : none ∈ ts.map not ↔ none ∈ ts := by simp [not]
  simp only [any, all, hfalse, hnone]
  split_ifs <;> rfl

theorem Admits.any {bs : List Bool} (h : List.Forall₂ Admits ts bs) :
    Admits (KleeneLogic.any ts) (bs.any id) := by
  have hnegated : List.Forall₂ Admits (ts.map KleeneLogic.not) (bs.map Bool.not) :=
    List.forall₂_map_left_iff.2 (List.forall₂_map_right_iff.2 (h.imp fun _ _ => Admits.not))
  have hall := (Admits.all hnegated).not
  rw [List.all_map, List.not_all_eq_any_not] at hall
  rw [any_eq_not_all]
  convert hall
  simp

end PraxisPolicy.KleeneLogic
