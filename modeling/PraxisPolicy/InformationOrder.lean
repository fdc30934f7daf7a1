import PraxisPolicy.HashMaps

/-!
# Records that show part of another

The order in which blank is least, for optional values and for maps, and two facts about a field
behind a gate.
-/

namespace PraxisPolicy.InformationOrder

open HashMaps

variable {α β κ : Type}

/-- What the first option holds, the second holds as well, up to a relation. -/
def OptionLe (r : α → β → Prop) (a : Option α) (b : Option β) : Prop :=
  ∀ x ∈ a, ∃ y ∈ b, r x y

theorem OptionLe.rfl {a : Option α} : OptionLe Eq a a :=
  fun x hx => ⟨x, hx, Eq.refl x⟩

theorem OptionLe.none (r : α → β → Prop) (b : Option β) : OptionLe r none b := by
  rintro x ⟨⟩

variable {r : α → β → Prop}

theorem OptionLe.map {γ : Type} {f : γ → α} {g : γ → β} {a : Option γ}
    (h : ∀ x ∈ a, r (f x) (g x)) : OptionLe r (a.map f) (a.map g) := by
  intro y hy
  obtain ⟨x, hx, rfl⟩ := Option.mem_map.1 hy
  exact ⟨g x, Option.mem_map_of_mem g hx, h x hx⟩

theorem bind_eq_of_rel {γ : Type} {a : Option α} {b : Option β}
    {f : α → Option γ} {g : β → Option γ} (h : Option.Rel r a b)
    (hfg : ∀ x y, r x y → f x = g y) : a.bind f = b.bind g := by
  cases h with
  | none => rfl
  | some hxy => exact hfg _ _ hxy

def MapLe [DecidableEq κ] (m m' : HashMap κ α) : Prop :=
  ∀ key value, m.lookup key = some value → m'.lookup key = some value

theorem MapLe.rfl [DecidableEq κ] {m : HashMap κ α} : MapLe m m :=
  fun _ _ h => h

theorem MapLe.empty [DecidableEq κ] (m : HashMap κ α) : MapLe ∅ m := by
  intro key value h
  simp at h

section Gates

variable {p q : Prop} [Decidable p] [Decidable q] {blank : α}

theorem gate_congr {a b : α} (h : p → a = b) :
    (if p then a else blank) = if p then b else blank := by
  split
  · rename_i hp
    exact h hp
  · rfl

theorem gate_mono {le : α → α → Prop} {a b : α} (hpq : p → q) (hblank : ∀ x, le blank x)
    (hab : p → le a b) : le (if p then a else blank) (if q then b else blank) := by
  by_cases hp : p
  · rw [if_pos hp, if_pos (hpq hp)]
    exact hab hp
  · rw [if_neg hp]
    exact hblank _

theorem gate_subset (hpq : p → q) (s : Finset α) :
    (if p then s else ∅) ⊆ if q then s else ∅ :=
  gate_mono hpq Finset.empty_subset fun _ => Finset.Subset.refl s

theorem gate_mapLe [DecidableEq κ] (hpq : p → q) (m : HashMap κ α) :
    MapLe (if p then m else ∅) (if q then m else ∅) :=
  gate_mono hpq MapLe.empty fun _ => MapLe.rfl

theorem gate_optionLe (hpq : p → q) (a : Option α) :
    OptionLe Eq (if p then a else Option.none) (if q then a else Option.none) :=
  gate_mono hpq (OptionLe.none Eq) fun _ => OptionLe.rfl

end Gates

end PraxisPolicy.InformationOrder
