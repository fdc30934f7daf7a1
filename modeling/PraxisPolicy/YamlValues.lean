import PraxisPolicy.RuleTrees

/-!
# YAML values up to the order of entries

A mapping is kept as the list of its entries, whose order says nothing, keys included.
-/

namespace PraxisPolicy

open JsonValues

namespace Yaml

theorem induction {motive : Yaml → Prop}
    (null : motive .null) (bool : ∀ b, motive (.bool b)) (number : ∀ n, motive (.number n))
    (string : ∀ s, motive (.string s))
    (sequence : ∀ items, (∀ v ∈ items, motive v) → motive (.sequence items))
    (mapping : ∀ entries, (∀ e ∈ entries, motive e.1 ∧ motive e.2) → motive (.mapping entries))
    (tagged : ∀ tag v, motive v → motive (.tagged tag v)) (v : Yaml) : motive v :=
  @Yaml.rec motive (fun items => ∀ v ∈ items, motive v)
    (fun entries => ∀ e ∈ entries, motive e.1 ∧ motive e.2) (fun e => motive e.1 ∧ motive e.2)
    null bool number string sequence mapping tagged
    (by simp) (fun _ _ h hs => List.forall_mem_cons.mpr ⟨h, hs⟩)
    (by simp) (fun _ _ h hs => List.forall_mem_cons.mpr ⟨h, hs⟩)
    (fun _ _ hk hv => ⟨hk, hv⟩) v

mutual

def SameValue : Yaml → Yaml → Prop
  | .sequence items, w => ∃ items', w = .sequence items' ∧ SameItems items items'
  | .mapping entries, w =>
    ∃ entries' ordered, w = .mapping entries' ∧ ordered.Perm entries' ∧ SameEntries entries ordered
  | .tagged tag v, w => ∃ v', w = .tagged tag v' ∧ SameValue v v'
  | leaf, w => w = leaf

def SameItems : List Yaml → List Yaml → Prop
  | [], ws => ws = []
  | v :: vs, ws => ∃ w ws', ws = w :: ws' ∧ SameValue v w ∧ SameItems vs ws'

def SameEntries : List (Yaml × Yaml) → List (Yaml × Yaml) → Prop
  | [], ws => ws = []
  | (k, v) :: es, ws => ∃ k' v' ws', ws = (k', v') :: ws' ∧
      (SameValue k k' ∧ SameValue v v') ∧ SameEntries es ws'

end

theorem sameItems_iff {vs ws : List Yaml} : SameItems vs ws ↔ List.Forall₂ SameValue vs ws := by
  induction vs generalizing ws with
  | nil => simp [SameItems]
  | cons v vs ih =>
    simp only [SameItems, List.forall₂_cons_left_iff, ih]
    constructor
    · rintro ⟨w, ws', rfl, hv, hvs⟩
      exact ⟨w, ws', hv, hvs, rfl⟩
    · rintro ⟨w, ws', hv, hvs, rfl⟩
      exact ⟨w, ws', rfl, hv, hvs⟩

def SameEntry (e e' : Yaml × Yaml) : Prop := SameValue e.1 e'.1 ∧ SameValue e.2 e'.2

theorem sameEntries_iff {es ws : List (Yaml × Yaml)} :
    SameEntries es ws ↔ List.Forall₂ SameEntry es ws := by
  induction es generalizing ws with
  | nil => simp [SameEntries]
  | cons e es ih =>
    simp only [SameEntries, List.forall₂_cons_left_iff, ih]
    constructor
    · rintro ⟨k', v', ws', rfl, hkv, hes⟩
      exact ⟨(k', v'), ws', hkv, hes, rfl⟩
    · rintro ⟨⟨k', v'⟩, ws', hkv, hes, rfl⟩
      exact ⟨k', v', ws', rfl, hkv, hes⟩

/-- No mapping in a value holds two keys that are the same. -/
inductive Keyed : Yaml → Prop
  | null : Keyed .null
  | bool (b : Bool) : Keyed (.bool b)
  | number (n : Number) : Keyed (.number n)
  | string (s : String) : Keyed (.string s)
  | sequence {items : List Yaml} (h : ∀ v ∈ items, Keyed v) : Keyed (.sequence items)
  | mapping {entries : List (Yaml × Yaml)}
      (hkeys : entries.Pairwise fun e e' => ¬ SameValue e.1 e'.1)
      (hk : ∀ e ∈ entries, Keyed e.1) (hv : ∀ e ∈ entries, Keyed e.2) : Keyed (.mapping entries)
  | tagged (tag : String) {v : Yaml} (h : Keyed v) : Keyed (.tagged tag v)

end Yaml

end PraxisPolicy
