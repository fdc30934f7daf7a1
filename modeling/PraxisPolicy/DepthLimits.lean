import PraxisPolicy.StackWalks
import PraxisPolicy.StepInvokers

/-!
# How deep a value nests

The loop of `exceeds_depth` keeps on its stack the values it has still to look at.  The depth of a
scalar is one, but the loop only ever returns `true` at an array or an object.  No value in memory
nests deeper than a `usize` counts, so depths are natural numbers.
-/

namespace PraxisPolicy

open JsonValues StackWalks

namespace JsonValues.Json

mutual

/-- One for each array and object on top of what `join` makes of its values. -/
def tally (leaf : ℕ) (join : ℕ → ℕ → ℕ) : Json → ℕ
  | .array items => tallyItems leaf join items + 1
  | .object members => tallyMembers leaf join members + 1
  | _ => leaf

def tallyItems (leaf : ℕ) (join : ℕ → ℕ → ℕ) : List Json → ℕ
  | [] => 0
  | v :: vs => join (tally leaf join v) (tallyItems leaf join vs)

def tallyMembers (leaf : ℕ) (join : ℕ → ℕ → ℕ) : List (String × Json) → ℕ
  | [] => 0
  | (_, v) :: ms => join (tally leaf join v) (tallyMembers leaf join ms)

end

def nodes (v : Json) : ℕ := tally 1 (· + ·) v

def nesting (v : Json) : ℕ := tally 0 max v

/-- One more than the number of arrays and objects on the deepest path. -/
def depth (v : Json) : ℕ := nesting v + 1

def isContainer : Json → Bool
  | .array _ | .object _ => true
  | _ => false

def values : Json → List Json
  | .array items => items
  | .object members => members.map Prod.snd
  | _ => []

theorem values_induction {motive : Json → Prop}
    (h : ∀ v, (∀ c ∈ values v, motive c) → motive v) (v : Json) : motive v := by
  induction v using Json.induction with
  | array items ih => exact h _ ih
  | object members ih =>
    apply h
    intro c hc
    obtain ⟨m, hm, rfl⟩ := List.mem_map.1 hc
    exact ih m hm
  | _ => exact h _ nofun

theorem tally_eq (leaf : ℕ) (join : ℕ → ℕ → ℕ) (v : Json) :
    tally leaf join v =
      if isContainer v then ((values v).map (tally leaf join)).foldr join 0 + 1 else leaf := by
  have hitems : ∀ vs, tallyItems leaf join vs = (vs.map (tally leaf join)).foldr join 0 := by
    intro vs
    induction vs with
    | nil => rfl
    | cons v vs ih => rw [tallyItems, ih, List.map_cons, List.foldr_cons]
  have hmembers : ∀ ms, tallyMembers leaf join ms =
      ((ms.map Prod.snd).map (tally leaf join)).foldr join 0 := by
    intro ms
    induction ms with
    | nil => rfl
    | cons m ms ih => rw [tallyMembers, ih, List.map_cons, List.map_cons, List.foldr_cons]
  cases v with
  | array items => rw [tally, hitems]; rfl
  | object members => rw [tally, hmembers]; rfl
  | _ => rfl

variable {v : Json}

theorem values_of_not_isContainer (h : isContainer v = false) : values v = [] := by
  cases v with
  | array items => cases h
  | object members => cases h
  | _ => rfl

theorem nesting_of_not_isContainer (h : isContainer v = false) : nesting v = 0 := by
  rw [nesting, tally_eq, h]
  rfl

theorem sum_nodes_lt (v : Json) : ((values v).map nodes).sum < nodes v := by
  have hnodes := tally_eq 1 (· + ·) v
  cases v with
  | array items => exact Nat.lt_of_lt_of_eq (Nat.lt_succ_self _) hnodes.symm
  | object members => exact Nat.lt_of_lt_of_eq (Nat.lt_succ_self _) hnodes.symm
  | _ => exact Nat.one_pos

end JsonValues.Json

/-- An entry is a value and the depth of its children. -/
def childEntries (entry : Json × ℕ) : List (Json × ℕ) :=
  entry.1.values.map fun child => (child, entry.2 + 1)

def stopsAt (limit : ℕ) (entry : Json × ℕ) : Bool :=
  entry.1.isContainer && decide (entry.2 > limit)

/-- The loop starts at the value and the depth two. -/
def exceedsDepthTurn (limit : ℕ) : Walk (Json × ℕ) → Walk (Json × ℕ) :=
  turn childEntries (stopsAt limit)

theorem load_childEntries_lt (entry : Json × ℕ) :
    load (fun entry => entry.1.nodes) (childEntries entry) < entry.1.nodes := by
  rw [load, childEntries, List.map_map]
  exact entry.1.sum_nodes_lt

theorem exceedsDepthFrom_iff_exists (limit : ℕ) (entry : Json × ℕ) :
    exceedsDepthFrom limit entry.2 entry.1 = true ↔
      stopsAt limit entry = true ∨
        ∃ below ∈ childEntries entry, exceedsDepthFrom limit below.2 below.1 = true := by
  have hitems : ∀ d vs, anyExceedsDepth limit d vs = vs.any (exceedsDepthFrom limit d) := by
    intro d vs
    induction vs with
    | nil => rfl
    | cons v vs ih => rw [anyExceedsDepth, ih, List.any_cons]
  have hmembers : ∀ d ms, anyMemberExceedsDepth limit d ms =
      (ms.map Prod.snd).any (exceedsDepthFrom limit d) := by
    intro d ms
    induction ms with
    | nil => rfl
    | cons m ms ih => rw [anyMemberExceedsDepth, ih, List.map_cons, List.any_cons]
  obtain ⟨v, d⟩ := entry
  have hvalues : exceedsDepthFrom limit d v = (v.isContainer &&
      (decide (limit < d) || v.values.any (exceedsDepthFrom limit (d + 1)))) := by
    cases v with
    | array items => rw [exceedsDepthFrom, hitems]; rfl
    | object members => rw [exceedsDepthFrom, hmembers]; rfl
    | _ => rfl
  rw [hvalues, stopsAt, childEntries]
  cases hv : v.isContainer with
  | false => simp [Json.values_of_not_isContainer hv]
  | true => simp

theorem exceedsDepthFrom_iff (limit childDepth : ℕ) (v : Json) :
    exceedsDepthFrom limit childDepth v = true ↔
      v.isContainer = true ∧ limit + 1 < childDepth + v.nesting := by
  have hdeepest : ∀ (d : ℕ) (vs : List Json), limit < d + (vs.map Json.nesting).foldr max 0 ↔
      limit < d ∨ ∃ c ∈ vs, limit < d + c.nesting := by
    intro d vs
    induction vs with
    | nil => simp
    | cons c vs ih =>
      rw [List.map_cons, List.foldr_cons, ← max_add_add_left, lt_max_iff, ih,
        List.exists_mem_cons_iff, or_left_comm]
  induction v using Json.values_induction generalizing childDepth with
  | h v ih =>
    have hbelow : (∃ below ∈ childEntries (v, childDepth),
          exceedsDepthFrom limit below.2 below.1 = true) ↔
        ∃ c ∈ v.values, c.isContainer = true ∧ limit + 1 < childDepth + 1 + c.nesting := by
      simp only [childEntries, List.mem_map, exists_exists_and_eq_and]
      exact exists_congr fun c => and_congr_right fun hc => ih c hc (childDepth + 1)
    rw [exceedsDepthFrom_iff_exists limit (v, childDepth), hbelow, stopsAt]
    cases hv : v.isContainer with
    | false => simp [Json.values_of_not_isContainer hv]
    | true =>
      have hnesting : v.nesting = (v.values.map Json.nesting).foldr max 0 + 1 := by
        rw [Json.nesting, Json.tally_eq, if_pos hv]
        rfl
      have hlimit : limit + 1 < childDepth + v.nesting ↔
          limit < childDepth ∨ ∃ c ∈ v.values, limit < childDepth + c.nesting := by
        rw [← hdeepest, hnesting]
        omega
      simp only [Bool.true_and, decide_eq_true_eq, true_and, hlimit]
      constructor
      · rintro (hhere | ⟨c, hc, -, hlt⟩)
        · exact .inl hhere
        · exact .inr ⟨c, hc, by omega⟩
      · rintro (hhere | ⟨c, hc, hlt⟩)
        · exact .inl hhere
        -- a scalar adds nothing to the depth of the values around it
        · cases hcontainer : c.isContainer with
          | false =>
            rw [Json.nesting_of_not_isContainer hcontainer] at hlt
            exact .inl hlt
          | true => exact .inr ⟨c, hc, hcontainer, by omega⟩

theorem exceedsDepth_iff_depth (v : Json) (limit : ℕ) :
    (exceedsDepth v limit = true ↔ limit < v.depth) ↔ limit ≠ 0 ∨ v.isContainer = true := by
  rw [exceedsDepth, exceedsDepthFrom_iff, Json.depth]
  cases hv : v.isContainer with
  | true =>
    simp only [true_and, or_true, iff_true]
    omega
  | false =>
    rw [Json.nesting_of_not_isContainer hv]
    simp

/-- The loop returns within one turn more than there are nodes, with no longer a stack, and says
whether the value is deeper than the limit, a scalar under the limit zero apart. -/
theorem exceedsDepth_loop (v : Json) (limit : ℕ) :
    (∃ n ≤ v.nodes + 1,
      (exceedsDepthTurn limit)^[n] (.running [(v, 2)]) = .returned (exceedsDepth v limit)) ∧
    (∀ n stack, (exceedsDepthTurn limit)^[n] (.running [(v, 2)]) = .running stack →
      stack.length ≤ v.nodes) ∧
    ((exceedsDepth v limit = true ↔ limit < v.depth) ↔ limit ≠ 0 ∨ v.isContainer = true) := by
  have hload : load (fun entry : Json × ℕ => entry.1.nodes) [(v, 2)] = v.nodes := by simp [load]
  refine ⟨?_, fun n stack hrun => ?_, exceedsDepth_iff_depth v limit⟩
  · obtain ⟨n, hn, found, hrun, hfound⟩ := walk_returns load_childEntries_lt
      (exceedsDepthFrom_iff_exists limit) [(v, 2)]
    have hanswer : found = exceedsDepth v limit := by
      rw [Bool.eq_iff_iff, hfound]
      simp [exceedsDepth]
    exact ⟨n, hload ▸ hn, hanswer ▸ hrun⟩
  · exact hload ▸ length_stack_le load_childEntries_lt hrun

theorem scalar_not_deeper_than_zero :
    (exceedsDepthTurn 0)^[2] (.running [(.null, 2)]) = .returned false ∧
      exceedsDepth .null 0 = false ∧ 0 < Json.null.depth :=
  ⟨rfl, rfl, by decide⟩

end PraxisPolicy
