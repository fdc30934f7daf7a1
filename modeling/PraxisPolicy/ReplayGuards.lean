import PraxisPolicy.HashMaps
import PraxisPolicy.SortedLists
import Mathlib.Data.Prod.Lex
import Mathlib.Data.String.Basic

/-!
# The replay guard in memory

A guard holds the same entries three times: by id, in order of expiry, and as a count for each
scope.
-/

namespace PraxisPolicy

open HashMaps SortedLists

structure ReplayEntry where
  expiry : ℤ
  scope : String
  id : String
  deriving DecidableEq

attribute [ext] ReplayEntry

def ReplayEntry.order (e : ReplayEntry) : ℤ ×ₗ String ×ₗ String :=
  toLex (e.expiry, toLex (e.scope, e.id))

theorem ReplayEntry.expiry_le_of_order_le {a b : ReplayEntry} (h : a.order ≤ b.order) :
    a.expiry ≤ b.expiry := by
  rcases Prod.Lex.le_iff.mp h with h | h
  · exact h.le
  · exact h.1.le

structure ReplayState where
  seen : HashMap (String × String) ℤ
  /-- The same entries in order. -/
  byExpiry : List ReplayEntry
  perScope : HashMap String ℕ

structure ReplayLimits where
  capacity : ℕ
  capacityPerKey : ℕ

namespace ReplayState

def empty : ReplayState := ⟨∅, [], ∅⟩

def uncount (perScope : HashMap String ℕ) (scope : String) : HashMap String ℕ :=
  match perScope.lookup scope with
  | none => perScope
  | some count =>
    if count - 1 = 0 then perScope.erase scope else perScope.insert scope (count - 1)

def pruneFrom (now : ℤ) : List ReplayEntry → HashMap (String × String) ℤ → HashMap String ℕ →
    ReplayState
  | [], seen, perScope => ⟨seen, [], perScope⟩
  | e :: rest, seen, perScope =>
    if e.expiry ≤ now then
      pruneFrom now rest (seen.erase (e.scope, e.id)) (uncount perScope e.scope)
    else ⟨seen, e :: rest, perScope⟩

def prune (state : ReplayState) (now : ℤ) : ReplayState :=
  pruneFrom now state.byExpiry state.seen state.perScope

def record (state : ReplayState) (e : ReplayEntry) : ReplayState where
  byExpiry := insertOn ReplayEntry.order e state.byExpiry
  seen := state.seen.insert (e.scope, e.id) e.expiry
  perScope := state.perScope.insert e.scope ((state.perScope.lookup e.scope).getD 0 + 1)

def firstUse (state : ReplayState) (limits : ReplayLimits) (scope id : String)
    (expiresAt now : ℤ) : Except String Bool × ReplayState :=
  let state := state.prune now
  if (state.seen.lookup (scope, id)).isSome then (.ok false, state)
  else if limits.capacityPerKey ≤ (state.perScope.lookup scope).getD 0 then
    (.error ("this key already has " ++ toString limits.capacityPerKey ++
      " live proofs in the replay window"), state)
  else if limits.capacity ≤ state.seen.keys.card then
    (.error ("in-memory replay store is full (" ++ toString limits.capacity ++ " live proofs)"),
      state)
  else (.ok true, state.record ⟨expiresAt, scope, id⟩)

/-- They hold the same entries, the second in order. -/
structure Consistent (state : ReplayState) : Prop where
  sorted : state.byExpiry.Pairwise fun a b => a.order ≤ b.order
  unique : (state.byExpiry.map fun e => (e.scope, e.id)).Nodup
  seen_iff : ∀ e : ReplayEntry, state.seen.lookup (e.scope, e.id) = some e.expiry ↔
    e ∈ state.byExpiry
  counted : ∀ scope, (state.perScope.lookup scope).getD 0 =
    state.byExpiry.countP fun e => decide (e.scope = scope)

theorem consistent_empty : empty.Consistent where
  sorted := List.Pairwise.nil
  unique := List.nodup_nil
  seen_iff e := by simp [empty]
  counted scope := rfl

theorem uncount_getD (perScope : HashMap String ℕ) (scope other : String) :
    ((uncount perScope scope).lookup other).getD 0 =
      (perScope.lookup other).getD 0 - if other = scope then 1 else 0 := by
  unfold uncount
  split
  case h_1 hnone =>
    split_ifs with heq
    · rw [heq, hnone]
      rfl
    · rfl
  case h_2 count hcount =>
    by_cases heq : other = scope
    · subst heq
      rw [hcount, if_pos rfl]
      split_ifs with hzero
      · simpa using hzero.symm
      · simp
    · rw [if_neg heq, Nat.sub_zero]
      split_ifs
      · rw [Finmap.lookup_erase_ne heq]
      · rw [Finmap.lookup_insert_of_ne _ heq]

variable {seen : HashMap (String × String) ℤ} {perScope : HashMap String ℕ}

theorem Consistent.tail {e : ReplayEntry} {rest : List ReplayEntry}
    (h : Consistent ⟨seen, e :: rest, perScope⟩) :
    Consistent ⟨seen.erase (e.scope, e.id), rest, uncount perScope e.scope⟩ where
  sorted := (List.pairwise_cons.mp h.sorted).2
  unique := (List.nodup_cons.mp h.unique).2
  seen_iff f := by
    have hfresh := (List.nodup_cons.mp h.unique).1
    by_cases hkey : (f.scope, f.id) = (e.scope, e.id)
    · rw [hkey, Finmap.lookup_erase]
      refine ⟨nofun, fun hf => absurd ?_ hfresh⟩
      exact List.mem_map.mpr ⟨f, hf, hkey⟩
    · rw [Finmap.lookup_erase_ne hkey]
      refine (h.seen_iff f).trans ⟨fun hf => ?_, fun hf => List.mem_cons_of_mem e hf⟩
      rcases List.mem_cons.mp hf with rfl | hf
      · exact absurd rfl hkey
      · exact hf
  counted scope := by
    have hcount := h.counted scope
    simp only [List.countP_cons] at hcount
    rw [uncount_getD, hcount]
    by_cases hscope : scope = e.scope
    · simp [hscope]
    · simp [hscope, Ne.symm hscope]

variable {state : ReplayState}

theorem Consistent.mem_byExpiry (h : state.Consistent) {key : String × String} {expiry : ℤ}
    (hkey : state.seen.lookup key = some expiry) :
    ⟨expiry, key.1, key.2⟩ ∈ state.byExpiry :=
  (h.seen_iff ⟨expiry, key.1, key.2⟩).mp hkey

theorem Consistent.prune_spec {now : ℤ} {entries : List ReplayEntry}
    (h : Consistent ⟨seen, entries, perScope⟩) :
    (pruneFrom now entries seen perScope).Consistent ∧
      ∀ key, (pruneFrom now entries seen perScope).seen.lookup key =
        (seen.lookup key).filter fun expiry => decide (now < expiry) := by
  induction entries generalizing seen perScope with
  | nil =>
    refine ⟨h, fun key => ?_⟩
    cases hkey : seen.lookup key with
    | none => exact hkey
    | some expiry => cases h.mem_byExpiry hkey
  | cons e rest ih =>
    unfold pruneFrom
    split_ifs with hexpired
    · refine ⟨(ih h.tail).1, fun key => ?_⟩
      rw [(ih h.tail).2 key]
      by_cases hkey : key = (e.scope, e.id)
      · rw [hkey, Finmap.lookup_erase, (h.seen_iff e).mpr List.mem_cons_self]
        simp [Option.filter_some, hexpired]
      · rw [Finmap.lookup_erase_ne hkey]
    · refine ⟨h, fun key => ?_⟩
      have holdest := (List.pairwise_cons.mp h.sorted).1
      cases hkey : seen.lookup key with
      | none => rfl
      | some expiry =>
        have hlive : now < expiry := by
          rcases List.mem_cons.mp (h.mem_byExpiry hkey) with heq | hmem
          · rw [← heq] at hexpired
            exact not_le.mp hexpired
          · exact (not_le.mp hexpired).trans_le
              (ReplayEntry.expiry_le_of_order_le (holdest _ hmem))
        simp [Option.filter_some, hlive]

theorem Consistent.prune (h : state.Consistent) (now : ℤ) :
    (state.prune now).Consistent :=
  h.prune_spec.1

theorem Consistent.record (h : state.Consistent) {e : ReplayEntry}
    (hnew : state.seen.lookup (e.scope, e.id) = none) : (state.record e).Consistent := by
  have hperm : (state.record e).byExpiry.Perm (e :: state.byExpiry) :=
    List.perm_orderedInsert _ e state.byExpiry
  have hfresh : (e.scope, e.id) ∉ state.byExpiry.map fun e => (e.scope, e.id) := by
    intro hmem
    obtain ⟨f, hf, hkey⟩ := List.mem_map.mp hmem
    rw [← hkey, (h.seen_iff f).mpr hf] at hnew
    cases hnew
  refine ⟨pairwise_insertOn e h.sorted, ?_, fun f => ?_, fun scope => ?_⟩
  · rw [(hperm.map _).nodup_iff]
    exact List.nodup_cons.mpr ⟨hfresh, h.unique⟩
  · rw [hperm.mem_iff, List.mem_cons, ReplayState.record, lookup_insert_eq]
    split_ifs with hkey
    · have hf : f ∉ state.byExpiry := fun hf => hfresh (hkey ▸ List.mem_map_of_mem hf)
      simp only [Prod.mk.injEq] at hkey
      simp [hf, ReplayEntry.ext_iff, hkey, eq_comm]
    · rw [h.seen_iff]
      have hne : f ≠ e := fun heq => hkey (by rw [heq])
      simp [hne]
  · rw [hperm.countP_eq, List.countP_cons, ReplayState.record, lookup_insert_eq, ← h.counted scope]
    by_cases hscope : scope = e.scope
    · subst hscope
      simp
    · simp [hscope, Ne.symm hscope]

variable {limits : ReplayLimits}

structure Within (limits : ReplayLimits) (state : ReplayState) : Prop where
  consistent : state.Consistent
  total : state.seen.keys.card ≤ limits.capacity
  each : ∀ scope, (state.perScope.lookup scope).getD 0 ≤ limits.capacityPerKey

theorem suffix_pruneFrom (now : ℤ) (entries : List ReplayEntry)
    (seen : HashMap (String × String) ℤ) (perScope : HashMap String ℕ) :
    (pruneFrom now entries seen perScope).byExpiry <:+ entries := by
  induction entries generalizing seen perScope with
  | nil => exact List.suffix_rfl
  | cons e rest ih =>
    unfold pruneFrom
    split_ifs
    · exact (ih _ _).trans (List.suffix_cons e rest)
    · exact List.suffix_rfl

theorem Within.prune (h : state.Within limits) (now : ℤ) : (state.prune now).Within limits where
  consistent := h.consistent.prune now
  total := by
    refine le_trans (Finset.card_le_card fun key hkey => ?_) h.total
    obtain ⟨expiry, hlookup⟩ := Finmap.mem_iff.1 (Finmap.mem_keys.1 hkey)
    rw [ReplayState.prune, h.consistent.prune_spec.2] at hlookup
    exact Finmap.mem_keys.2 (Finmap.mem_of_lookup_eq_some (Option.filter_eq_some_iff.1 hlookup).1)
  each scope := by
    have hbefore := h.each scope
    rw [h.consistent.counted] at hbefore
    rw [(h.consistent.prune now).counted]
    exact (suffix_pruneFrom now _ _ _).sublist.countP_le.trans hbefore

theorem Within.firstUse (h : state.Within limits) (scope id : String) (expiresAt now : ℤ) :
    (state.firstUse limits scope id expiresAt now).2.Within limits := by
  have hpruned := h.prune now
  unfold ReplayState.firstUse
  dsimp only
  split_ifs with hseen hscope hfull
  · exact hpruned
  · exact hpruned
  · exact hpruned
  · have hnew := Option.not_isSome_iff_eq_none.1 hseen
    refine ⟨hpruned.consistent.record hnew, ?_, fun other => ?_⟩
    · rw [record, keys_insert]
      exact (Finset.card_insert_le _ _).trans (not_le.1 hfull)
    · rw [record, lookup_insert_eq]
      split_ifs with hother
      · exact not_le.1 hscope
      · exact hpruned.each other

end ReplayState

end PraxisPolicy
