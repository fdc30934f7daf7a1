import PraxisPolicy.HashMaps
import Mathlib.Data.PNat.Notation

/-!
# The bounded map of cached decisions

Apart from the entry it adds, no operation puts anything into the map that was not there.
-/

namespace PraxisPolicy

open HashMaps

section Stores

variable {K D : Type} [DecidableEq K]

structure DecisionSlot (D : Type) where
  decision : D
  expiresAt : ℕ

/-- `order` holds the oldest insertion first. -/
structure DecisionStore (K D : Type) [DecidableEq K] where
  entries : HashMap K (DecisionSlot D)
  order : List K
  maxEntries : ℕ+

inductive StoreLookup (D : Type) where
  | hit (decision : D)
  | expired
  | miss

inductive StoreInsert where
  | stored
  | evicted
  deriving DecidableEq

namespace DecisionStore

def new (maxEntries : ℕ+) : DecisionStore K D := ⟨∅, [], maxEntries⟩

def clear (s : DecisionStore K D) : DecisionStore K D := { s with entries := ∅, order := [] }

def remove (s : DecisionStore K D) (key : K) : DecisionStore K D :=
  { s with entries := s.entries.erase key, order := s.order.erase key }

def lookup (s : DecisionStore K D) (key : K) (now : ℕ) : StoreLookup D × DecisionStore K D :=
  match s.entries.lookup key with
  | none => (.miss, s)
  | some slot => if slot.expiresAt ≤ now then (.expired, s.remove key) else (.hit slot.decision, s)

def isExpired (entries : HashMap K (DecisionSlot D)) (now : ℕ) (key : K) : Bool :=
  (entries.lookup key).all fun slot => decide (slot.expiresAt ≤ now)

/-- The key at the front is the first of its kind, so removing it removes the front. -/
def expireFront (now : ℕ) : List K → HashMap K (DecisionSlot D) →
    List K × HashMap K (DecisionSlot D)
  | [], entries => ([], entries)
  | front :: rest, entries =>
    if isExpired entries now front then expireFront now rest (entries.erase front)
    else (front :: rest, entries)

def dropExpiredFromFront (s : DecisionStore K D) (now : ℕ) : DecisionStore K D :=
  let left := expireFront now s.order s.entries
  { s with order := left.1, entries := left.2 }

/-- The closure `retain` is called with, along the queue. -/
def retainLive (now : ℕ) : List K → HashMap K (DecisionSlot D) →
    List K × HashMap K (DecisionSlot D)
  | [], entries => ([], entries)
  | key :: rest, entries =>
    if isExpired entries now key then retainLive now rest (entries.erase key)
    else
      let left := retainLive now rest entries
      (key :: left.1, left.2)

def dropAllExpired (s : DecisionStore K D) (now : ℕ) : DecisionStore K D :=
  let left := retainLive now s.order s.entries
  { s with order := left.1, entries := left.2 }

def evictOldest (maxEntries : ℕ) : List K → HashMap K (DecisionSlot D) → Bool →
    (List K × HashMap K (DecisionSlot D)) × Bool
  | [], entries, evicted => (([], entries), evicted)
  | old :: rest, entries, evicted =>
    if maxEntries ≤ entries.keys.card then evictOldest maxEntries rest (entries.erase old) true
    else ((old :: rest, entries), evicted)

def insert (s : DecisionStore K D) (key : K) (decision : D) (expiresAt now : ℕ) :
    StoreInsert × DecisionStore K D :=
  let s := s.dropExpiredFromFront now
  if key ∈ s.entries then
    (.stored, { s with entries := s.entries.insert key ⟨decision, expiresAt⟩ })
  else
    let s := if s.maxEntries ≤ s.entries.keys.card then s.dropAllExpired now else s
    let left := evictOldest s.maxEntries s.order s.entries false
    (if left.2 then .evicted else .stored,
      { s with
        order := left.1.1 ++ [key]
        entries := left.1.2.insert key ⟨decision, expiresAt⟩ })

theorem submap_lookup (s : DecisionStore K D) (key : K) (now : ℕ) :
    Submap (s.lookup key now).2.entries s.entries := by
  unfold lookup
  split
  · exact .refl _
  · split_ifs
    · exact submap_erase _ _
    · exact .refl _

theorem lookup_eq_hit_iff (s : DecisionStore K D) {key : K} {now : ℕ} {decision : D} :
    (s.lookup key now).1 = .hit decision ↔
    ∃ slot, s.entries.lookup key = some slot ∧ now < slot.expiresAt ∧ slot.decision = decision := by
  cases hslot : s.entries.lookup key with
  | none => simp [lookup, hslot]
  | some slot => by_cases hlive : slot.expiresAt ≤ now <;> simp [lookup, hslot, hlive]; omega

variable {s : DecisionStore K D}

theorem submap_expireFront (now : ℕ) (order : List K) (entries : HashMap K (DecisionSlot D)) :
    Submap (expireFront now order entries).2 entries := by
  induction order generalizing entries with
  | nil => exact .refl _
  | cons front rest ih =>
    unfold expireFront
    split_ifs
    · exact (ih _).trans (submap_erase entries front)
    · exact .refl _

theorem submap_retainLive (now : ℕ) (order : List K) (entries : HashMap K (DecisionSlot D)) :
    Submap (retainLive now order entries).2 entries := by
  induction order generalizing entries with
  | nil => exact .refl _
  | cons key rest ih =>
    unfold retainLive
    split_ifs
    · exact (ih _).trans (submap_erase entries key)
    · exact ih entries

theorem submap_evictOldest (maxEntries : ℕ) (order : List K)
    (entries : HashMap K (DecisionSlot D)) (evicted : Bool) :
    Submap (evictOldest maxEntries order entries evicted).1.2 entries := by
  induction order generalizing entries evicted with
  | nil => exact .refl _
  | cons old rest ih =>
    unfold evictOldest
    split_ifs
    · exact (ih _ _).trans (submap_erase entries old)
    · exact .refl _

theorem lookup_insert {key k : K} {decision : D} {expiresAt now : ℕ} {slot : DecisionSlot D}
    (h : (s.insert key decision expiresAt now).2.entries.lookup k = some slot) :
    slot = ⟨decision, expiresAt⟩ ∨ s.entries.lookup k = some slot := by
  have hfront := submap_expireFront now s.order s.entries
  dsimp only [insert] at h
  split at h
  · exact (hfront.lookup_insert h).imp_left And.right
  · refine (((submap_evictOldest _ _ _ _).trans ?_).lookup_insert h).imp_left And.right
    split_ifs
    · exact (submap_retainLive now _ _).trans hfront
    · exact hfront

end DecisionStore

end Stores

end PraxisPolicy
