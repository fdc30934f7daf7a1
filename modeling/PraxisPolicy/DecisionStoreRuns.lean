import PraxisPolicy.DecisionStore
import PraxisPolicy.StepRuns

/-!
# The decision store over a run

Beside the store a run keeps, for each key, the latest insertion that was neither cleared nor
evicted.
-/

namespace PraxisPolicy.DecisionStore

open HashMaps StepRuns

variable {K D : Type} [DecidableEq K] {order : List K} {entries : HashMap K (DecisionSlot D)}
  {s : DecisionStore K D} {k : K} {slot : DecisionSlot D}

structure Mirrors (order : List K) (entries : HashMap K (DecisionSlot D)) : Prop where
  nodup : order.Nodup
  mem_iff : ∀ k, k ∈ order ↔ k ∈ entries

omit [DecidableEq K] in
theorem mirrors_empty : Mirrors ([] : List K) (∅ : HashMap K (DecisionSlot D)) :=
  ⟨List.nodup_nil, fun _ => iff_of_false List.not_mem_nil Finmap.notMem_empty⟩

theorem Mirrors.erase (h : Mirrors order entries) (key : K) :
    Mirrors (order.erase key) (entries.erase key) where
  nodup := h.nodup.erase key
  mem_iff k := by rw [h.nodup.mem_erase_iff, Finmap.mem_erase, h.mem_iff]

theorem Mirrors.tail {key : K} (h : Mirrors (key :: order) entries) :
    Mirrors order (entries.erase key) := by
  simpa using h.erase key

theorem Mirrors.card_keys (h : Mirrors order entries) : entries.keys.card = order.length := by
  have hkeys : entries.keys = order.toFinset := by
    ext k
    rw [Finmap.mem_keys, List.mem_toFinset, h.mem_iff]
  rw [hkeys, List.toFinset_card_of_nodup h.nodup]

section Expiry

variable (now : ℕ)

structure Prunes (s s' : DecisionStore K D) : Prop where
  maxEntries : s'.maxEntries = s.maxEntries
  mirrors : Mirrors s.order s.entries → Mirrors s'.order s'.entries
  submap : Submap s'.entries s.entries
  live : ∀ k slot, s.entries.lookup k = some slot → now < slot.expiresAt →
    s'.entries.lookup k = some slot

variable {now}

theorem ne_of_isExpired {key : K} (hexpired : isExpired entries now key = true)
    (hslot : entries.lookup k = some slot) (hlive : now < slot.expiresAt) : k ≠ key := by
  rintro rfl
  simp [isExpired, hslot, Nat.not_le.2 hlive] at hexpired

theorem Prunes.refl (s : DecisionStore K D) : Prunes now s s :=
  ⟨rfl, id, .refl _, fun _ _ hslot _ => hslot⟩

theorem Prunes.trans {s₁ s₂ s₃ : DecisionStore K D} (h₁ : Prunes now s₁ s₂)
    (h₂ : Prunes now s₂ s₃) : Prunes now s₁ s₃ where
  maxEntries := h₂.maxEntries.trans h₁.maxEntries
  mirrors h := h₂.mirrors (h₁.mirrors h)
  submap := h₂.submap.trans h₁.submap
  live k slot hslot hlive := h₂.live k slot (h₁.live k slot hslot hlive) hlive

theorem mirrors_expireFront (h : Mirrors order entries) :
    Mirrors (expireFront now order entries).1 (expireFront now order entries).2 := by
  induction order generalizing entries with
  | nil => exact h
  | cons front rest ih =>
    rw [expireFront]
    split_ifs
    · exact ih h.tail
    · exact h

theorem live_expireFront (hslot : entries.lookup k = some slot) (hlive : now < slot.expiresAt) :
    (expireFront now order entries).2.lookup k = some slot := by
  induction order generalizing entries with
  | nil => exact hslot
  | cons front rest ih =>
    rw [expireFront]
    split_ifs with hexpired
    · exact ih (by rwa [Finmap.lookup_erase_ne (ne_of_isExpired hexpired hslot hlive)])
    · exact hslot

theorem prunes_dropExpiredFromFront (s : DecisionStore K D) :
    Prunes now s (s.dropExpiredFromFront now) :=
  ⟨rfl, mirrors_expireFront, submap_expireFront now _ _, fun _ _ => live_expireFront⟩

theorem mirrors_retainLive (kept : List K) (h : Mirrors (kept ++ order) entries) :
    Mirrors (kept ++ (retainLive now order entries).1) (retainLive now order entries).2 := by
  induction order generalizing kept entries with
  | nil => exact h
  | cons key rest ih =>
    rw [retainLive]
    split_ifs
    · have hkey : key ∉ kept := fun hmem =>
        List.disjoint_of_nodup_append h.nodup hmem List.mem_cons_self
      have hrest := h.erase key
      rw [List.erase_append_right _ hkey, List.erase_cons_head] at hrest
      exact ih kept hrest
    · rw [List.append_cons] at h ⊢
      exact ih _ h

theorem live_retainLive (hslot : entries.lookup k = some slot) (hlive : now < slot.expiresAt) :
    (retainLive now order entries).2.lookup k = some slot := by
  induction order generalizing entries with
  | nil => exact hslot
  | cons key rest ih =>
    rw [retainLive]
    split_ifs with hexpired
    · exact ih (by rwa [Finmap.lookup_erase_ne (ne_of_isExpired hexpired hslot hlive)])
    · exact ih hslot

theorem prunes_dropAllExpired (s : DecisionStore K D) : Prunes now s (s.dropAllExpired now) :=
  ⟨rfl, mirrors_retainLive [], submap_retainLive now _ _, fun _ _ => live_retainLive⟩

theorem prunes_lookup (s : DecisionStore K D) (key : K) : Prunes now s (s.lookup key now).2 := by
  unfold lookup
  split
  · exact .refl s
  · next slot hslot =>
    split_ifs with hexpired
    · refine ⟨rfl, fun h => h.erase key, submap_erase _ _, fun k other hother hlive => ?_⟩
      have hne : k ≠ key := by
        rintro rfl
        rw [hslot] at hother
        cases hother
        omega
      rwa [remove, Finmap.lookup_erase_ne hne]
    · exact .refl s

end Expiry

theorem mirrors_evictOldest {maxEntries : ℕ} (hroom : 0 < maxEntries) (h : Mirrors order entries)
    (evicted : Bool) :
    Mirrors (evictOldest maxEntries order entries evicted).1.1
        (evictOldest maxEntries order entries evicted).1.2 ∧
      (evictOldest maxEntries order entries evicted).1.1.length < maxEntries := by
  induction order generalizing entries evicted with
  | nil => exact ⟨h, hroom⟩
  | cons old rest ih =>
    rw [evictOldest]
    split_ifs with hfull
    · exact ih h.tail true
    · exact ⟨h, by rwa [h.card_keys, Nat.not_le] at hfull⟩

section Runs

inductive Operation (K D : Type) where
  | lookup (key : K) (now : ℕ)
  | insert (key : K) (decision : D) (expiresAt now : ℕ)
  | dropExpiredFromFront (now : ℕ)
  | dropAllExpired (now : ℕ)
  | clear (now : ℕ)

def Operation.now : Operation K D → ℕ
  | .lookup _ now | .insert _ _ _ now | .dropExpiredFromFront now | .dropAllExpired now
  | .clear now => now

/-- A store, the time of its last operation, and the insertions that count. -/
structure Traced (K D : Type) [DecidableEq K] where
  store : DecisionStore K D
  clock : ℕ
  latest : HashMap K (DecisionSlot D)

/-- The store when an insertion of a new key begins to evict. -/
def beforeEviction (s : DecisionStore K D) (now : ℕ) : DecisionStore K D :=
  let s := s.dropExpiredFromFront now
  if s.maxEntries ≤ s.entries.keys.card then s.dropAllExpired now else s

def afterEviction (s : DecisionStore K D) (now : ℕ) : DecisionStore K D :=
  let s := s.beforeEviction now
  let left := evictOldest s.maxEntries s.order s.entries false
  { s with order := left.1.1, entries := left.1.2 }

def evictedKeys (s : DecisionStore K D) (key : K) (now : ℕ) : Finset K :=
  if key ∈ (s.dropExpiredFromFront now).entries then ∅
  else (s.beforeEviction now).entries.keys \ (s.afterEviction now).entries.keys

def step (t : Traced K D) : Operation K D → Traced K D
  | .lookup key now => { t with store := (t.store.lookup key now).2, clock := now }
  | .insert key decision expiresAt now =>
    { store := (t.store.insert key decision expiresAt now).2
      clock := now
      latest := (retain (· ∉ t.store.evictedKeys key now) t.latest).insert key
        ⟨decision, expiresAt⟩ }
  | .dropExpiredFromFront now =>
    { t with store := t.store.dropExpiredFromFront now, clock := now }
  | .dropAllExpired now => { t with store := t.store.dropAllExpired now, clock := now }
  | .clear now => { store := t.store.clear, clock := now, latest := ∅ }

def Traced.new (maxEntries : ℕ+) : Traced K D := ⟨.new maxEntries, 0, ∅⟩

def OnTime (t : Traced K D) (op : Operation K D) : Prop := t.clock ≤ op.now

structure Faithful (maxEntries : ℕ+) (t : Traced K D) : Prop where
  room : t.store.maxEntries = maxEntries
  mirrors : Mirrors t.store.order t.store.entries
  capacity : t.store.order.length ≤ maxEntries
  counts : Submap t.store.entries t.latest
  live : ∀ k slot, t.latest.lookup k = some slot → t.clock < slot.expiresAt →
    t.store.entries.lookup k = some slot

variable {maxEntries : ℕ+} {t : Traced K D} {now expiresAt : ℕ} {key : K} {decision : D}

theorem prunes_beforeEviction (s : DecisionStore K D) :
    Prunes now (s.dropExpiredFromFront now) (s.beforeEviction now) := by
  dsimp only [beforeEviction]
  split_ifs
  · exact prunes_dropAllExpired _
  · exact .refl _

theorem submap_afterEviction (s : DecisionStore K D) :
    Submap (s.afterEviction now).entries (s.beforeEviction now).entries :=
  submap_evictOldest _ _ _ _

theorem insert_of_notMem (hkey : key ∉ (s.dropExpiredFromFront now).entries) :
    (s.insert key decision expiresAt now).2 =
      { s.afterEviction now with
        order := (s.afterEviction now).order ++ [key]
        entries := (s.afterEviction now).entries.insert key ⟨decision, expiresAt⟩ } := by
  dsimp only [DecisionStore.insert]
  rw [if_neg hkey]
  rfl

theorem Faithful.prune (h : Faithful maxEntries t) (hnow : t.clock ≤ now)
    {store : DecisionStore K D} (hprunes : Prunes now t.store store) :
    Faithful maxEntries { t with store := store, clock := now } where
  room := hprunes.maxEntries.trans h.room
  mirrors := hprunes.mirrors h.mirrors
  capacity := by
    rw [← (hprunes.mirrors h.mirrors).card_keys]
    refine (Finset.card_le_card (Submap.keys_subset hprunes.submap)).trans ?_
    exact h.mirrors.card_keys.trans_le h.capacity
  counts := hprunes.submap.trans h.counts
  live k slot hlatest hlive :=
    hprunes.live k slot (h.live k slot hlatest (hnow.trans_lt hlive)) hlive

theorem Faithful.put (h : Faithful maxEntries t) (new : DecisionSlot D) {order : List K}
    (hmirrors : Mirrors order (t.store.entries.insert key new))
    (hcapacity : order.length ≤ maxEntries) :
    Faithful maxEntries { t with
      store := { t.store with order := order, entries := t.store.entries.insert key new }
      latest := t.latest.insert key new } where
  room := h.room
  mirrors := hmirrors
  capacity := hcapacity
  counts k slot hslot := by
    rw [lookup_insert_eq] at hslot ⊢
    split_ifs at hslot ⊢
    · exact hslot
    · exact h.counts k slot hslot
  live k slot hlatest hlive := by
    rw [lookup_insert_eq] at hlatest ⊢
    split_ifs at hlatest ⊢
    · exact hlatest
    · exact h.live k slot hlatest hlive

theorem Faithful.evict (h : Faithful maxEntries t) (left : DecisionStore K D)
    (hroom : left.maxEntries = t.store.maxEntries) (hmirrors : Mirrors left.order left.entries)
    (hcapacity : left.order.length ≤ maxEntries) (hsubmap : Submap left.entries t.store.entries) :
    Faithful maxEntries { t with
      store := left
      latest := retain (· ∉ t.store.entries.keys \ left.entries.keys) t.latest } where
  room := hroom.trans h.room
  mirrors := hmirrors
  capacity := hcapacity
  counts k slot hslot := by
    have hmem : k ∈ left.entries := Finmap.mem_iff.2 ⟨slot, hslot⟩
    simpa [Finmap.mem_keys, hmem] using h.counts k slot (hsubmap k slot hslot)
  live k slot hlatest hlive := by
    rw [lookup_retain] at hlatest
    split_ifs at hlatest with hkept
    have hslot := h.live k slot hlatest hlive
    have hmem : k ∈ left.entries := by
      by_contra hout
      have hin : k ∈ t.store.entries := Finmap.mem_iff.2 ⟨slot, hslot⟩
      simp [hout, hin, Finmap.mem_keys] at hkept
    obtain ⟨other, hother⟩ := Finmap.mem_iff.1 hmem
    rw [hsubmap k other hother] at hslot
    exact hother.trans hslot

theorem Faithful.overwrite (h : Faithful maxEntries t) (hnow : t.clock ≤ now)
    (hkey : key ∈ (t.store.dropExpiredFromFront now).entries) :
    Faithful maxEntries (step t (.insert key decision expiresAt now)) := by
  have hpruned := h.prune hnow (prunes_dropExpiredFromFront t.store)
  have hlatest : retain (· ∉ t.store.evictedKeys key now) t.latest = t.latest := by
    refine Finmap.ext_lookup fun k => ?_
    simp [evictedKeys, hkey]
  rw [step, hlatest]
  dsimp only [DecisionStore.insert]
  rw [if_pos hkey]
  refine hpruned.put ⟨decision, expiresAt⟩ ⟨hpruned.mirrors.nodup, fun k => ?_⟩ hpruned.capacity
  rw [hpruned.mirrors.mem_iff, Finmap.mem_insert, or_iff_right_of_imp]
  rintro rfl
  exact hkey

theorem Faithful.append (h : Faithful maxEntries t) (hnow : t.clock ≤ now)
    (hkey : key ∉ (t.store.dropExpiredFromFront now).entries) :
    Faithful maxEntries (step t (.insert key decision expiresAt now)) := by
  have hpruned := h.prune hnow
    ((prunes_dropExpiredFromFront t.store).trans (prunes_beforeEviction t.store))
  obtain ⟨hmirrors, hroom⟩ :=
    mirrors_evictOldest (t.store.beforeEviction now).maxEntries.2 hpruned.mirrors false
  have hroom' : (t.store.afterEviction now).order.length < maxEntries := hpruned.room ▸ hroom
  have hleft := hpruned.evict (t.store.afterEviction now) rfl hmirrors hroom'.le
    (submap_afterEviction t.store)
  have hnew : key ∉ (t.store.afterEviction now).order := by
    rw [hleft.mirrors.mem_iff, ← Finmap.mem_keys]
    refine fun hmem => hkey (Finmap.mem_keys.1 ?_)
    exact Submap.keys_subset
      ((submap_afterEviction t.store).trans (prunes_beforeEviction t.store).submap) hmem
  rw [step, evictedKeys, if_neg hkey, insert_of_notMem hkey]
  refine hleft.put ⟨decision, expiresAt⟩ ⟨?_, fun k => ?_⟩ ?_
  · exact List.nodup_append.2 ⟨hleft.mirrors.nodup, List.nodup_singleton key, by grind⟩
  · rw [List.mem_append, List.mem_singleton, Finmap.mem_insert, or_comm, hleft.mirrors.mem_iff]
  · simpa using Nat.succ_le_of_lt hroom'

theorem Faithful.step (h : Faithful maxEntries t) (op : Operation K D) (hop : OnTime t op) :
    Faithful maxEntries (DecisionStore.step t op) := by
  cases op with
  | lookup key now => exact h.prune hop (prunes_lookup t.store key)
  | insert key decision expiresAt now =>
    by_cases hkey : key ∈ (t.store.dropExpiredFromFront now).entries
    · exact h.overwrite hop hkey
    · exact h.append hop hkey
  | dropExpiredFromFront now => exact h.prune hop (prunes_dropExpiredFromFront t.store)
  | dropAllExpired now => exact h.prune hop (prunes_dropAllExpired t.store)
  | clear now =>
    exact ⟨h.room, mirrors_empty, Nat.zero_le _, .refl _, fun k slot hlatest _ => hlatest⟩

/-- Over every run map and queue hold the same keys, within the room there is, and a lookup finds
the latest insertion that counts, until it expires. -/
theorem lookup_run (maxEntries : ℕ+) (ops : List (Operation K D))
    (hops : AllSteps DecisionStore.step OnTime (Traced.new maxEntries) ops) :
    let t := run DecisionStore.step (Traced.new maxEntries) ops
    t.store.entries.keys.card ≤ maxEntries ∧
      t.store.order.Nodup ∧ (∀ k, k ∈ t.store.order ↔ k ∈ t.store.entries) ∧
      ∀ key now decision, t.clock ≤ now →
        ((t.store.lookup key now).1 = .hit decision ↔
          ∃ slot, t.latest.lookup key = some slot ∧ now < slot.expiresAt ∧
            slot.decision = decision) := by
  have h := invariant_of_allSteps (I := Faithful maxEntries) (fun _ op h hop => h.step op hop)
    ⟨rfl, mirrors_empty, Nat.zero_le _, .refl _, fun _ _ hlatest _ => hlatest⟩ hops
  refine ⟨h.mirrors.card_keys.trans_le h.capacity, h.mirrors.nodup, h.mirrors.mem_iff, ?_⟩
  intro key now decision hnow
  rw [lookup_eq_hit_iff]
  refine exists_congr fun slot => and_congr_left fun hlive => ?_
  exact ⟨h.counts key slot, fun hlatest => h.live key slot hlatest (hnow.trans_lt hlive.1)⟩

theorem lookup_run_full :
    let t := run DecisionStore.step (Traced.new ⟨1, Nat.one_pos⟩)
      [.insert 'a' true 5 0, .insert 'b' false 9 2]
    (t.store.lookup 'a' 3).1 ≠ .hit true ∧ (t.store.lookup 'b' 3).1 = .hit false := by
  have h := (lookup_run ⟨1, Nat.one_pos⟩ [.insert 'a' true 5 0, .insert 'b' false 9 2]
    ⟨Nat.le_refl 0, Nat.zero_le 2, trivial⟩).2.2.2
  refine ⟨fun hhit => ?_, (h 'b' 3 false (Nat.le_succ 2)).2 ⟨⟨false, 9⟩, ?_, by decide, rfl⟩⟩
  · obtain ⟨slot, hslot, -⟩ := (h 'a' 3 true (Nat.le_succ 2)).1 hhit
    cases hslot
  · rfl

end Runs

end PraxisPolicy.DecisionStore
