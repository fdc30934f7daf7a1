import Mathlib.Data.Finmap

/-!
# Hash maps and the order they are iterated in

A hash map is Mathlib's `Finmap`.  Code that loops over a map is modelled on a list that
`Enumerates` it.  The second half is about sequences of writes.
-/

namespace PraxisPolicy.HashMaps

abbrev HashMap (K V : Type) := Finmap fun _ : K => V

variable {K V : Type}

section Operations

def retain (p : K → Bool) (m : HashMap K V) : HashMap K V where
  entries := m.entries.filter fun e => p e.1
  nodupKeys := Multiset.nodup_keys.mp <|
    Multiset.nodup_of_le (Multiset.map_le_map (Multiset.filter_le _ _))
      (Multiset.nodup_keys.mpr m.nodupKeys)

def retainValues (p : V → Bool) (m : HashMap K V) : HashMap K V where
  entries := m.entries.filter fun e => p e.2
  nodupKeys := Multiset.nodup_keys.mp <|
    Multiset.nodup_of_le (Multiset.map_le_map (Multiset.filter_le _ _))
      (Multiset.nodup_keys.mpr m.nodupKeys)

def mapValues (f : K → V → V) (m : HashMap K V) : HashMap K V where
  entries := m.entries.map fun e => ⟨e.1, f e.1 e.2⟩
  nodupKeys := Multiset.nodup_keys.mp <| by
    simpa [Multiset.keys, Multiset.map_map, Function.comp_def] using
      Multiset.nodup_keys.mpr m.nodupKeys

variable [DecidableEq K]

@[simp] theorem lookup_retain (p : K → Bool) (m : HashMap K V) (k : K) :
    (retain p m).lookup k = if p k then m.lookup k else none := by
  ext v
  rw [← Option.mem_def, Finmap.mem_lookup_iff]
  by_cases h : p k <;> simp [retain, h, ← Finmap.mem_lookup_iff]

@[simp] theorem lookup_retainValues (p : V → Bool) (m : HashMap K V) (k : K) :
    (retainValues p m).lookup k = (m.lookup k).filter p := by
  ext v
  rw [← Option.mem_def, Finmap.mem_lookup_iff]
  simp [retainValues, ← Finmap.mem_lookup_iff, Option.filter_eq_some_iff]

@[simp] theorem lookup_mapValues (f : K → V → V) (m : HashMap K V) (k : K) :
    (mapValues f m).lookup k = (m.lookup k).map (f k) := by
  ext v
  rw [← Option.mem_def, Finmap.mem_lookup_iff]
  simp only [mapValues, Multiset.mem_map, Option.map_eq_some_iff]
  constructor
  · rintro ⟨⟨k', v'⟩, hmem, heq⟩
    cases heq
    exact ⟨v', Finmap.mem_lookup_iff.mpr hmem, rfl⟩
  · rintro ⟨v', hlook, rfl⟩
    exact ⟨⟨k, v'⟩, Finmap.mem_lookup_iff.mp hlook, rfl⟩

/-- The entries of `other` overwrite those of `m`. -/
def extend (m other : HashMap K V) : HashMap K V := other ∪ m

@[simp] theorem lookup_extend (m other : HashMap K V) (k : K) :
    (extend m other).lookup k = (other.lookup k).or (m.lookup k) := by
  by_cases h : k ∈ other
  · obtain ⟨v, hv⟩ := Finmap.mem_iff.mp h
    simp [extend, Finmap.lookup_union_left h, hv]
  · simp [extend, Finmap.lookup_union_right h, Finmap.lookup_eq_none.mpr h]

theorem lookup_insert_eq (m : HashMap K V) (k k' : K) (v : V) :
    (m.insert k v).lookup k' = if k' = k then some v else m.lookup k' := by
  by_cases h : k' = k
  · subst h
    simp
  · simp [h]

theorem keys_insert (m : HashMap K V) (k : K) (v : V) :
    (m.insert k v).keys = insert k m.keys := by
  ext other
  simp [Finmap.mem_keys, Finmap.mem_insert]

def Submap (m m' : HashMap K V) : Prop := ∀ k v, m.lookup k = some v → m'.lookup k = some v

theorem Submap.refl (m : HashMap K V) : Submap m m := fun _ _ h => h

theorem Submap.trans {m₁ m₂ m₃ : HashMap K V} (h₁ : Submap m₁ m₂) (h₂ : Submap m₂ m₃) :
    Submap m₁ m₃ :=
  fun k v h => h₂ k v (h₁ k v h)

theorem Submap.keys_subset {m m' : HashMap K V} (h : Submap m m') : m.keys ⊆ m'.keys := by
  intro k hk
  obtain ⟨v, hv⟩ := Finmap.mem_iff.1 (Finmap.mem_keys.1 hk)
  exact Finmap.mem_keys.2 (Finmap.mem_iff.2 ⟨v, h k v hv⟩)

theorem Submap.lookup_insert {m m' : HashMap K V} (h : Submap m m') {k k' : K} {v v' : V}
    (hlookup : (m.insert k v).lookup k' = some v') :
    (k' = k ∧ v' = v) ∨ m'.lookup k' = some v' := by
  rw [lookup_insert_eq] at hlookup
  split_ifs at hlookup with hk
  · exact .inl ⟨hk, (Option.some.inj hlookup).symm⟩
  · exact .inr (h k' v' hlookup)

theorem submap_erase (m : HashMap K V) (key : K) : Submap (m.erase key) m := by
  intro k v h
  by_cases hk : k = key
  · rw [hk, Finmap.lookup_erase] at h
    cases h
  · rwa [Finmap.lookup_erase_ne hk] at h

end Operations

section Iteration

variable [DecidableEq K]

structure Enumerates (order : List (K × V)) (m : HashMap K V) : Prop where
  nodup : (order.map Prod.fst).Nodup
  mem_iff : ∀ k v, (k, v) ∈ order ↔ m.lookup k = some v

theorem Enumerates.perm {order order' : List (K × V)} {m : HashMap K V}
    (h : Enumerates order m) (hp : order'.Perm order) : Enumerates order' m where
  nodup := (hp.map _).nodup_iff.mpr h.nodup
  mem_iff k v := hp.mem_iff.trans (h.mem_iff k v)

theorem exists_enumerates (m : HashMap K V) : ∃ order, Enumerates order m := by
  induction m using Finmap.induction_on with
  | _ s =>
    refine ⟨s.entries.map fun e => (e.1, e.2), ?_, fun k v => ?_⟩
    · simpa [List.map_map, Function.comp_def, List.NodupKeys, List.keys] using s.nodupKeys
    · rw [← Option.mem_def, Finmap.mem_lookup_iff]
      simp only [List.mem_map, Prod.mk.injEq]
      constructor
      · rintro ⟨⟨k', v'⟩, hmem, rfl, rfl⟩
        exact hmem
      · intro hmem
        exact ⟨⟨k, v⟩, hmem, rfl, rfl⟩

def writeAll (m : HashMap K V) (writes : List (K × V)) : HashMap K V :=
  writes.foldl (fun acc w => acc.insert w.1 w.2) m

def lastWrite (k : K) : List (K × V) → Option V
  | [] => none
  | w :: writes => (lastWrite k writes).or (if w.1 = k then some w.2 else none)

@[simp] theorem lastWrite_nil (k : K) : lastWrite k ([] : List (K × V)) = none := rfl

theorem lastWrite_cons (k : K) (w : K × V) (writes : List (K × V)) :
    lastWrite k (w :: writes) =
      (lastWrite k writes).or (if w.1 = k then some w.2 else none) := rfl

theorem lastWrite_append (k : K) (xs ys : List (K × V)) :
    lastWrite k (xs ++ ys) = (lastWrite k ys).or (lastWrite k xs) := by
  induction xs with
  | nil => simp
  | cons x xs ih => simp [lastWrite_cons, ih, Option.or_assoc]

theorem lookup_writeAll (m : HashMap K V) (writes : List (K × V)) (k : K) :
    (writeAll m writes).lookup k = (lastWrite k writes).or (m.lookup k) := by
  induction writes generalizing m with
  | nil => simp [writeAll]
  | cons w writes ih =>
    have hstep : writeAll m (w :: writes) = writeAll (m.insert w.1 w.2) writes := rfl
    rw [hstep, ih, lookup_insert_eq, lastWrite_cons]
    by_cases h : k = w.1
    · subst h
      cases lastWrite w.1 writes <;> simp
    · cases lastWrite k writes <;> simp [h, Ne.symm h]

@[simp] theorem writeAll_append (m : HashMap K V) (xs ys : List (K × V)) :
    writeAll m (xs ++ ys) = writeAll (writeAll m xs) ys := by
  simp [writeAll]

variable {k : K} {writes : List (K × V)} {v : V} {ι : Type}

theorem lastWrite_mem (h : lastWrite k writes = some v) : (k, v) ∈ writes := by
  induction writes with
  | nil => simp at h
  | cons w writes ih =>
    rw [lastWrite_cons, Option.or_eq_some_iff] at h
    rcases h with h | ⟨-, h⟩
    · exact List.mem_cons_of_mem _ (ih h)
    · by_cases hk : w.1 = k
      · simp only [hk, if_true, Option.some.injEq] at h
        subst hk h
        simp
      · simp [hk] at h

theorem lastWrite_eq_none_iff :
    lastWrite k writes = none ↔ k ∉ writes.map Prod.fst := by
  induction writes with
  | nil => simp
  | cons w writes ih =>
    rw [lastWrite_cons, Option.or_eq_none_iff, ih]
    by_cases hk : w.1 = k
    · simp [hk]
    · simp [hk, Ne.symm hk]

theorem lastWrite_of_nodup (hnodup : (writes.map Prod.fst).Nodup) (h : (k, v) ∈ writes) :
    lastWrite k writes = some v := by
  induction writes with
  | nil => simp at h
  | cons w writes ih =>
    obtain ⟨hfresh, hrest⟩ := List.nodup_cons.mp hnodup
    rw [lastWrite_cons]
    rcases List.mem_cons.mp h with rfl | h
    · have hnone : lastWrite k writes = none := lastWrite_eq_none_iff.mpr hfresh
      simp [hnone]
    · rw [ih hrest h, Option.some_or]

theorem lastWrite_flatMap_mem {f : ι → List (K × V)} {blocks : List ι}
    (h : lastWrite k (blocks.flatMap f) = some v) :
    ∃ b ∈ blocks, lastWrite k (f b) = some v := by
  induction blocks with
  | nil => simp at h
  | cons b blocks ih =>
    rw [List.flatMap_cons, lastWrite_append, Option.or_eq_some_iff] at h
    rcases h with h | ⟨-, h⟩
    · obtain ⟨b', hb', hlast⟩ := ih h
      exact ⟨b', List.mem_cons_of_mem _ hb', hlast⟩
    · exact ⟨b, List.mem_cons_self, h⟩

theorem lastWrite_flatMap_none {f : ι → List (K × V)} {blocks : List ι} :
    lastWrite k (blocks.flatMap f) = none ↔ ∀ b ∈ blocks, lastWrite k (f b) = none := by
  induction blocks with
  | nil => simp
  | cons b blocks ih =>
    rw [List.flatMap_cons, lastWrite_append, Option.or_eq_none_iff, ih]
    simp [and_comm]

/-- Loops over the same blocks leave the same value where the blocks that write it agree. -/
theorem lastWrite_flatMap_congr {f : ι → List (K × V)} {blocks blocks' : List ι}
    (hmem : ∀ b, b ∈ blocks ↔ b ∈ blocks')
    (hagree : ∀ b ∈ blocks, ∀ b' ∈ blocks, ∀ x y, lastWrite k (f b) = some x →
      lastWrite k (f b') = some y → x = y) :
    lastWrite k (blocks.flatMap f) = lastWrite k (blocks'.flatMap f) := by
  cases hx : lastWrite k (blocks.flatMap f) with
  | none =>
    rw [lastWrite_flatMap_none] at hx
    exact (lastWrite_flatMap_none.mpr fun b hb => hx b ((hmem b).mpr hb)).symm
  | some x =>
    obtain ⟨b, hb, hxb⟩ := lastWrite_flatMap_mem hx
    cases hy : lastWrite k (blocks'.flatMap f) with
    | none =>
      rw [lastWrite_flatMap_none] at hy
      rw [hy b ((hmem b).mp hb)] at hxb
      cases hxb
    | some y =>
      obtain ⟨b', hb', hyb⟩ := lastWrite_flatMap_mem hy
      rw [hagree b hb b' ((hmem b').mpr hb') x y hxb hyb]

/-- Entries whose blocks both write some key leave the same value there. -/
def BlocksAgree {K' V' : Type} [DecidableEq K'] (f : K' × V' → List (K × V))
    (m : HashMap K' V') : Prop :=
  ∀ k₁ v₁ k₂ v₂, m.lookup k₁ = some v₁ → m.lookup k₂ = some v₂ →
    ∀ k x y, lastWrite k (f (k₁, v₁)) = some x → lastWrite k (f (k₂, v₂)) = some y → x = y

section Blocks

variable {K' V' : Type} [DecidableEq K'] {f : K' × V' → List (K × V)} {m : HashMap K' V'}
  {order order' : List (K' × V')}

theorem Enumerates.mem_congr (ho : Enumerates order m)
    (ho' : Enumerates order' m) (e : K' × V') : e ∈ order ↔ e ∈ order' :=
  (ho.mem_iff e.1 e.2).trans (ho'.mem_iff e.1 e.2).symm

theorem BlocksAgree.lastWrite_eq (h : BlocksAgree f m)
    (ho : Enumerates order m) (ho' : Enumerates order' m) (k : K) :
    lastWrite k (order.flatMap f) = lastWrite k (order'.flatMap f) :=
  lastWrite_flatMap_congr (ho.mem_congr ho') fun e he e' he' =>
    h e.1 e.2 e'.1 e'.2 ((ho.mem_iff _ _).mp he) ((ho.mem_iff _ _).mp he') k

theorem exists_enumerations_ending {e₁ e₂ : K' × V'} (h₁ : m.lookup e₁.1 = some e₁.2)
    (h₂ : m.lookup e₂.1 = some e₂.2) (hne : e₁ ≠ e₂) :
    ∃ rest, Enumerates (rest ++ [e₁, e₂]) m ∧ Enumerates (rest ++ [e₂, e₁]) m := by
  classical
  obtain ⟨order, ho⟩ := exists_enumerates m
  have hmem₁ : e₁ ∈ order := (ho.mem_iff _ _).mpr h₁
  have hmem₂ : e₂ ∈ order.erase e₁ :=
    (List.mem_erase_of_ne hne.symm).mpr ((ho.mem_iff _ _).mpr h₂)
  have hperm : order.Perm (e₁ :: e₂ :: (order.erase e₁).erase e₂) :=
    (List.perm_cons_erase hmem₁).trans ((List.perm_cons_erase hmem₂).cons e₁)
  refine ⟨(order.erase e₁).erase e₂, ho.perm (List.perm_append_comm.trans hperm.symm), ?_⟩
  exact ho.perm ((List.perm_append_comm.trans (List.Perm.swap e₁ e₂ _)).trans hperm.symm)

/-- Where nothing later touches what a loop writes, the map is the same for every order only if the
blocks agree. -/
theorem blocksAgree_of_order_independent (base : HashMap K V) (before after : List (K × V))
    (hafter : ∀ e w, m.lookup e.1 = some e.2 → w ∈ f e → lastWrite w.1 after = none)
    (h : ∀ order order', Enumerates order m → Enumerates order' m →
      writeAll base (before ++ order.flatMap f ++ after) =
        writeAll base (before ++ order'.flatMap f ++ after)) :
    BlocksAgree f m := by
  intro k₁ v₁ k₂ v₂ h₁ h₂ k x y hx hy
  by_cases hne : (k₁, v₁) = (k₂, v₂)
  · rw [hne, hy] at hx
    exact (Option.some.inj hx).symm
  · obtain ⟨rest, ho, ho'⟩ := exists_enumerations_ending (m := m) h₁ h₂ hne
    have hquiet : lastWrite k after = none := hafter (k₁, v₁) (k, x) h₁ (lastWrite_mem hx)
    have heq := congrArg (Finmap.lookup k) (h _ _ ho ho')
    simp only [lookup_writeAll, List.flatMap_append, List.flatMap_cons, List.flatMap_nil,
      List.append_nil, lastWrite_append, hx, hy, hquiet, Option.some_or, Option.none_or,
      Option.some.injEq] at heq
    exact heq.symm

end Blocks

end Iteration

end PraxisPolicy.HashMaps
