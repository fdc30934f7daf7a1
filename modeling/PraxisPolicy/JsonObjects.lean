import PraxisPolicy.JsonValues

/-!
# JSON objects

Objects as ordered lists of members.  Values none of whose objects repeats a key are the same when
they differ in the order of members only.
-/

namespace PraxisPolicy.JsonValues

abbrev Members := List (String × Json)

section Members

/-- In place when the key is there, else last. -/
def insertMember (members : List (String × Json)) (key : String) (value : Json) :
    List (String × Json) :=
  match members with
  | [] => [(key, value)]
  | (key', value') :: rest =>
    if key' = key then (key, value) :: rest else (key', value') :: insertMember rest key value

def insertSomes (members : Members) (values : List (String × Option Json)) : Members :=
  values.foldl (fun ms e => e.2.elim ms (insertMember ms e.1)) members

def removeMember (members : Members) (key : String) : Members :=
  members.filter fun m => decide (m.1 ≠ key)

def modifyMember (members : Members) (key : String) (f : Json → Json) : Members :=
  members.map fun m => (m.1, if m.1 = key then f m.2 else m.2)

def entryMember (members : Members) (key : String) (value : Json) (f : Json → Json) : Members :=
  if (members.lookup key).isSome then modifyMember members key f
  else insertMember members key (f value)

variable {key other : String} {v w : Json} {f : Json → Json} {ms : Members} {g : Json → Json}

theorem mem_of_lookup {members : List (String × Json)} {key : String} {x : Json}
    (h : members.lookup key = some x) : (key, x) ∈ members := by
  obtain ⟨before, after, rfl, -⟩ := List.lookup_eq_some_iff.mp h
  simp

theorem lookup_cons_eq (k key : String) (v : Json) (rest : List (String × Json)) :
    ((k, v) :: rest).lookup key = if key = k then some v else rest.lookup key := by
  by_cases h : key = k
  · simp [h]
  · have hne : (key == k) = false := by simpa using h
    rw [List.lookup_cons, hne, if_neg h]

theorem lookup_insertMember (members : List (String × Json)) (key key' : String) (value : Json) :
    (insertMember members key value).lookup key' =
      if key' = key then some value else members.lookup key' := by
  induction members with
  | nil => rw [insertMember, lookup_cons_eq]
  | cons e rest ih =>
    obtain ⟨k, v⟩ := e
    rw [insertMember]
    by_cases hk : k = key
    · subst hk
      rw [if_pos rfl, lookup_cons_eq, lookup_cons_eq]
      by_cases h : key' = k <;> simp [h]
    · rw [if_neg hk, lookup_cons_eq, lookup_cons_eq, ih]
      by_cases h : key' = k
      · subst h
        simp [hk]
      · simp [h]

theorem lookup_insertSomes_of_ne {values : List (String × Option Json)}
    (h : key ∉ values.map Prod.fst) : (insertSomes ms values).lookup key = ms.lookup key := by
  induction values generalizing ms with
  | nil => rfl
  | cons e values ih =>
    simp only [List.map_cons, List.mem_cons, not_or] at h
    rw [insertSomes, List.foldl_cons, ← insertSomes, ih h.2]
    cases e.2 with
    | none => rfl
    | some v => rw [Option.elim_some, lookup_insertMember, if_neg h.1]

theorem insertSomes_append (values values' : List (String × Option Json)) :
    insertSomes ms (values ++ values') = insertSomes (insertSomes ms values) values' :=
  List.foldl_append

theorem lookup_insertSomes_singleton {value : Option Json} :
    (insertSomes ms [(key, value)]).lookup key = value.or (ms.lookup key) := by
  cases value with
  | none => rfl
  | some v => simp [insertSomes, lookup_insertMember]

@[simp] theorem lookup_removeMember :
    (removeMember ms key).lookup other = if other = key then none else ms.lookup other := by
  induction ms with
  | nil => simp [removeMember]
  | cons m ms ih =>
    obtain ⟨k, w⟩ := m
    by_cases hk : k = key
    · simp only [removeMember, List.filter_cons, hk, ne_eq, not_true, decide_false,
        Bool.false_eq_true, if_false, lookup_cons_eq] at ih ⊢
      rw [ih]
      split <;> rfl
    · simp only [removeMember, List.filter_cons, hk, ne_eq, not_false_iff, decide_true, if_true,
        lookup_cons_eq] at ih ⊢
      rw [ih]
      split_ifs <;> simp_all

@[simp] theorem lookup_modifyMember :
    (modifyMember ms key f).lookup other =
      if other = key then (ms.lookup other).map f else ms.lookup other := by
  induction ms with
  | nil => simp [modifyMember]
  | cons m ms ih =>
    obtain ⟨k, w⟩ := m
    simp only [modifyMember, List.map_cons, lookup_cons_eq] at ih ⊢
    rw [ih]
    split_ifs <;> simp_all

theorem lookup_entryMember :
    (entryMember ms key v f).lookup other =
      if other = key then some (f ((ms.lookup key).getD v)) else ms.lookup other := by
  unfold entryMember
  split
  next hsome =>
    obtain ⟨w, hw⟩ := Option.isSome_iff_exists.1 hsome
    rw [lookup_modifyMember]
    split
    next heq => simp [heq, hw]
    next => rfl
  next hnone =>
    rw [Option.not_isSome_iff_eq_none] at hnone
    simp [lookup_insertMember, hnone]

@[simp] theorem keys_modifyMember : (modifyMember ms key f).map Prod.fst = ms.map Prod.fst := by
  simp [modifyMember]

theorem lookup_eq_none_iff_keys : ms.lookup key = none ↔ key ∉ ms.map Prod.fst := by
  rw [List.lookup_eq_none_iff]
  simp only [List.mem_map, not_exists, not_and, bne_iff_ne, ne_eq]
  exact forall₂_congr fun m _ => not_congr eq_comm

theorem keys_insertMember :
    (insertMember ms key v).map Prod.fst =
      if key ∈ ms.map Prod.fst then ms.map Prod.fst else ms.map Prod.fst ++ [key] := by
  induction ms with
  | nil => simp [insertMember]
  | cons m ms ih =>
    by_cases hm : m.1 = key
    · simp [insertMember, hm]
    · simp only [insertMember, if_neg hm, List.map_cons, ih, List.mem_cons, Ne.symm hm, false_or]
      split <;> rfl

theorem keys_removeMember :
    (removeMember ms key).map Prod.fst = (ms.map Prod.fst).filter fun k => decide (k ≠ key) := by
  simp only [removeMember, List.filter_map]
  rfl

theorem removeMember_eq_self (h : ms.lookup key = none) : removeMember ms key = ms := by
  refine List.filter_eq_self.2 fun m hm => ?_
  have hne : m.1 ≠ key := fun heq =>
    lookup_eq_none_iff_keys.1 h (List.mem_map.2 ⟨m, hm, heq⟩)
  simpa using hne

theorem lookup_eq_some_iff_mem (hnodup : (ms.map Prod.fst).Nodup) :
    ms.lookup key = some v ↔ (key, v) ∈ ms := by
  induction ms with
  | nil => simp
  | cons m ms ih =>
    obtain ⟨k, w⟩ := m
    obtain ⟨hnot, hnodup⟩ := List.nodup_cons.1 hnodup
    rw [lookup_cons_eq, List.mem_cons, ← ih hnodup, Prod.mk.injEq]
    split
    next heq =>
      subst heq
      simp [lookup_eq_none_iff_keys.2 hnot, eq_comm]
    next hne => simp [hne]

/-! A member that was inserted or changed is taken back. -/

theorem removeMember_cons (k : String) (w : Json) :
    removeMember ((k, w) :: ms) key =
      if k = key then removeMember ms key else (k, w) :: removeMember ms key := by
  by_cases hk : k = key <;> simp [removeMember, hk]

theorem removeMember_insertMember (h : ms.lookup key = none) :
    removeMember (insertMember ms key v) key = ms := by
  induction ms with
  | nil => simp [insertMember, removeMember]
  | cons m ms ih =>
    obtain ⟨k, w⟩ := m
    rw [lookup_cons_eq] at h
    have hne : key ≠ k := fun heq => by simp [heq] at h
    rw [if_neg hne] at h
    rw [insertMember, if_neg hne.symm, removeMember_cons, if_neg hne.symm, ih h]

theorem removeMember_insertMember_of_ne (hne : key ≠ other) :
    removeMember (insertMember ms key v) other = insertMember (removeMember ms other) key v := by
  induction ms with
  | nil => simp [insertMember, removeMember, hne]
  | cons m ms ih =>
    obtain ⟨k, w⟩ := m
    rw [insertMember, removeMember_cons]
    by_cases hk : k = key
    · subst hk
      rw [if_pos rfl, if_neg hne, insertMember, if_pos rfl, removeMember_cons, if_neg hne]
    · rw [if_neg hk, removeMember_cons, ih]
      split
      · rfl
      · rw [insertMember, if_neg hk]

theorem modifyMember_modifyMember :
    modifyMember (modifyMember ms key f) key g = modifyMember ms key fun v => g (f v) := by
  simp only [modifyMember, List.map_map]
  refine List.map_congr_left fun m _ => ?_
  by_cases hm : m.1 = key <;> simp [hm]

theorem modifyMember_eq_self (hnodup : (ms.map Prod.fst).Nodup)
    (h : ∀ v, ms.lookup key = some v → f v = v) : modifyMember ms key f = ms := by
  refine (List.map_congr_left fun m hm => ?_).trans (List.map_id ms)
  by_cases hkey : m.1 = key
  · have hlookup : ms.lookup key = some m.2 :=
      (lookup_eq_some_iff_mem hnodup).2 (hkey ▸ hm)
    exact Prod.ext rfl (by rw [if_pos hkey, h m.2 hlookup, id])
  · simp [hkey]

theorem modifyMember_insertMember (h : ms.lookup key = none) :
    modifyMember (insertMember ms key v) key f = insertMember ms key (f v) := by
  induction ms with
  | nil => simp [insertMember, modifyMember]
  | cons m ms ih =>
    obtain ⟨k, w⟩ := m
    rw [lookup_cons_eq] at h
    have hne : key ≠ k := fun heq => by simp [heq] at h
    rw [if_neg hne] at h
    have htail := ih h
    simp only [modifyMember] at htail
    simp [insertMember, modifyMember, hne.symm, htail]

theorem modifyMember_insertMember_of_ne (hne : key ≠ other) :
    modifyMember (insertMember ms key v) other f = insertMember (modifyMember ms other f) key v := by
  induction ms with
  | nil => simp [insertMember, modifyMember, hne]
  | cons m ms ih =>
    obtain ⟨k, w⟩ := m
    simp only [modifyMember] at ih
    by_cases hk : k = key
    · subst hk
      simp [insertMember, modifyMember, hne]
    · simp [insertMember, modifyMember, hk, ih]

theorem modifyMember_entryMember_of_ne (hne : key ≠ other) :
    modifyMember (entryMember ms key v f) other g =
      entryMember (modifyMember ms other g) key v f := by
  unfold entryMember
  rw [lookup_modifyMember, if_neg hne]
  split
  · simp only [modifyMember, List.map_map]
    refine List.map_congr_left fun m _ => ?_
    by_cases hkey : m.1 = key
    · simp [hkey, hne]
    · simp [hkey]
  · exact modifyMember_insertMember_of_ne hne

end Members

namespace Json

def mapMembers (f : Members → Members) : Json → Json
  | .object ms => .object (f ms)
  | v => v

def insert (key : String) (v : Json) : Json → Json := mapMembers (insertMember · key v)

def remove (key : String) : Json → Json := mapMembers (removeMember · key)

def modify (key : String) (f : Json → Json) : Json → Json := mapMembers (modifyMember · key f)

def entry (key : String) (v : Json) (f : Json → Json) : Json → Json :=
  mapMembers (entryMember · key v f)

def modifyFirst (f : Json → Json) : Json → Json
  | .array (v :: vs) => .array (f v :: vs)
  | v => v

@[simp] theorem mapMembers_object (f : Members → Members) (ms : Members) :
    mapMembers f (.object ms) = .object (f ms) := rfl

@[simp] theorem remove_object (key : String) (ms : Members) :
    remove key (.object ms) = .object (removeMember ms key) := rfl

inductive Keyed : Json → Prop
  | null : Keyed .null
  | bool (b : Bool) : Keyed (.bool b)
  | number (n : Number) : Keyed (.number n)
  | string (s : String) : Keyed (.string s)
  | array {items : List Json} (h : ∀ v ∈ items, Keyed v) : Keyed (.array items)
  | object {members : Members} (hnodup : (members.map Prod.fst).Nodup)
      (h : ∀ m ∈ members, Keyed m.2) : Keyed (.object members)

attribute [simp] Keyed.null Keyed.bool Keyed.number Keyed.string

@[simp] theorem keyed_array {items : List Json} : Keyed (.array items) ↔ ∀ v ∈ items, Keyed v :=
  ⟨fun | .array h => h, .array⟩

@[simp] theorem keyed_object {members : Members} :
    Keyed (.object members) ↔ (members.map Prod.fst).Nodup ∧ ∀ m ∈ members, Keyed m.2 :=
  ⟨fun | .object hnodup h => ⟨hnodup, h⟩, fun h => .object h.1 h.2⟩

variable {key : String} {v w : Json} {f : Json → Json} {ms : Members}

theorem Keyed.of_lookup (h : Keyed (.object ms)) (hv : ms.lookup key = some v) : v.Keyed := by
  obtain ⟨before, after, rfl, -⟩ := List.lookup_eq_some_iff.1 hv
  exact (keyed_object.1 h).2 (key, v) (by simp)

theorem Keyed.insertMember (h : Keyed (.object ms)) (hv : v.Keyed) :
    Keyed (.object (insertMember ms key v)) := by
  obtain ⟨hnodup, hms⟩ := keyed_object.1 h
  refine .object ?_ ?_
  · rw [keys_insertMember]
    split
    next => exact hnodup
    next hkey =>
      refine List.nodup_append'.2 ⟨hnodup, by simp, fun k hk hmem => hkey ?_⟩
      rwa [List.mem_singleton.1 hmem] at hk
  · clear h hnodup
    induction ms with
    | nil => simpa [JsonValues.insertMember] using hv
    | cons m ms ih =>
      obtain ⟨hm, hms⟩ := List.forall_mem_cons.1 hms
      simp only [JsonValues.insertMember]
      split
      · exact List.forall_mem_cons.2 ⟨hv, hms⟩
      · exact List.forall_mem_cons.2 ⟨hm, ih hms⟩

def KeyedIfSome (value : Option Json) : Prop := ∀ v ∈ value, Keyed v

theorem KeyedIfSome.map {α : Type} {f : α → Json} (h : ∀ a, (f a).Keyed) (value : Option α) :
    KeyedIfSome (value.map f) := by
  intro v hv
  obtain ⟨a, -, rfl⟩ := Option.map_eq_some_iff.1 hv
  exact h a

theorem Keyed.ifSome (h : v.Keyed) : KeyedIfSome (some v) := by
  rintro _ ⟨⟩
  exact h

theorem KeyedIfSome.ite {p : Prop} [Decidable p] {value other : Option Json}
    (h : KeyedIfSome value) (hother : KeyedIfSome other) :
    KeyedIfSome (if p then value else other) := by
  split
  · exact h
  · exact hother

theorem KeyedIfSome.none : KeyedIfSome none := by
  rintro _ ⟨⟩

theorem Keyed.insertSomes {values : List (String × Option Json)} (h : Keyed (.object ms))
    (hvalues : ∀ e ∈ values, KeyedIfSome e.2) : Keyed (.object (insertSomes ms values)) := by
  induction values generalizing ms with
  | nil => exact h
  | cons e values ih =>
    obtain ⟨hhead, hrest⟩ := List.forall_mem_cons.1 hvalues
    obtain ⟨key, value⟩ := e
    cases value with
    | none => exact ih h hrest
    | some v => exact ih (h.insertMember (hhead v rfl)) hrest

theorem Keyed.removeMember (h : Keyed (.object ms)) : Keyed (.object (removeMember ms key)) := by
  obtain ⟨hnodup, hms⟩ := keyed_object.1 h
  refine .object ?_ fun m hm => hms m (List.mem_filter.1 hm).1
  rw [keys_removeMember]
  exact hnodup.filter _

theorem Keyed.modifyMember (h : Keyed (.object ms))
    (hf : ∀ v, ms.lookup key = some v → (f v).Keyed) :
    Keyed (.object (modifyMember ms key f)) := by
  obtain ⟨hnodup, hms⟩ := keyed_object.1 h
  refine .object (by rwa [keys_modifyMember]) fun m hm => ?_
  obtain ⟨n, hn, rfl⟩ := List.mem_map.1 hm
  dsimp only
  split
  · exact hf n.2 ((lookup_eq_some_iff_mem hnodup).2 (‹n.1 = key› ▸ hn))
  · exact hms n hn

theorem Keyed.entryMember (h : Keyed (.object ms)) (hf : (f ((ms.lookup key).getD v)).Keyed) :
    Keyed (.object (entryMember ms key v f)) := by
  unfold JsonValues.entryMember
  split
  next =>
    refine h.modifyMember fun w hw => ?_
    rwa [hw] at hf
  next hnone =>
    rw [Option.not_isSome_iff_eq_none] at hnone
    rw [hnone] at hf
    exact h.insertMember hf

theorem Keyed.remove (h : v.Keyed) (key : String) : (v.remove key).Keyed := by
  cases v with
  | object ms => exact h.removeMember
  | _ => exact h

theorem Keyed.modify (h : v.Keyed) (hf : ∀ w, Keyed w → (f w).Keyed) (key : String) :
    (v.modify key f).Keyed := by
  cases v with
  | object ms => exact h.modifyMember fun w hw => hf w (h.of_lookup hw)
  | _ => exact h

theorem Keyed.modifyFirst (h : v.Keyed) (hf : ∀ w, Keyed w → (f w).Keyed) :
    (v.modifyFirst f).Keyed := by
  cases v with
  | array items =>
    cases items with
    | nil => exact h
    | cons w ws =>
      obtain ⟨hw, hws⟩ := List.forall_mem_cons.1 (keyed_array.1 h)
      exact .array (List.forall_mem_cons.2 ⟨hf w hw, hws⟩)
  | _ => exact h

/-- Equal but for the order of members. -/
inductive SameValue : Json → Json → Prop
  | refl (v : Json) : SameValue v v
  | trans {u v w : Json} (h₁ : SameValue u v) (h₂ : SameValue v w) : SameValue u w
  | item {v w : Json} {xs ys : List Json} (h : SameValue v w)
      (hs : SameValue (.array xs) (.array ys)) : SameValue (.array (v :: xs)) (.array (w :: ys))
  | member {key : String} {v w : Json} {xs ys : Members} (h : SameValue v w)
      (hs : SameValue (.object xs) (.object ys)) :
      SameValue (.object ((key, v) :: xs)) (.object ((key, w) :: ys))
  | reorder {xs ys : Members} (h : xs.Perm ys) : SameValue (.object xs) (.object ys)

theorem SameValue.symm (h : SameValue v w) : SameValue w v := by
  induction h with
  | refl v => exact .refl v
  | trans _ _ ih ih' => exact ih'.trans ih
  | item _ _ ih ihs => exact .item ih ihs
  | member _ _ ih ihs => exact .member ih ihs
  | reorder h => exact .reorder h.symm

theorem sameValue_array {xs ys : List Json} (h : List.Forall₂ SameValue xs ys) :
    SameValue (.array xs) (.array ys) := by
  induction h with
  | nil => exact .refl _
  | cons hhead _ ih => exact .item hhead ih

theorem sameValue_object {xs ys : Members}
    (h : List.Forall₂ (fun m n => m.1 = n.1 ∧ SameValue m.2 n.2) xs ys) :
    SameValue (.object xs) (.object ys) := by
  induction h with
  | nil => exact .refl _
  | @cons m n xs ys hhead _ ih =>
    obtain ⟨k, v⟩ := m
    obtain ⟨k', w⟩ := n
    obtain ⟨rfl, hvalue⟩ := hhead
    exact .member hvalue ih

def keys : Json → List String
  | .object ms => ms.map Prod.fst
  | _ => []

theorem SameValue.keys_perm (h : SameValue v w) : v.keys.Perm w.keys := by
  induction h with
  | refl v => exact .refl _
  | trans _ _ ih₁ ih₂ => exact ih₁.trans ih₂
  | item _ _ _ _ => exact .refl _
  | member _ _ _ ihs => exact ihs.cons _
  | reorder h => exact h.map _

theorem SameValue.keyed (h : SameValue v w) (hv : v.Keyed) : w.Keyed := by
  induction h with
  | refl v => exact hv
  | trans _ _ ih₁ ih₂ => exact ih₂ (ih₁ hv)
  | item _ _ ih ihs =>
    simp only [keyed_array, List.forall_mem_cons] at hv ihs ⊢
    exact ⟨ih hv.1, ihs hv.2⟩
  | member _ hs ih ihs =>
    simp only [keyed_object, List.forall_mem_cons, List.map_cons, List.nodup_cons] at hv ihs ⊢
    obtain ⟨⟨hkey, hnodup⟩, hhead, hrest⟩ := hv
    obtain ⟨hnodup', hrest'⟩ := ihs ⟨hnodup, hrest⟩
    exact ⟨⟨fun hmem => hkey (hs.keys_perm.mem_iff.2 hmem), hnodup'⟩, ih hhead, hrest'⟩
  | reorder h =>
    obtain ⟨hnodup, hms⟩ := keyed_object.1 hv
    exact .object ((h.map _).nodup_iff.1 hnodup) fun m hm => hms m (h.mem_iff.2 hm)

end Json

/-- A value as a parser or a map produces it. -/
abbrev KeyedJson := { v : Json // v.Keyed }

end PraxisPolicy.JsonValues
