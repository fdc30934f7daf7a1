import Mathlib.Data.List.Sort

/-!
# Lists sorted by a key

When the keys are different nothing is left open, so lists with the same elements are sorted to the
same list.
-/

namespace PraxisPolicy.SortedLists

variable {α β K : Type*} [LinearOrder K] {key : α → K} {l m : List α}

def sortOn (key : α → K) (l : List α) : List α := l.insertionSort fun a b => key a ≤ key b

theorem perm_sortOn (key : α → K) (l : List α) : (sortOn key l).Perm l :=
  List.perm_insertionSort _ l

@[simp] theorem mem_sortOn {a : α} : a ∈ sortOn key l ↔ a ∈ l := (perm_sortOn key l).mem_iff

@[simp] theorem length_sortOn : (sortOn key l).length = l.length := (perm_sortOn key l).length_eq

theorem pairwise_sortOn (key : α → K) (l : List α) :
    (sortOn key l).Pairwise fun a b => key a ≤ key b := by
  have : Std.Total fun a b : α => key a ≤ key b := ⟨fun a b => le_total (key a) (key b)⟩
  have : IsTrans α fun a b => key a ≤ key b := ⟨fun _ _ _ => le_trans⟩
  exact List.pairwise_insertionSort _ l

theorem sortOn_eq_of_perm (hnodup : (l.map key).Nodup) (hperm : l.Perm m) :
    sortOn key l = sortOn key m := by
  have hsorted := ((perm_sortOn key l).trans hperm).trans (perm_sortOn key m).symm
  refine hsorted.eq_of_pairwise (fun a b ha hb hab hba => ?_) (pairwise_sortOn key l)
    (pairwise_sortOn key m)
  have hdistinct := ((perm_sortOn key l).map key).nodup_iff.2 hnodup
  exact List.inj_on_of_nodup_map hdistinct ha (hsorted.mem_iff.2 hb) (le_antisymm hab hba)

theorem sortOn_eq_self (h : l.Pairwise fun a b => key a ≤ key b) : sortOn key l = l :=
  h.insertionSort_eq

theorem map_sortOn {key' : β → K} {f : α → β} (h : ∀ a ∈ l, key' (f a) = key a) :
    (sortOn key l).map f = sortOn key' (l.map f) := by
  refine List.map_insertionSort _ _ _ _ fun a ha b hb => ?_
  rw [h a ha, h b hb]

section Stability

def insertOn (key : α → K) (a : α) (l : List α) : List α :=
  l.orderedInsert (fun a b => key a ≤ key b) a

theorem pairwise_insertOn (a : α) (h : l.Pairwise fun a b => key a ≤ key b) :
    (insertOn key a l).Pairwise fun a b => key a ≤ key b := by
  have : Std.Total fun a b : α => key a ≤ key b := ⟨fun a b => le_total (key a) (key b)⟩
  have : IsTrans α fun a b => key a ≤ key b := ⟨fun _ _ _ => le_trans⟩
  exact List.Pairwise.orderedInsert a l h

@[simp] theorem insertOn_nil (a : α) : insertOn key a [] = [a] := rfl

variable {a b : α}

theorem insertOn_cons_of_le (h : key a ≤ key b) (l : List α) :
    insertOn key a (b :: l) = a :: b :: l := if_pos h

theorem insertOn_cons_of_lt (h : key b < key a) (l : List α) :
    insertOn key a (b :: l) = b :: insertOn key a l := if_neg h.not_ge

@[simp] theorem sortOn_cons (a : α) (l : List α) :
    sortOn key (a :: l) = insertOn key a (sortOn key l) := rfl

theorem insertOn_comm (h : key b < key a) (l : List α) :
    insertOn key b (insertOn key a l) = insertOn key a (insertOn key b l) := by
  induction l with
  | nil => rw [insertOn_nil, insertOn_nil, insertOn_cons_of_le h.le, insertOn_cons_of_lt h,
      insertOn_nil]
  | cons x l ih =>
    rcases le_or_gt (key a) (key x) with ha | ha
    · rw [insertOn_cons_of_le ha, insertOn_cons_of_le h.le, insertOn_cons_of_le (h.le.trans ha),
        insertOn_cons_of_lt h, insertOn_cons_of_le ha]
    · rcases le_or_gt (key b) (key x) with hb | hb
      · rw [insertOn_cons_of_lt ha, insertOn_cons_of_le hb, insertOn_cons_of_le hb,
          insertOn_cons_of_lt h, insertOn_cons_of_lt ha]
      · rw [insertOn_cons_of_lt ha, insertOn_cons_of_lt hb, insertOn_cons_of_lt hb,
          insertOn_cons_of_lt ha, ih]

theorem foldr_insertOn_insertOn (a : α) (l m : List α) :
    (insertOn key a l).foldr (insertOn key) m = insertOn key a (l.foldr (insertOn key) m) := by
  induction l with
  | nil => rfl
  | cons b l ih =>
    rcases le_or_gt (key a) (key b) with hab | hab
    · rw [insertOn_cons_of_le hab, List.foldr_cons]
    · rw [insertOn_cons_of_lt hab, List.foldr_cons, ih, insertOn_comm hab, List.foldr_cons]

theorem sortOn_append (l m : List α) :
    sortOn key (l ++ m) = l.foldr (insertOn key) (sortOn key m) := by
  induction l with
  | nil => rfl
  | cons a l ih => rw [List.cons_append, sortOn_cons, ih, List.foldr_cons]

theorem sortOn_sortOn_append (l m : List α) :
    sortOn key (sortOn key l ++ m) = sortOn key (l ++ m) := by
  rw [sortOn_append, sortOn_append]
  induction l with
  | nil => rfl
  | cons a l ih => rw [sortOn_cons, foldr_insertOn_insertOn, ih, List.foldr_cons]

theorem insertOn_eq_cons {a : α} {l : List α} (h : ∀ b ∈ l, key a ≤ key b) :
    insertOn key a l = a :: l := by
  cases l with
  | nil => rfl
  | cons b l => exact insertOn_cons_of_le (h b List.mem_cons_self) l

theorem filter_insertOn (p : α → Bool) (a : α) {l : List α}
    (hl : l.Pairwise fun a b => key a ≤ key b) :
    (insertOn key a l).filter p =
      if p a then insertOn key a (l.filter p) else l.filter p := by
  induction l with
  | nil => simp [List.filter_cons]
  | cons b l ih =>
    obtain ⟨hb, hl⟩ := List.pairwise_cons.1 hl
    rcases le_or_gt (key a) (key b) with hab | hab
    · have hall : ∀ c ∈ List.filter p (b :: l), key a ≤ key c := by
        intro c hc
        rcases List.mem_cons.1 (List.mem_of_mem_filter hc) with rfl | hc
        · exact hab
        · exact hab.trans (hb c hc)
      rw [insertOn_cons_of_le hab, List.filter_cons, insertOn_eq_cons hall]
    · rw [insertOn_cons_of_lt hab, List.filter_cons, ih hl, List.filter_cons]
      split_ifs
      · rw [insertOn_cons_of_lt hab]
      · rfl
      · rfl
      · rfl

theorem filter_sortOn (p : α → Bool) (l : List α) :
    (sortOn key l).filter p = sortOn key (l.filter p) := by
  induction l with
  | nil => rfl
  | cons a l ih =>
    rw [sortOn_cons, filter_insertOn p a (pairwise_sortOn key l), ih, List.filter_cons]
    split_ifs <;> rfl

theorem filter_key_sortOn (k : K) (l : List α) :
    (sortOn key l).filter (fun a => key a = k) = l.filter fun a => key a = k := by
  rw [filter_sortOn]
  refine sortOn_eq_self (List.pairwise_of_forall_mem_list fun a ha b hb => ?_)
  have hka := of_decide_eq_true (List.mem_filter.1 ha).2
  have hkb := of_decide_eq_true (List.mem_filter.1 hb).2
  exact (hka.trans hkb.symm).le

end Stability

end PraxisPolicy.SortedLists
