import PraxisPolicy.JsonObjects

/-!
# Merging the edits of a pipeline and of plugins

Field pipelines turned `pre` into `post`, and plugins the payload into one that projects to
`base`.  What the pipelines changed is applied to `base`.
-/

namespace PraxisPolicy

open JsonValues BinaryFloats

def numberEq : Number → Number → Bool
  | .posInt a, .posInt b => a == b
  | .negInt a, .negInt b => a == b
  | .float a, .float b => a.eq b
  | _, _ => false

mutual

/-- `PartialEq` of JSON values: the order of members says nothing. -/
def jsonEq : Json → Json → Bool
  | .null, .null => true
  | .bool a, .bool b => a == b
  | .number a, .number b => numberEq a b
  | .string a, .string b => a == b
  | .array xs, .array ys => itemsEq xs ys
  | .object ms, .object ns => membersEq ms ns && ns.all fun n => (ms.lookup n.1).isSome
  | _, _ => false

def itemsEq : List Json → List Json → Bool
  | [], [] => true
  | x :: xs, y :: ys => jsonEq x y && itemsEq xs ys
  | _, _ => false

def membersEq : List (String × Json) → List (String × Json) → Bool
  | [], _ => true
  | (key, v) :: ms, ns => ((ns.lookup key).any fun w => jsonEq v w) && membersEq ms ns

end

theorem membersEq_iff {ms ns : Members} : membersEq ms ns = true ↔
    ∀ m ∈ ms, ∃ w, ns.lookup m.1 = some w ∧ jsonEq m.2 w = true := by
  induction ms with
  | nil => simp [membersEq]
  | cons m ms ih =>
    obtain ⟨key, v⟩ := m
    rw [membersEq, Bool.and_eq_true, ih, List.forall_mem_cons, Option.any_eq_true]

def isObject : Json → Bool
  | .object _ => true
  | _ => false

def omitMembers (preMap postMap baseMap : Members) : Members :=
  preMap.foldl (fun base m => if (postMap.lookup m.1).isNone then removeMember base m.1 else base)
    baseMap

/-- Merged if there is an object to merge into. -/
def mergeChanged (merge : Json → Json → Json) (preValue postValue : Json) :
    Option Json → Json
  | some baseValue =>
    if isObject baseValue && (isObject preValue && isObject postValue) then
      merge baseValue preValue
    else postValue
  | none => postValue

mutual

def applyChangedPaths (base pre : Json) : Json → Json
  | .object postMap => match pre with
    | .object preMap => match base with
      | .object baseMap =>
        .object (mergeMembers preMap postMap (omitMembers preMap postMap baseMap))
      | _ => .object postMap
    | _ => .object postMap
  | post => if jsonEq pre post then base else post

def mergeMembers (preMap : Members) : List (String × Json) → Members → Members
  | [], baseMap => baseMap
  | (key, postValue) :: rest, baseMap =>
    mergeMembers preMap rest (match preMap.lookup key with
      | some preValue =>
        if jsonEq preValue postValue then baseMap
        else insertMember baseMap key (mergeChanged
          (fun base pre => applyChangedPaths base pre postValue) preValue postValue
          (baseMap.lookup key))
      | none => insertMember baseMap key postValue)

end

/-- Through objects only. -/
def valueAt : Json → List String → Option Json
  | v, [] => some v
  | .object ms, key :: path => (ms.lookup key).bind fun v => valueAt v path
  | _, _ :: _ => none

/-- Nothing on either side, or equal values. -/
def Agree : Option Json → Option Json → Prop
  | none, none => True
  | some v, some w => jsonEq v w = true
  | _, _ => False

instance : ∀ v w, Decidable (Agree v w)
  | none, none => isTrue trivial
  | some v, some w => inferInstanceAs (Decidable (jsonEq v w = true))
  | none, some _ => isFalse id
  | some _, none => isFalse id

@[simp] theorem valueAt_nil (v : Json) : valueAt v [] = some v := by
  cases v <;> rfl

@[simp] theorem valueAt_object (ms : Members) (key : String) (path : List String) :
    valueAt (.object ms) (key :: path) = (ms.lookup key).bind fun v => valueAt v path := rfl

theorem exists_object {v : Json} (h : isObject v = true) : ∃ ms, v = .object ms := by
  cases v with
  | object ms => exact ⟨ms, rfl⟩
  | _ => cases h

theorem valueAt_cons_of_not_object {v : Json} (h : isObject v = false) (key : String)
    (path : List String) : valueAt v (key :: path) = none := by
  cases v with
  | object _ => cases h
  | _ => rfl

theorem isObject_eq_of_jsonEq {v w : Json} (h : jsonEq v w = true) : isObject v = isObject w := by
  cases v <;> cases w <;> first | rfl | simp [jsonEq] at h

theorem agree_lookup {ms ns : Members} (h : jsonEq (.object ms) (.object ns) = true)
    (key : String) : Agree (ms.lookup key) (ns.lookup key) := by
  rw [jsonEq, Bool.and_eq_true, membersEq_iff, List.all_eq_true] at h
  cases hm : ms.lookup key with
  | some v =>
    obtain ⟨w, hw, heq⟩ := h.1 _ (mem_of_lookup hm)
    rw [hw]
    exact heq
  | none =>
    cases hn : ns.lookup key with
    | none => trivial
    | some w =>
      have hsome := h.2 _ (mem_of_lookup hn)
      rw [hm] at hsome
      cases hsome

theorem agree_valueAt {v w : Json} (h : jsonEq v w = true) (path : List String) :
    Agree (valueAt v path) (valueAt w path) := by
  induction path generalizing v w with
  | nil =>
    rw [valueAt_nil, valueAt_nil]
    exact h
  | cons key path ih =>
    by_cases hv : isObject v = true
    · have hw : isObject w = true := (isObject_eq_of_jsonEq h).symm.trans hv
      obtain ⟨ms, rfl⟩ := exists_object hv
      obtain ⟨ns, rfl⟩ := exists_object hw
      have hmember := agree_lookup h key
      rw [valueAt_object, valueAt_object]
      cases hm : ms.lookup key <;> cases hn : ns.lookup key <;> rw [hm, hn] at hmember
      · trivial
      · cases hmember
      · cases hmember
      · exact ih hmember
    · rw [Bool.not_eq_true] at hv
      rw [valueAt_cons_of_not_object hv,
        valueAt_cons_of_not_object ((isObject_eq_of_jsonEq h).symm.trans hv)]
      trivial

theorem lookup_omitMembers (preMap postMap baseMap : Members) (key : String) :
    (omitMembers preMap postMap baseMap).lookup key =
      if (preMap.lookup key).isSome ∧ postMap.lookup key = none then none
      else baseMap.lookup key := by
  induction preMap generalizing baseMap with
  | nil => simp [omitMembers]
  | cons m preMap ih =>
    obtain ⟨k, v⟩ := m
    have hstep : omitMembers ((k, v) :: preMap) postMap baseMap =
        omitMembers preMap postMap
          (if (postMap.lookup k).isNone then removeMember baseMap k else baseMap) := rfl
    rw [hstep, ih]
    by_cases hkey : key = k
    · subst hkey
      by_cases hpost : postMap.lookup key = none
      · simp [hpost]
      · have hsome : (postMap.lookup key).isNone = false := by
          simpa [Option.isNone_iff_eq_none] using hpost
        simp [hpost, hsome]
    · have hpre : ((k, v) :: preMap).lookup key = preMap.lookup key := by
        rw [lookup_cons_eq, if_neg hkey]
      rw [hpre]
      by_cases hpost : (postMap.lookup k).isNone = true <;> simp [hkey, hpost]

theorem lookup_mergeMembers {postMap : Members} (hnodup : (postMap.map Prod.fst).Nodup)
    (preMap baseMap : Members) (key : String) :
    (mergeMembers preMap postMap baseMap).lookup key =
      match postMap.lookup key, preMap.lookup key with
      | none, _ => baseMap.lookup key
      | some postValue, none => some postValue
      | some postValue, some preValue =>
        if jsonEq preValue postValue then baseMap.lookup key
        else some (mergeChanged (fun base pre => applyChangedPaths base pre postValue) preValue
          postValue (baseMap.lookup key)) := by
  induction postMap generalizing baseMap with
  | nil => simp [mergeMembers]
  | cons m postMap ih =>
    obtain ⟨k, w⟩ := m
    rw [List.map_cons, List.nodup_cons] at hnodup
    rw [mergeMembers, ih hnodup.2, lookup_cons_eq]
    by_cases hkey : key = k
    · subst hkey
      rw [lookup_eq_none_iff_keys.2 hnodup.1, if_pos rfl]
      cases hpre : preMap.lookup key with
      | none => simp [lookup_insertMember]
      | some preValue =>
        dsimp only
        split_ifs
        · rfl
        · simp [lookup_insertMember]
    · rw [if_neg hkey]
      have hother : ∀ value, (insertMember baseMap k value).lookup key = baseMap.lookup key :=
        fun value => by rw [lookup_insertMember, if_neg hkey]
      have hbase : (match preMap.lookup k with
          | some preValue =>
            if jsonEq preValue w then baseMap
            else insertMember baseMap k (mergeChanged
              (fun base pre => applyChangedPaths base pre w) preValue w (baseMap.lookup k))
          | none => insertMember baseMap k w).lookup key = baseMap.lookup key := by
        split
        · split_ifs
          · rfl
          · exact hother _
        · exact hother _
      rw [hbase]

section Merged

variable {base pre post : Json} {preMap postMap : Members} {path : List String}

theorem applyChangedPaths_of_not_objects (h : ¬ (isObject pre = true ∧ isObject post = true)) :
    applyChangedPaths base pre post = if jsonEq pre post then base else post := by
  cases post with
  | object postMap =>
    cases pre with
    | object preMap => exact absurd ⟨rfl, rfl⟩ h
    | _ => simp [applyChangedPaths, jsonEq]
  | _ => rw [applyChangedPaths]; exact fun _ heq => nomatch heq

theorem applyChangedPaths_of_base (h : isObject base = false) :
    applyChangedPaths base (.object preMap) (.object postMap) = .object postMap := by
  cases base with
  | object _ => cases h
  | _ => simp [applyChangedPaths]

theorem applyChangedPaths_objects (preMap postMap baseMap : Members) :
    applyChangedPaths (.object baseMap) (.object preMap) (.object postMap) =
      .object (mergeMembers preMap postMap (omitMembers preMap postMap baseMap)) := by
  simp [applyChangedPaths]

theorem lookup_merged (hnodup : (postMap.map Prod.fst).Nodup) (preMap baseMap : Members)
    (key : String) :
    (mergeMembers preMap postMap (omitMembers preMap postMap baseMap)).lookup key =
      match postMap.lookup key, preMap.lookup key with
      | none, some _ => none
      | none, none => baseMap.lookup key
      | some postValue, none => some postValue
      | some postValue, some preValue =>
        if jsonEq preValue postValue then baseMap.lookup key
        else some (mergeChanged (fun base pre => applyChangedPaths base pre postValue) preValue
          postValue (baseMap.lookup key)) := by
  rw [lookup_mergeMembers hnodup, lookup_omitMembers]
  cases hpost : postMap.lookup key <;> cases hpre : preMap.lookup key <;> simp

theorem omitMembers_eq_self (baseMap : Members) (h : ∀ m ∈ preMap, (postMap.lookup m.1).isSome) :
    omitMembers preMap postMap baseMap = baseMap := by
  induction preMap with
  | nil => rfl
  | cons m preMap ih =>
    obtain ⟨hm, hrest⟩ := List.forall_mem_cons.1 h
    have hnone : ¬ (postMap.lookup m.1).isNone = true := by
      rw [Option.isNone_iff_eq_none]
      exact Option.isSome_iff_ne_none.1 hm
    rw [omitMembers, List.foldl_cons, if_neg hnone]
    exact ih hrest

theorem mergeMembers_eq_self (baseMap : Members)
    (h : ∀ m ∈ postMap, ∃ v, preMap.lookup m.1 = some v ∧ jsonEq v m.2 = true) :
    mergeMembers preMap postMap baseMap = baseMap := by
  induction postMap with
  | nil => rfl
  | cons m postMap ih =>
    obtain ⟨⟨v, hv, heq⟩, hrest⟩ := List.forall_mem_cons.1 h
    obtain ⟨key, w⟩ := m
    rw [mergeMembers, hv]
    dsimp only
    rw [if_pos heq]
    exact ih hrest

theorem applyChangedPaths_of_jsonEq (hpost : post.Keyed) (h : jsonEq pre post = true)
    (hbase : isObject pre = true → isObject base = true) :
    applyChangedPaths base pre post = base := by
  by_cases hobjects : isObject pre = true ∧ isObject post = true
  · obtain ⟨baseMap, rfl⟩ := exists_object (hbase hobjects.1)
    obtain ⟨preMap, rfl⟩ := exists_object hobjects.1
    obtain ⟨postMap, rfl⟩ := exists_object hobjects.2
    have hnodup := (Json.keyed_object.1 hpost).1
    rw [applyChangedPaths_objects, omitMembers_eq_self, mergeMembers_eq_self]
    · intro m hm
      have hagree := agree_lookup h m.1
      rw [(lookup_eq_some_iff_mem hnodup).2 hm] at hagree
      cases hv : preMap.lookup m.1 with
      | none => rw [hv] at hagree; cases hagree
      | some v => rw [hv] at hagree; exact ⟨v, rfl, hagree⟩
    · rw [jsonEq, Bool.and_eq_true, membersEq_iff] at h
      intro m hm
      obtain ⟨w, hw, -⟩ := h.1 m hm
      rw [hw, Option.isSome_some]
  · rw [applyChangedPaths_of_not_objects hobjects, if_pos h]

theorem valueAt_changed (hpost : post.Keyed)
    (hdiffer : ¬ Agree (valueAt pre path) (valueAt post path))
    (hleaf : ¬ ((valueAt pre path).any isObject ∧ (valueAt post path).any isObject)) :
    valueAt (applyChangedPaths base pre post) path = valueAt post path := by
  induction path generalizing base pre post with
  | nil =>
    simp only [valueAt_nil, Option.any_some] at hdiffer hleaf ⊢
    have hne : ¬ jsonEq pre post = true := hdiffer
    rw [applyChangedPaths_of_not_objects hleaf, if_neg hne]
  | cons key path ih =>
    have hne : ¬ jsonEq pre post = true := fun heq => hdiffer (agree_valueAt heq _)
    by_cases hobjects : isObject pre = true ∧ isObject post = true
    · obtain ⟨preMap, rfl⟩ := exists_object hobjects.1
      obtain ⟨postMap, rfl⟩ := exists_object hobjects.2
      cases hbase : isObject base with
      | false => rw [applyChangedPaths_of_base hbase]
      | true =>
        obtain ⟨baseMap, rfl⟩ := exists_object hbase
        have hnodup := (Json.keyed_object.1 hpost).1
        rw [applyChangedPaths_objects, valueAt_object, valueAt_object, lookup_merged hnodup]
        rw [valueAt_object, valueAt_object] at hdiffer hleaf
        cases hw : postMap.lookup key with
        | none =>
          cases hv : preMap.lookup key with
          | none =>
            rw [hw, hv] at hdiffer
            exact absurd trivial hdiffer
          | some v => rfl
        | some w =>
          cases hv : preMap.lookup key with
          | none => rfl
          | some v =>
            rw [hw, hv] at hdiffer hleaf
            dsimp only [Option.bind_some] at hdiffer hleaf ⊢
            have hnew : ¬ jsonEq v w = true := fun heq => hdiffer (agree_valueAt heq _)
            rw [if_neg hnew, Option.bind_some]
            cases hb : baseMap.lookup key with
            | none => rfl
            | some b =>
              rw [mergeChanged]
              split_ifs
              · exact ih (hpost.of_lookup hw) hdiffer hleaf
              · rfl
    · rw [applyChangedPaths_of_not_objects hobjects, if_neg hne]

/-- Where the pipelines changed nothing, the value of the plugins is kept. -/
theorem valueAt_unchanged (hpost : post.Keyed)
    (hagree : Agree (valueAt pre path) (valueAt post path))
    (hroot : isObject pre = true → isObject post = true → isObject base = true)
    (hway : ∀ before, before <+: path → before ≠ path →
      ¬ Agree (valueAt pre before) (valueAt post before) →
      (valueAt pre before).any isObject ∧ (valueAt post before).any isObject ∧
        (valueAt base before).any isObject) :
    valueAt (applyChangedPaths base pre post) path = valueAt base path := by
  by_cases heq : jsonEq pre post = true
  · rw [applyChangedPaths_of_jsonEq hpost heq fun hpre =>
      hroot hpre ((isObject_eq_of_jsonEq heq).symm.trans hpre)]
  · induction path generalizing base pre post with
    | nil =>
      simp only [valueAt_nil] at hagree
      exact absurd hagree heq
    | cons key path ih =>
      have hobjects := hway [] List.nil_prefix (List.cons_ne_nil key path).symm
        (by rw [valueAt_nil, valueAt_nil]; exact heq)
      simp only [valueAt_nil, Option.any_some] at hobjects
      obtain ⟨preMap, rfl⟩ := exists_object hobjects.1
      obtain ⟨postMap, rfl⟩ := exists_object hobjects.2.1
      obtain ⟨baseMap, rfl⟩ := exists_object hobjects.2.2
      have hnodup := (Json.keyed_object.1 hpost).1
      have hkey : path ≠ [] → ¬ Agree (preMap.lookup key) (postMap.lookup key) →
          (preMap.lookup key).any isObject ∧ (postMap.lookup key).any isObject ∧
            (baseMap.lookup key).any isObject := by
        intro hpath hdiffer
        have hprefix := hway [key] (List.cons_prefix_cons.2 ⟨rfl, List.nil_prefix⟩)
          (by simpa using hpath.symm)
        simpa using hprefix (by simpa using hdiffer)
      rw [applyChangedPaths_objects, valueAt_object, valueAt_object, lookup_merged hnodup]
      rw [valueAt_object, valueAt_object] at hagree
      cases hw : postMap.lookup key with
      | none =>
        cases hv : preMap.lookup key with
        | none => rfl
        | some v =>
          rw [hw, hv] at hagree hkey
          have hpath : path ≠ [] := by
            rintro rfl
            simp [Agree] at hagree
          exact absurd (hkey hpath id).2.1 (by simp)
      | some w =>
        cases hv : preMap.lookup key with
        | none =>
          rw [hw, hv] at hagree hkey
          have hpath : path ≠ [] := by
            rintro rfl
            simp [Agree] at hagree
          exact absurd (hkey hpath id).1 (by simp)
        | some v =>
          rw [hw, hv] at hagree hkey
          dsimp only [Option.bind_some] at hagree ⊢
          split_ifs with hsame
          · rfl
          · have hpath : path ≠ [] := by
              rintro rfl
              simp only [valueAt_nil] at hagree
              exact hsame hagree
            obtain ⟨hobjectv, hobjectw, hobjectb⟩ := hkey hpath hsame
            cases hb : baseMap.lookup key with
            | none => rw [hb] at hobjectb; cases hobjectb
            | some b =>
              rw [hb] at hobjectb
              have hmerge : isObject b && (isObject v && isObject w) := by
                simp_all
              rw [mergeChanged, if_pos hmerge]
              refine ih (hpost.of_lookup hw) hagree (fun _ _ => hobjectb) ?_ hsame
              intro before hbefore hne hdiffer
              have hmember := hway (key :: before) (List.cons_prefix_cons.2 ⟨rfl, hbefore⟩)
                (by simpa using hne)
              simpa [hw, hv, hb] using hmember (by simpa [hw, hv] using hdiffer)

/-- The pipelines' value is taken wherever they changed it, and the plugins' wherever they did not,
unless a changed value on the way is not an object on all three sides. -/
theorem applyChangedPaths_merges (base pre post : Json) (hpost : post.Keyed)
    (path : List String) :
    (¬ Agree (valueAt pre path) (valueAt post path) →
      ¬ ((valueAt pre path).any isObject ∧ (valueAt post path).any isObject) →
      valueAt (applyChangedPaths base pre post) path = valueAt post path) ∧
      (Agree (valueAt pre path) (valueAt post path) →
        (isObject pre = true → isObject post = true → isObject base = true) →
        (∀ before, before <+: path → before ≠ path →
          ¬ Agree (valueAt pre before) (valueAt post before) →
          (valueAt pre before).any isObject ∧ (valueAt post before).any isObject ∧
            (valueAt base before).any isObject) →
        valueAt (applyChangedPaths base pre post) path = valueAt base path) :=
  ⟨valueAt_changed hpost, valueAt_unchanged hpost⟩

def sampleUser (ssn : String) : Json :=
  .object [("user", .object [("name", .string "ann"), ("ssn", .string ssn)])]

theorem applyChangedPaths_merges_masked :
    let base : Json := .object [("user", .object [("name", .string "A."), ("ssn", .string "1")])]
    let merged := applyChangedPaths base (sampleUser "1") (sampleUser "***")
    valueAt merged ["user", "ssn"] = some (.string "***") ∧
      valueAt merged ["user", "name"] = some (.string "A.") := by
  have hkeyed : (sampleUser "***").Keyed := by
    simp [sampleUser]
  intro base merged
  constructor
  · exact (applyChangedPaths_merges base _ _ hkeyed ["user", "ssn"]).1 (by decide) (by decide)
  · refine (applyChangedPaths_merges base _ _ hkeyed ["user", "name"]).2 (by decide)
      (fun _ _ => rfl) fun before hbefore hne _ => ?_
    rcases List.prefix_cons_iff.1 hbefore with rfl | ⟨rest, rfl, hrest⟩
    · decide
    · rcases List.prefix_cons_iff.1 hrest with rfl | ⟨last, rfl, hlast⟩
      · decide
      · rw [List.prefix_nil.1 hlast] at hne
        exact absurd rfl hne

/-- A field the pipelines left alone comes back when a plugin replaces the whole object. -/
theorem untouched_field_restored :
    let base : Json := .object [("user", .string "gone")]
    let merged := applyChangedPaths base (sampleUser "1") (sampleUser "***")
    Agree (valueAt (sampleUser "1") ["user", "name"])
        (valueAt (sampleUser "***") ["user", "name"]) ∧
      valueAt base ["user", "name"] = none ∧
      valueAt merged ["user", "name"] = some (.string "ann") := by
  exact ⟨by decide, rfl, rfl⟩

end Merged

end PraxisPolicy
