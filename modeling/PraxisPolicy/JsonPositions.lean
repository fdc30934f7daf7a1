import PraxisPolicy.FieldPaths

/-!
# Positions in a JSON tree

A position is a list of typed steps, so that two texts that read as the same index are one position.
Its text is the concrete path the expansion emits for it.
-/

namespace PraxisPolicy

open JsonValues TextScanning

inductive Step where
  | key (name : String)
  | index (i : ℕ)
  deriving DecidableEq, Repr

def Step.text : Step → String
  | .key name => name
  | .index i => toString i

def Step.Fits : Step → Prop
  | .key _ => True
  | .index i => i < 2 ^ 64

def follow : Json → List Step → Option Json
  | v, [] => some v
  | .object members, .key name :: π => (members.lookup name).bind (follow · π)
  | .array items, .index i :: π => items[i]?.bind (follow · π)
  | _, _ :: _ => none

@[simp] theorem follow_nil (v : Json) : follow v [] = some v := by
  cases v <;> rfl

theorem follow_cons_cases {v x : Json} {s : Step} {π : List Step}
    (h : follow v (s :: π) = some x) :
    (∃ name members child, s = .key name ∧ v = .object members ∧
      members.lookup name = some child ∧ follow child π = some x) ∨
    ∃ i items child, s = .index i ∧ v = .array items ∧
      items[i]? = some child ∧ follow child π = some x := by
  cases s with
  | key name =>
    cases v with
    | object members =>
      obtain ⟨child, hchild, hrest⟩ := Option.bind_eq_some_iff.mp h
      exact .inl ⟨name, members, child, rfl, rfl, hchild, hrest⟩
    | null | bool _ | number _ | string _ | array _ => simp [follow] at h
  | index i =>
    cases v with
    | array items =>
      obtain ⟨child, hchild, hrest⟩ := Option.bind_eq_some_iff.mp h
      exact .inr ⟨i, items, child, rfl, rfl, hchild, hrest⟩
    | null | bool _ | number _ | string _ | object _ => simp [follow] at h

theorem exists_follow_of_within {v w : Json} (h : Json.Within w v) :
    ∃ π, follow v π = some w := by
  induction h with
  | refl v => exact ⟨[], follow_nil v⟩
  | @item items v w hv _ ih =>
    obtain ⟨π, hπ⟩ := ih
    obtain ⟨i, hi⟩ := List.mem_iff_getElem?.mp hv
    exact ⟨.index i :: π, by simp [follow, hi, hπ]⟩
  | @member members key v w hv _ ih =>
    obtain ⟨π, hπ⟩ := ih
    exact ⟨.key key :: π, by simp [follow, hv, hπ]⟩

theorem getConcrete_text {v x : Json} {π : List Step} (hfits : ∀ s ∈ π, s.Fits)
    (h : follow v π = some x) : getConcrete v (π.map Step.text) = some x := by
  induction π generalizing v with
  | nil => simpa [getConcrete] using h
  | cons s π ih =>
    have htail : ∀ s' ∈ π, s'.Fits := fun s' hs' => hfits s' (List.mem_cons_of_mem _ hs')
    rcases follow_cons_cases h with ⟨name, members, child, rfl, rfl, hchild, hrest⟩ |
      ⟨i, items, child, rfl, rfl, hchild, hrest⟩
    · simp [getConcrete, Step.text, segmentGet, hchild, ih htail hrest]
    · have hread := parseUsize_toString (hfits (.index i) List.mem_cons_self)
      simp only [List.map_cons, Step.text, getConcrete, segmentGet, hread, Option.bind_some,
        hchild, ih htail hrest]

section Writing

def replaceAt (value : Json) : List String → Json → Json
  | [], _ => value
  | seg :: path, .object members =>
    match members.lookup seg with
    | some child => .object (insertMember members seg (replaceAt value path child))
    | none => .object members
  | seg :: path, .array items =>
    match (parseUsize seg).bind fun i => items[i]?.map (i, ·) with
    | some (i, child) => .array (items.set i (replaceAt value path child))
    | none => .array items
  | _ :: _, v => v

variable {value root x : Json} {path : List String} {π : List Step}

private theorem modifyAt_eq_replaceAt {leaf : String} (hleaf : path.getLast? = some leaf)
    (h : getConcrete root path = some x) :
    modifyAt (writeLeaf leaf value) path.dropLast root = some (replaceAt value path root) := by
  induction path generalizing root with
  | nil => simp at hleaf
  | cons seg path ih =>
    obtain ⟨child, hchild, hrest⟩ := Option.bind_eq_some_iff.mp h
    cases root with
    | null | bool _ | number _ | string _ => simp [segmentGet] at hchild
    | object members =>
      simp only [segmentGet] at hchild
      cases path with
      | nil =>
        obtain rfl : seg = leaf := by simpa using hleaf
        simp [modifyAt, writeLeaf, replaceAt, hchild]
      | cons seg' path =>
        have hstep := ih (by simpa using hleaf) hrest
        simp [modifyAt, replaceAt, hchild, hstep]
    | array items =>
      obtain ⟨i, hi, hitem⟩ := Option.bind_eq_some_iff.mp hchild
      cases path with
      | nil =>
        obtain rfl : seg = leaf := by simpa using hleaf
        have hlt : i < items.length := (List.getElem?_eq_some_iff.mp hitem).1
        simp [modifyAt, writeLeaf, replaceAt, hi, hlt]
      | cons seg' path =>
        have hstep := ih (by simpa using hleaf) hrest
        simp [modifyAt, replaceAt, hi, hitem, hstep]

theorem setConcrete_of_getConcrete (h : getConcrete root path = some x) :
    (setConcrete root path value).1 = replaceAt value path root := by
  cases hlast : path.getLast? with
  | none =>
    obtain rfl := List.getLast?_eq_none_iff.mp hlast
    cases root <;> rfl
  | some leaf => simp [setConcrete, hlast, modifyAt_eq_replaceAt hlast h]

theorem follow_set {items : List Json} {i : ℕ} (hi : i < items.length)
    (h : follow (.array (items.set i value)) π = some x) :
    π = [] ∨ (∃ rest, π = .index i :: rest ∧ follow value rest = some x) ∨
      follow (.array items) π = some x := by
  rcases π with _ | ⟨name | j, rest⟩
  · exact .inl rfl
  · simp [follow] at h
  · simp only [follow, List.getElem?_set] at h ⊢
    by_cases hj : i = j
    · rw [if_pos hj, if_pos (hj ▸ hi), Option.bind_some] at h
      exact .inr (.inl ⟨rest, by rw [hj], h⟩)
    · rw [if_neg hj] at h
      exact .inr (.inr h)

/-- Replacing by text changes no value but those that contain the place. -/
theorem follow_replaceAt {marker : String}
    (h : follow (replaceAt (.string marker) path root) π = some x) (hx : x ≠ .string marker) :
    ∃ y, y ≠ .string marker ∧ follow root π = some y := by
  induction path generalizing root π with
  | nil =>
    cases π with
    | nil => simp [replaceAt, eq_comm, hx] at h
    | cons s π => cases s <;> simp [replaceAt, follow] at h
  | cons seg path ih =>
    cases root with
    | null | bool _ | number _ | string _ => exact ⟨x, hx, by simpa [replaceAt] using h⟩
    | object members =>
      cases hchild : members.lookup seg with
      | none => exact ⟨x, hx, by simpa [replaceAt, hchild] using h⟩
      | some child =>
        simp only [replaceAt, hchild] at h
        rcases π with _ | ⟨name | i, rest⟩
        · exact ⟨.object members, by simp, follow_nil _⟩
        · simp only [follow, lookup_insertMember] at h ⊢
          by_cases hname : name = seg
          · rw [if_pos hname, Option.bind_some] at h
            rw [hname, hchild, Option.bind_some]
            exact ih h
          · rw [if_neg hname] at h
            exact ⟨x, hx, h⟩
        · simp [follow] at h
    | array items =>
      cases hchild : (parseUsize seg).bind fun i => items[i]?.map (i, ·) with
      | none => exact ⟨x, hx, by simpa [replaceAt, hchild] using h⟩
      | some e =>
        obtain ⟨i, -, hmap⟩ := Option.bind_eq_some_iff.mp hchild
        obtain ⟨child, hitem, rfl⟩ := Option.map_eq_some_iff.mp hmap
        have hlt : i < items.length := (List.getElem?_eq_some_iff.mp hitem).1
        simp only [replaceAt, hchild] at h
        rcases follow_set hlt h with rfl | ⟨rest, rfl, hbelow⟩ | helsewhere
        · exact ⟨.array items, by simp, follow_nil _⟩
        · rw [follow, hitem, Option.bind_some]
          exact ih hbelow
        · exact ⟨x, hx, helsewhere⟩

theorem follow_replaceAt_text (hfits : ∀ s ∈ π, s.Fits) (h : follow root π = some x) :
    follow (replaceAt value (π.map Step.text) root) π = some value := by
  induction π generalizing root with
  | nil => simp [replaceAt]
  | cons s π ih =>
    have htail : ∀ s' ∈ π, s'.Fits := fun s' hs' => hfits s' (List.mem_cons_of_mem _ hs')
    rcases follow_cons_cases h with ⟨name, members, child, rfl, rfl, hchild, hrest⟩ |
      ⟨i, items, child, rfl, rfl, hchild, hrest⟩
    · simp [replaceAt, Step.text, hchild, follow, lookup_insertMember, ih htail hrest]
    · have hread := parseUsize_toString (hfits (.index i) List.mem_cons_self)
      have hlt : i < items.length := (List.getElem?_eq_some_iff.mp hchild).1
      simp only [List.map_cons, Step.text, replaceAt, hread, Option.bind_some, hchild,
        Option.map_some, follow, List.getElem?_set, if_pos hlt, if_true, ih htail hrest]

end Writing

end PraxisPolicy
