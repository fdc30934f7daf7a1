import PraxisPolicy.JsonPositions

/-!
# Paths of identity claims

A path is written with dots between its segments; a backslash stands before a dot or a backslash of
a segment.
-/

namespace PraxisPolicy

open JsonValues

structure ClaimPath where
  segments : List String

namespace ClaimPath

def emptySegment (input : String) : String := "path '" ++ input ++ "': empty segment"

/-- The loop of `parse`; `current` is the segment being read. -/
def readSegments (input : String) :
    List Char → List (List Char) → List Char → Except String (List (List Char))
  | [], segments, current =>
    if current.isEmpty then
      .error (if segments.isEmpty then "path is empty" else emptySegment input)
    else .ok (segments ++ [current])
  | c :: cs, segments, current =>
    if c = '\\' then
      match cs with
      | [] => .error ("path '" ++ input ++ "': trailing `\\` escapes nothing")
      | other :: cs =>
        if other = '.' ∨ other = '\\' then readSegments input cs segments (current ++ [other])
        else .error ("path '" ++ input ++ "': unrecognized escape `\\" ++ other.toString ++
          "`; only `\\.` and `\\\\` are escapes")
    else if c = '.' then
      if current.isEmpty then .error (emptySegment input)
      else readSegments input cs (segments ++ [current]) []
    else readSegments input cs segments (current ++ [c])

def parse (input : String) : Except String ClaimPath :=
  (readSegments input input.toList [] []).map fun segments => ⟨segments.map String.ofList⟩

def member : Json → String → Option Json
  | .object members, key => members.lookup key
  | _, _ => none

def resolve (path : ClaimPath) (claims : Members) : Option Json :=
  match path.segments with
  | [] => none
  | first :: rest => (claims.lookup first).bind fun value => rest.foldlM member value

def escape (segment : List Char) : List Char :=
  segment.flatMap fun c => if c = '.' ∨ c = '\\' then ['\\', c] else [c]

def display (path : ClaimPath) : String :=
  String.ofList (['.'].intercalate (path.segments.map fun segment => escape segment.toList))

def behind (segments : List (List Char)) (current : List Char) : List Char :=
  segments.flatMap (fun segment => escape segment ++ ['.']) ++ escape current

/-- A segment is empty, or a backslash stands last or before another character. -/
inductive Malformed : List Char → Prop
  | emptySegment (segments : List (List Char)) {rest : List Char}
      (h : rest = [] ∨ rest.head? = some '.') : Malformed (behind segments [] ++ rest)
  | trailing (segments : List (List Char)) (current : List Char) :
      Malformed (behind segments current ++ ['\\'])
  | otherEscape (segments : List (List Char)) (current : List Char) {c : Char}
      (hdot : c ≠ '.') (hslash : c ≠ '\\') (rest : List Char) :
      Malformed (behind segments current ++ '\\' :: c :: rest)

section Reading

variable {input : String} (segments : List (List Char)) (current rest : List Char)

theorem escape_append (a b : List Char) : escape (a ++ b) = escape a ++ escape b :=
  List.flatMap_append

theorem behind_concat (c : Char) :
    behind segments (current ++ [c]) = behind segments current ++ escape [c] := by
  rw [behind, behind, escape_append, List.append_assoc]

theorem behind_complete : behind (segments ++ [current]) [] = behind segments current ++ ['.'] := by
  simp [behind, escape]

theorem intercalate_concat :
    ['.'].intercalate ((segments ++ [current]).map escape) = behind segments current := by
  induction segments with
  | nil => simp [behind]
  | cons segment segments ih =>
    obtain ⟨next, more, hnext⟩ := List.exists_cons_of_ne_nil (List.append_ne_nil_of_right_ne_nil
      segments (List.cons_ne_nil current []))
    rw [hnext] at ih
    rw [List.cons_append, hnext, List.map_cons, List.map_cons, List.intercalate_cons_cons,
      ← List.map_cons, ih]
    simp [behind]

theorem readSegments_cases (cs : List Char) :
    (∃ before last, readSegments input cs segments current = .ok (before ++ [last]) ∧
      behind before last = behind segments current ++ cs) ∨
    ∃ err, readSegments input cs segments current = .error err ∧
      Malformed (behind segments current ++ cs) := by
  fun_induction readSegments input cs segments current with
  | case1 segments current hcurrent =>
    obtain rfl := List.isEmpty_iff.1 hcurrent
    exact .inr ⟨_, rfl, .emptySegment segments (.inl rfl)⟩
  | case2 segments current => exact .inl ⟨segments, current, rfl, (List.append_nil _).symm⟩
  | case3 segments current => exact .inr ⟨_, rfl, .trailing segments current⟩
  | case4 segments current other cs hother ih =>
    rw [behind_concat, List.append_assoc] at ih
    simpa [escape, hother] using ih
  | case5 segments current other cs hother =>
    obtain ⟨hdot, hslash⟩ := not_or.1 hother
    exact .inr ⟨_, rfl, .otherEscape segments current hdot hslash cs⟩
  | case6 cs segments current hcurrent =>
    obtain rfl := List.isEmpty_iff.1 hcurrent
    exact .inr ⟨_, rfl, .emptySegment segments (.inr rfl)⟩
  | case7 cs segments current hcurrent _ ih =>
    rw [behind_complete, List.append_assoc] at ih
    exact ih
  | case8 c cs segments current hslash hdot ih =>
    rw [behind_concat, List.append_assoc] at ih
    simpa [escape, hslash, hdot] using ih

theorem readSegments_escape (segment : List Char) :
    readSegments input (escape segment ++ rest) segments current =
      readSegments input rest segments (current ++ segment) := by
  induction segment generalizing current with
  | nil => simp [escape]
  | cons c segment ih =>
    have hcons : escape (c :: segment) = escape [c] ++ escape segment := escape_append [c] segment
    have hone : readSegments input (escape [c] ++ (escape segment ++ rest)) segments current =
        readSegments input (escape segment ++ rest) segments (current ++ [c]) := by
      by_cases hc : c = '.' ∨ c = '\\'
      · simp [escape, readSegments, hc]
      · rw [readSegments.eq_def]
        obtain ⟨hdot, hslash⟩ := not_or.1 hc
        simp [escape, hdot, hslash]
    rw [hcons, List.append_assoc, hone, ih, List.append_assoc]
    rfl

theorem readSegments_behind (before : List (List Char)) (segments : List (List Char))
    (current rest : List Char) :
    readSegments input (behind segments current ++ rest) before [] =
      if [] ∈ segments then .error (emptySegment input)
      else readSegments input rest (before ++ segments) current := by
  induction segments generalizing before with
  | nil => simpa [behind] using readSegments_escape before [] rest current
  | cons segment segments ih =>
    have hcons : behind (segment :: segments) current ++ rest =
        escape segment ++ '.' :: (behind segments current ++ rest) := by
      simp [behind]
    rw [hcons, readSegments_escape, List.nil_append, readSegments.eq_def]
    cases segment with
    | nil => simp
    | cons c segment => simp [ih]

theorem readSegments_malformed {cs : List Char} (h : Malformed cs) :
    ∃ err, readSegments input cs [] [] = .error err := by
  have hreads : ∀ segments current rest,
      (∃ err, readSegments input rest segments current = .error err) →
        ∃ err, readSegments input (behind segments current ++ rest) [] [] = .error err := by
    intro segments current rest hrest
    rw [readSegments_behind, List.nil_append]
    split_ifs
    · exact ⟨_, rfl⟩
    · exact hrest
  cases h with
  | @emptySegment segments rest h =>
    refine hreads segments [] rest ?_
    rcases h with rfl | h
    · exact ⟨_, rfl⟩
    · obtain ⟨more, rfl⟩ := List.head?_eq_some_iff.1 h
      exact ⟨emptySegment input, by rw [readSegments.eq_def]; rfl⟩
  | trailing segments current => exact hreads segments current _ ⟨_, rfl⟩
  | otherEscape segments current hdot hslash rest =>
    exact hreads segments current _ (by simp [readSegments, hdot, hslash])

end Reading

theorem display_concat (before : List (List Char)) (last : List Char) :
    display ⟨(before ++ [last]).map String.ofList⟩ = String.ofList (behind before last) := by
  rw [display, List.map_map, ← intercalate_concat]
  simp [Function.comp_def]

theorem parse_cases (s : String) :
    (∃ before last, parse s = .ok ⟨(before ++ [last]).map String.ofList⟩ ∧
      behind before last = s.toList) ∨
    (∃ err, parse s = .error err) ∧ Malformed s.toList := by
  rcases readSegments_cases [] [] s.toList with ⟨before, last, hread, htext⟩ | ⟨err, hread, hbad⟩
  · exact .inl ⟨before, last, by rw [parse, hread]; rfl, htext⟩
  · exact .inr ⟨⟨err, by rw [parse, hread]; rfl⟩, hbad⟩

theorem parse_eq_ok {s : String} {path : ClaimPath} (h : parse s = .ok path) :
    ∃ before last, path = ⟨(before ++ [last]).map String.ofList⟩ ∧ behind before last = s.toList := by
  rcases parse_cases s with ⟨before, last, hparse, htext⟩ | ⟨⟨err, herr⟩, -⟩
  · exact ⟨before, last, Except.ok.inj (h.symm.trans hparse), htext⟩
  · cases h.symm.trans herr

theorem foldlM_member (segments : List String) (value : Json) :
    segments.foldlM member value = follow value (segments.map .key) := by
  induction segments generalizing value with
  | nil => exact (follow_nil value).symm
  | cons segment segments ih =>
    rw [List.foldlM_cons, List.map_cons]
    cases value with
    | object members => exact congrArg (members.lookup segment).bind (funext ih)
    | null | bool _ | number _ | string _ | array _ => rfl

/-- Parsing and displaying are inverse between well-formed texts and non-empty lists of non-empty
segments, and a parsed path leads through the members of objects. -/
theorem parse_display :
    (∀ s path, parse s = .ok path → path.display = s) ∧
    (∀ segments : List String, segments ≠ [] → "" ∉ segments →
      parse (display ⟨segments⟩) = .ok ⟨segments⟩) ∧
    (∀ s, (∃ err, parse s = .error err) ↔ Malformed s.toList) ∧
    ∀ s path claims, parse s = .ok path →
      path.resolve claims = follow (.object claims) (path.segments.map .key) := by
  refine ⟨fun s path h => ?_, fun segments hne hempty => ?_, fun s => ⟨fun h => ?_, fun h => ?_⟩,
    fun s path claims h => ?_⟩
  · obtain ⟨before, last, rfl, htext⟩ := parse_eq_ok h
    rw [display_concat, htext, String.ofList_toList]
  · obtain ⟨before, last, rfl⟩ := (List.eq_nil_or_concat' segments).resolve_left hne
    have hsegments : before ++ [last] = (before.map String.toList ++ [last.toList]).map String.ofList := by
      simp [Function.comp_def]
    have hread : readSegments (String.ofList (behind (before.map String.toList) last.toList))
        (behind (before.map String.toList) last.toList ++ []) [] [] =
          .ok (before.map String.toList ++ [last.toList]) := by
      rw [readSegments_behind, if_neg, readSegments, if_neg]
      · rfl
      · simpa using fun h => hempty (by simp [h])
      · simpa using fun h => hempty (by simp [h])
    rw [hsegments, display_concat, parse, String.toList_ofList]
    rw [List.append_nil] at hread
    rw [hread]
    rfl
  · obtain ⟨err, herr⟩ := h
    rcases parse_cases s with ⟨before, last, hparse, -⟩ | ⟨-, hbad⟩
    · cases herr.symm.trans hparse
    · exact hbad
  · obtain ⟨err, herr⟩ := readSegments_malformed h
    exact ⟨err, by rw [parse, herr]; rfl⟩
  · obtain ⟨before, last, rfl, -⟩ := parse_eq_ok h
    obtain ⟨first, rest, hpath⟩ := List.exists_cons_of_ne_nil
      (List.append_ne_nil_of_right_ne_nil before (List.cons_ne_nil last []))
    rw [hpath]
    exact congrArg (claims.lookup _).bind (funext fun value => foldlM_member (rest.map .ofList) value)

end ClaimPath

end PraxisPolicy
