import PraxisPolicy.PredicateLexemes

/-!
# The lexer reads paths

`PathFrom` against the loop of the lexer over the segments of a path.
-/

namespace PraxisPolicy

open TextScanning

section Characters

theorem isSegmentChar_of_isIdentStart {c : Char} (h : isIdentStart c = true) :
    isSegmentChar c = true := by
  simp only [isIdentStart, isSegmentChar, Char.isAlphanum, Bool.or_eq_true] at h ⊢
  tauto

theorem isSegmentChar_ne {c d : Char} (h : isSegmentChar c = true)
    (hd : isSegmentChar d = false) : c ≠ d := by
  rintro rfl
  rw [h] at hd
  cases hd

variable {p : Char → Bool}

theorem dropWhile_append_of_stops {run rest : List Char}
    (hrun : ∀ c ∈ run, p c = true) (hstop : ∀ c, rest.head? = some c → p c = false) :
    (run ++ rest).dropWhile p = rest := by
  rw [List.dropWhile_append_of_pos hrun]
  cases rest with
  | nil => rfl
  | cons c rest => rw [List.dropWhile_cons_of_neg (by simp [hstop c rfl])]

theorem takeWhile_append_of_stops {run rest : List Char}
    (hrun : ∀ c ∈ run, p c = true) (hstop : ∀ c, rest.head? = some c → p c = false) :
    (run ++ rest).takeWhile p = run := by
  rw [List.takeWhile_append_of_pos hrun]
  cases rest with
  | nil => simp
  | cons c rest => rw [List.takeWhile_cons_of_neg (by simp [hstop c rfl]), List.append_nil]

theorem stops_dropWhile {cs : List Char} :
    ∀ c, (cs.dropWhile p).head? = some c → p c = false := by
  intro c hc
  have h := List.head?_dropWhile_not p cs
  rw [hc] at h
  simpa using h

end Characters

section Subscripts

variable {c : Char} {cs : List Char}

theorem IsName.cons (hc : isSegmentChar c = true) (h : IsName cs) :
    IsName (c :: cs) :=
  ⟨List.cons_ne_nil _ _, List.forall_mem_cons.2 ⟨hc, h.2⟩⟩

theorem isName_singleton (hc : isSegmentChar c = true) : IsName [c] :=
  ⟨List.cons_ne_nil _ _, by simpa using hc⟩

theorem DottedNames.cons (hc : isSegmentChar c = true) (h : DottedNames cs) :
    DottedNames (c :: cs) := by
  cases h with
  | one h => exact .one (h.cons hc)
  | more h hrest => exact .more (h.cons hc) hrest

theorem dottedNames_of_no_empty (hcs : ∀ c ∈ cs, (isSegmentChar c || c == '.') = true)
    (hlast : cs.getLast? ≠ some '.') (hdots : containsDotDot cs = false) :
    (cs.head? = some '.' → DottedNames cs.tail) ∧
      (cs ≠ [] → cs.head? ≠ some '.' → DottedNames cs) := by
  induction cs with
  | nil => simp
  | cons c cs ih =>
    obtain ⟨hc, hcs⟩ := List.forall_mem_cons.1 hcs
    simp only [containsDotDot, Bool.or_eq_false_iff, Bool.and_eq_false_iff] at hdots
    have hlast' : cs.getLast? ≠ some '.' := by
      intro h
      cases cs with
      | nil => cases h
      | cons d ds => exact hlast (by rw [List.getLast?_cons_cons, h])
    obtain ⟨hdot, hname⟩ := ih hcs hlast' hdots.2
    constructor
    · intro hhead
      obtain rfl : c = '.' := by simpa using hhead
      have hne : cs ≠ [] := by
        rintro rfl
        exact hlast rfl
      exact hname hne (by simpa using hdots.1)
    · intro _ hhead
      have hseg : isSegmentChar c = true := by
        have : c ≠ '.' := by simpa using hhead
        simpa [this] using hc
      cases cs with
      | nil => exact .one (isName_singleton hseg)
      | cons d ds =>
        by_cases hd : d = '.'
        · subst hd
          exact .more (isName_singleton hseg) (hdot rfl)
        · exact (hname (List.cons_ne_nil _ _) (by simpa using hd)).cons hseg

theorem IsName.dot_notMem {name : List Char} (h : IsName name) : '.' ∉ name :=
  fun hmem => absurd (h.2 _ hmem) (by decide)

theorem containsDotDot_append {name rest : List Char} (h : '.' ∉ name) :
    containsDotDot (name ++ rest) = containsDotDot rest := by
  induction name with
  | nil => rfl
  | cons c name ih =>
    obtain ⟨hc, hname⟩ := not_or.1 (mt List.mem_cons.2 h)
    simp [containsDotDot, Ne.symm hc, ih hname]

theorem DottedNames.checks (h : DottedNames cs) :
    (∀ c ∈ cs, (isSegmentChar c || c == '.') = true) ∧ cs ≠ [] ∧ cs.head? ≠ some '.' ∧
      cs.getLast? ≠ some '.' ∧ containsDotDot cs = false := by
  induction h with
  | @one name h =>
    refine ⟨fun c hc => by simp [h.2 c hc], h.1, ?_, ?_, ?_⟩
    · exact fun hhead => h.dot_notMem (List.mem_of_mem_head? hhead)
    · exact fun hlast => h.dot_notMem (List.mem_of_getLast? hlast)
    · simpa [containsDotDot] using @containsDotDot_append name [] h.dot_notMem
  | @more name rest h hrest ih =>
    obtain ⟨hchars, hne, hhead, hlast, hdots⟩ := ih
    refine ⟨?_, by simp, ?_, ?_, ?_⟩
    · simp only [List.mem_append, List.mem_cons]
      rintro c (hc | rfl | hc)
      · simp [h.2 c hc]
      · simp
      · exact hchars c hc
    · rw [List.head?_append_of_ne_nil _ h.1]
      exact fun hhead => h.dot_notMem (List.mem_of_mem_head? hhead)
    · obtain ⟨d, ds, rfl⟩ := List.exists_cons_of_ne_nil hne
      rwa [List.getLast?_append_cons, List.getLast?_cons_cons]
    · rw [containsDotDot_append h.dot_notMem, containsDotDot, hdots]
      simpa using hhead

theorem lexSubscript_of_dottedNames {opening inner after : List Char} (h : DottedNames inner) :
    lexSubscript opening (inner ++ ']' :: after) = .ok after := by
  obtain ⟨hchars, hne, hhead, hlast, hdots⟩ := h.checks
  have hstop : ∀ c, (']' :: after).head? = some c → (isSegmentChar c || c == '.') = false := by
    rintro c ⟨⟩
    decide
  simp only [lexSubscript, takeWhile_append_of_stops hchars hstop,
    dropWhile_append_of_stops hchars hstop, if_pos]
  rw [if_neg (by simpa using hne), if_neg (by simp [hhead, hlast, hdots])]

theorem dottedNames_of_lexSubscript {opening inside after : List Char}
    (h : lexSubscript opening inside = .ok after) :
    ∃ inner, inside = inner ++ ']' :: after ∧ DottedNames inner := by
  dsimp only [lexSubscript] at h
  split at h
  · cases h
  · rename_i c rest hrest
    split_ifs at h with hc hne hempty
    cases h
    subst hc
    simp only [not_or, Bool.not_eq_true] at hempty
    refine ⟨inside.takeWhile fun c => isSegmentChar c || c == '.', ?_, ?_⟩
    · rw [← hrest, List.takeWhile_append_dropWhile]
    · refine (dottedNames_of_no_empty ?_ hempty.2.1 hempty.2.2).2 (by simpa using hne) hempty.1
      intro c hc
      have hp := List.mem_takeWhile_imp hc
      exact hp

end Subscripts

section Segments

def PathStops (text rest : List Char) : Prop :=
  ∀ c, rest.head? = some c →
    c ≠ '.' ∧ (text.getLast? = some ']' ∨ isSegmentChar c = false ∧ c ≠ '[')

/-- The same for one segment, where a dot may follow. -/
def SegmentStops (sub rest : List Char) : Prop :=
  sub = [] → ∀ c, rest.head? = some c → isSegmentChar c = false ∧ c ≠ '['

theorem IsSegment.isName {cs : List Char} (h : IsSegment cs) : IsName cs := by
  obtain ⟨hc, hcs⟩ := h
  exact ⟨List.cons_ne_nil _ _, List.forall_mem_cons.2 ⟨isSegmentChar_of_isIdentStart hc, hcs⟩⟩

theorem isSegment_takeWhile {name : List Char} (h : name.head?.any isIdentStart = true) :
    IsSegment (name.takeWhile isSegmentChar) := by
  cases name with
  | nil => cases h
  | cons c name =>
    have hc : isIdentStart c = true := by simpa using h
    rw [List.takeWhile_cons_of_pos (isSegmentChar_of_isIdentStart hc)]
    exact .mk hc fun d hd => List.mem_takeWhile_imp hd

theorem PathPiece.skip {first : Bool} {piece : List Char} (h : PathPiece first piece) :
    ∃ mark name, piece = mark ++ name ∧ IsName name ∧ (mark = [] ∨ mark = ['$']) ∧
      ∀ rest, skipReservedMark first (piece ++ rest) = .ok (name ++ rest) := by
  cases h with
  | first h => exact ⟨[], piece, rfl, h.isName, .inl rfl, fun rest => rfl⟩
  | later h =>
    refine ⟨[], piece, rfl, h, .inl rfl, fun rest => ?_⟩
    obtain ⟨c, cs, rfl⟩ := List.exists_cons_of_ne_nil h.1
    have hc : c ≠ '$' := isSegmentChar_ne (h.2 c List.mem_cons_self) (by decide)
    rw [skipReservedMark]
    rintro name - heq
    exact hc (List.cons.inj heq).1
  | @reserved cs h =>
    refine ⟨['$'], cs, rfl, h.isName, .inr rfl, fun rest => ?_⟩
    obtain ⟨hc, -⟩ := h
    simp [skipReservedMark, hc]

theorem PathPiece.notMem {first : Bool} {piece : List Char} (h : PathPiece first piece) {c : Char}
    (hc : isSegmentChar c = false) (hmark : c ≠ '$') : c ∉ piece := by
  obtain ⟨mark, name, rfl, hname, hmarks, -⟩ := h.skip
  intro hmem
  rcases List.mem_append.1 hmem with hmem | hmem
  · rcases hmarks with rfl | rfl
    · cases hmem
    · exact hmark (by simpa using hmem)
  · exact isSegmentChar_ne (hname.2 c hmem) hc rfl

theorem PathPiece.ne_nil {first : Bool} {piece : List Char} (h : PathPiece first piece) : piece ≠ [] := by
  obtain ⟨mark, name, rfl, hname, -⟩ := h.skip
  simp [hname.1]

theorem skipReservedMark_eq_ok {first : Bool} {src name : List Char}
    (h : skipReservedMark first src = .ok name) :
    name = src ∨ first = false ∧ src = '$' :: name ∧ name.head?.any isIdentStart = true := by
  unfold skipReservedMark at h
  split at h
  · split_ifs at h with hname
    cases h
    exact .inr ⟨rfl, rfl, hname⟩
  · cases h
    exact .inl rfl

variable {first bracket : Bool} {src piece sub text rest : List Char}

theorem lexSegment_of_piece (hpiece : PathPiece first piece) (hsub : OptSubscript sub)
    (hstops : SegmentStops sub rest) :
    lexSegment first (piece ++ sub ++ rest) = .ok ((piece ++ sub).contains '[', rest) := by
  have hbracket : '[' ∉ piece := hpiece.notMem (by decide) (by decide)
  obtain ⟨mark, name, rfl, hname, -, hskip⟩ := hpiece.skip
  have hdrop : (name ++ (sub ++ rest)).dropWhile isSegmentChar = sub ++ rest := by
    refine dropWhile_append_of_stops hname.2 ?_
    cases hsub with
    | none => exact fun c hc => (hstops rfl c hc).1
    | some h =>
      rintro c ⟨⟩
      decide
  have hlength : (sub ++ rest).length ≠ (mark ++ name ++ sub ++ rest).length := by
    have := List.length_pos_iff.2 hname.1
    simp only [List.length_append]
    omega
  rw [lexSegment, List.append_assoc _ sub, hskip]
  dsimp only
  rw [hdrop, if_neg (by simpa only [List.append_assoc] using hlength)]
  cases hsub with
  | none =>
    rw [List.nil_append, if_neg (fun hc => (hstops rfl _ hc).2 rfl)]
    simpa using hbracket
  | some h =>
    simp [lexSubscript_of_dottedNames h]

theorem piece_of_lexSegment (h : lexSegment first src = .ok (bracket, rest))
    (hfirst : first = true → src.head?.any isIdentStart = true) :
    ∃ piece sub, src = piece ++ sub ++ rest ∧ PathPiece first piece ∧ OptSubscript sub ∧
      SegmentStops sub rest := by
  rw [lexSegment] at h
  split at h
  · cases h
  rename_i name hskip
  dsimp only at h
  split_ifs at h with hlength hopen
  -- The segment is what was dropped, with the mark before it.
  all_goals
    have hpiece : ∃ piece, src = piece ++ name.dropWhile isSegmentChar ∧ PathPiece first piece := by
      rcases skipReservedMark_eq_ok hskip with rfl | ⟨rfl, rfl, hname⟩
      · refine ⟨name.takeWhile isSegmentChar, List.takeWhile_append_dropWhile.symm, ?_⟩
        cases first with
        | true => exact .first (isSegment_takeWhile (hfirst rfl))
        | false =>
          refine .later ⟨?_, fun d hd => List.mem_takeWhile_imp hd⟩
          intro hnil
          have := List.takeWhile_append_dropWhile (p := isSegmentChar) (l := name)
          rw [hnil, List.nil_append] at this
          exact hlength (congrArg List.length this)
      · refine ⟨'$' :: name.takeWhile isSegmentChar, ?_, .reserved (isSegment_takeWhile hname)⟩
        rw [List.cons_append, List.takeWhile_append_dropWhile]
    obtain ⟨piece, hsrc, hpiece⟩ := hpiece
  · split at h
    · rename_i after hsubscript
      cases h
      obtain ⟨inner, hinner, hnames⟩ := dottedNames_of_lexSubscript hsubscript
      refine ⟨piece, '[' :: (inner ++ [']']), ?_, hpiece, .some hnames, nofun⟩
      rw [hsrc, List.append_assoc, ← List.cons_head?_tail hopen, hinner]
      simp
    · cases h
  · cases h
    refine ⟨piece, [], by simpa using hsrc, hpiece, .none, fun _ c hc => ⟨stops_dropWhile c hc, ?_⟩⟩
    rintro rfl
    exact hopen hc

theorem PathFrom.ne_nil (h : PathFrom first text) : text ≠ [] := by
  cases h with
  | last hpiece _ => simp [hpiece.ne_nil]
  | more => simp

theorem lexSegments_of_pathFrom (h : PathFrom first text) (hstops : PathStops text rest) {n : ℕ}
    (hn : text.length ≤ n) :
    lexSegments n first (text ++ rest) = .ok (text.contains '[', rest) := by
  induction h generalizing n with
  | @last first piece sub hpiece hsub =>
    obtain ⟨n, rfl⟩ : ∃ m, n = m + 1 := by
      have := List.length_pos_iff.2 hpiece.ne_nil
      simp only [List.length_append] at hn
      exact ⟨n - 1, by omega⟩
    have hsegment : SegmentStops sub rest := by
      rintro rfl c hc
      rcases (hstops c hc).2 with hlast | hstop
      · rw [List.append_nil] at hlast
        exact absurd (List.mem_of_getLast? hlast) (hpiece.notMem (by decide) (by decide))
      · exact hstop
    rw [lexSegments, lexSegment_of_piece hpiece hsub hsegment]
    exact if_neg fun hc => (hstops _ hc).1 rfl
  | @more first piece sub more hpiece hsub hmore ih =>
    obtain ⟨n, rfl⟩ : ∃ m, n = m + 1 := ⟨n - 1, by simp at hn; omega⟩
    have hsegment : SegmentStops sub ('.' :: (more ++ rest)) := by
      rintro - c ⟨⟩
      decide
    have hmoreStops : PathStops more rest := by
      intro c hc
      obtain ⟨d, ds, rfl⟩ := List.exists_cons_of_ne_nil hmore.ne_nil
      have := hstops c hc
      rwa [List.getLast?_append_cons, List.getLast?_cons_cons] at this
    have hrest := ih hmoreStops (n := n) (by simp at hn; omega)
    rw [lexSegments, List.append_assoc _ ('.' :: more), List.cons_append,
      lexSegment_of_piece hpiece hsub hsegment]
    simp [hrest, Bool.or_assoc]

theorem PathFrom.concat (h : PathFrom first text) (hlast : text.getLast? ≠ some ']') {c : Char}
    (hc : isSegmentChar c = true) : PathFrom first (text ++ [c]) := by
  have hsegment : ∀ {cs : List Char}, IsSegment cs → IsSegment (cs ++ [c]) := by
    rintro _ ⟨hd, hcs⟩
    refine .mk hd fun d hd => ?_
    rcases List.mem_append.1 hd with hd | hd
    · exact hcs d hd
    · rwa [List.mem_singleton.1 hd]
  induction h with
  | @last first piece sub hpiece hsub =>
    cases hsub with
    | none =>
      rw [List.append_nil, ← List.append_nil (piece ++ [c])]
      refine .last ?_ .none
      cases hpiece with
      | first h => exact .first (hsegment h)
      | later h =>
        refine .later ⟨by simp, fun d hd => ?_⟩
        rcases List.mem_append.1 hd with hd | hd
        · exact h.2 d hd
        · rwa [List.mem_singleton.1 hd]
      | reserved h => exact .reserved (hsegment h)
    | some h =>
      rw [← List.cons_append, ← List.append_assoc] at hlast
      exact absurd List.getLast?_concat hlast
  | @more first piece sub rest hpiece hsub hrest ih =>
    obtain ⟨d, ds, rfl⟩ := List.exists_cons_of_ne_nil hrest.ne_nil
    rw [List.getLast?_append_cons, List.getLast?_cons_cons] at hlast
    rw [List.append_assoc, List.cons_append]
    exact .more hpiece hsub (ih hlast)

theorem pathFrom_of_lexSegments {n : ℕ} (h : lexSegments n first src = .ok (bracket, rest))
    (hfirst : first = true → src.head?.any isIdentStart = true) :
    ∃ text, src = text ++ rest ∧ PathFrom first text ∧ PathStops text rest := by
  induction n generalizing first src bracket with
  | zero => cases h
  | succ n ih =>
    rw [lexSegments] at h
    split at h
    · cases h
    rename_i b after hsegment
    obtain ⟨piece, sub, rfl, hpiece, hsub, hstops⟩ := piece_of_lexSegment hsegment hfirst
    split_ifs at h with hdot
    · split at h
      · rename_i hmore
        cases h
        obtain ⟨text, htext, hpath, hpathStops⟩ := ih hmore nofun
        refine ⟨piece ++ sub ++ '.' :: text, ?_, .more hpiece hsub hpath, ?_⟩
        · rw [List.append_assoc _ ('.' :: text), List.cons_append, ← htext,
            List.cons_head?_tail hdot]
        · intro c hc
          obtain ⟨d, ds, rfl⟩ := List.exists_cons_of_ne_nil hpath.ne_nil
          rw [List.getLast?_append_cons, List.getLast?_cons_cons]
          exact hpathStops c hc
      · cases h
    · cases h
      refine ⟨piece ++ sub, rfl, .last hpiece hsub, fun c hc => ⟨?_, ?_⟩⟩
      · rintro rfl
        exact hdot hc
      · cases hsub with
        | none => exact .inr (hstops rfl c hc)
        | some h =>
          rw [← List.cons_append, ← List.append_assoc]
          exact .inl List.getLast?_concat

end Segments

end PraxisPolicy
