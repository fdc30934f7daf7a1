import PraxisPolicy.RuleRoundTrip

/-!
# What `require` compiles to

A comma or a closing parenthesis ends every lexeme before it, so the arguments of a call are cut as
they would be alone.
-/

namespace PraxisPolicy

open TextScanning

section Breaks

def isLexemeChar (c : Char) : Bool := isWordChar c || c == '[' || c == ']'

theorem isLexemeChar_of_isWordChar {c : Char} (h : isWordChar c = true) : isLexemeChar c = true := by
  simp [isLexemeChar, h]

theorem OptSubscript.isLexemeChar {cs : List Char} (h : OptSubscript cs) :
    ∀ c ∈ cs, isLexemeChar c = true := by
  cases h with
  | none => exact fun c hc => absurd hc List.not_mem_nil
  | some h =>
    intro c hc
    rcases List.mem_cons.1 hc with rfl | hc
    · decide
    rcases List.mem_append.1 hc with hc | hc
    · exact isLexemeChar_of_isWordChar (h.isWordChar c hc)
    · obtain rfl := List.mem_singleton.1 hc
      decide

theorem PathFrom.isLexemeChar {first : Bool} {cs : List Char} (h : PathFrom first cs) :
    ∀ c ∈ cs, isLexemeChar c = true := by
  have hpiece : ∀ {first : Bool} {piece sub : List Char}, PathPiece first piece →
      OptSubscript sub → ∀ c ∈ piece ++ sub, PraxisPolicy.isLexemeChar c = true := by
    intro first piece sub hpiece hsub c hc
    rcases List.mem_append.1 hc with hc | hc
    · exact isLexemeChar_of_isWordChar (hpiece.isWordChar c hc)
    · exact hsub.isLexemeChar c hc
  induction h with
  | last hfirst hsub => exact hpiece hfirst hsub
  | more hfirst hsub _ ih =>
    intro c hc
    rcases List.mem_append.1 hc with hc | hc
    · exact hpiece hfirst hsub c hc
    rcases List.mem_cons.1 hc with rfl | hc
    · decide
    · exact ih c hc

def isBreak (c : Char) : Bool := c == ',' || c == ')' || c == ' '

theorem Shape.notMem_of_isBreak {text more : List Char} (h : Shape AcceptedPath text)
    (hmore : Shape AcceptedPath (text ++ more)) {c : Char} (hc : isBreak c = true) : c ∉ more := by
  intro hmem
  have hword : isLexemeChar c = false := by
    simp only [isBreak, Bool.or_eq_true, beq_iff_eq] at hc
    rcases hc with (rfl | rfl) | rfl <;> decide
  have hin : c ∈ text ++ more := List.mem_append_right _ hmem
  obtain ⟨d, cs, rfl, -⟩ := h.exists_lead
  generalize hall : d :: cs ++ more = all at hmore hin
  cases hmore with
  | symbol hsymbol =>
    have htail : ∀ s ∈ symbols, s.1.tail.Forall (fun c => isBreak c = false) := by decide
    have hbreak := List.forall_iff_forall_mem.1 (htail _ hsymbol) c
      (by rw [← hall]; exact List.mem_append_right cs hmem)
    rw [hc] at hbreak
    cases hbreak
  | literal hliteral =>
    -- what the text starts with is a literal as well, and a literal is never extended
    obtain ⟨_, _, heq, hlead⟩ := hliteral.exists_lead
    obtain ⟨rfl, -⟩ := List.cons.inj (hall.trans heq)
    obtain ⟨value, hstart⟩ := h.production hlead
    refine longest_of_isLiteral hstart more List.prefix_rfl (List.ne_nil_of_mem hmem) ?_
    rw [hall]
    exact .literal hliteral
  | number hnumber =>
    rw [isLexemeChar_of_isWordChar (hnumber.isWordChar c hin)] at hword
    cases hword
  | path hpath =>
    rw [PathFrom.isLexemeChar hpath c hin] at hword
    cases hword

variable [Library] {text rest src more : List Char} {tok : Tok} {toks after : List Tok} {c : Char}

theorem IsToken.append (h : IsToken AcceptedPath text tok rest) (hc : isBreak c = true) :
    IsToken AcceptedPath text tok (rest ++ c :: more) := by
  have hhead : ∀ d, isBreak d = false → rest.head? ≠ some d → (rest ++ c :: more).head? ≠ some d := by
    intro d hd hrest
    cases rest with
    | nil =>
      rintro ⟨⟩
      rw [hc] at hd
      cases hd
    | cons _ _ => exact hrest
  refine ⟨h.shape, ?_, h.denotes, ?_, ?_, ?_⟩
  · intro piece hpiece hne hshape
    rcases prefix_append_cases hpiece with hpiece | ⟨start, hstart, rfl, hprefix⟩
    · exact h.longest piece hpiece hne hshape
    · obtain ⟨tail, htail⟩ := hprefix
      have hmem : c ∈ start := by
        cases start with
        | nil => exact absurd rfl hstart
        | cons d start => simp [(List.cons.inj htail).1]
      exact h.shape.notMem_of_isBreak hshape hc (List.mem_append_right _ hmem)
  · exact fun htext => hhead _ (by decide) (h.separated.1 htext)
  · exact fun htext => hhead _ (by decide) (h.separated.2.1 htext)
  · intro fraction hnumber
    obtain ⟨hlower, hupper⟩ := h.separated.2.2 fraction hnumber
    exact ⟨hhead _ (by decide) hlower, hhead _ (by decide) hupper⟩

theorem Lexes.append (h : Lexes AcceptedPath src toks) (hc : isBreak c = true)
    (hafter : Lexes AcceptedPath (c :: more) after) :
    Lexes AcceptedPath (src ++ c :: more) (toks ++ after) := by
  induction h with
  | nil => exact hafter
  | blank hblank _ ih => exact .blank hblank ih
  | token htoken _ ih =>
    rw [List.append_assoc]
    exact .token (htoken.append hc) ih

theorem Lexes.punctuation
    (h : ([c], tok) ∈ [(['('], Tok.lParen), ([')'], .rParen), ([','], .comma)])
    (hsrc : Lexes AcceptedPath src toks) : Lexes AcceptedPath (c :: src) (tok :: toks) := by
  have hmem : ([c], tok) ∈ symbols := by
    have hsub : ∀ s ∈ [(['('], Tok.lParen), ([')'], .rParen), ([','], .comma)], s ∈ symbols := by
      decide
    exact hsub _ h
  have hother : ∀ d ∈ ['!', '>', '<', '&', '|'], [c] ≠ [d] := by
    simp only [List.mem_cons, Prod.mk.injEq, List.not_mem_nil, or_false] at h
    rcases h with ⟨hc, -⟩ | ⟨hc, -⟩ | ⟨hc, -⟩ <;> simp [hc]
  have hstops : SymbolStops [c] src := by
    rintro (hc | hc | hc)
    · exact absurd hc (hother _ (by decide))
    · exact absurd hc (hother _ (by decide))
    · exact absurd hc (hother _ (by decide))
  have hseparated : Separated [c] src :=
    separated_of_mem_symbols hmem (fun hc => absurd hc (hother _ (by decide)))
      fun hc => absurd hc (hother _ (by decide))
  have htoken : IsToken AcceptedPath [c] tok src :=
    ⟨.symbol hmem, longest_of_mem_symbols hmem hstops, .symbol hmem, hseparated⟩
  exact .token htoken hsrc

theorem Lexes.require (hsrc : Lexes AcceptedPath src toks) :
    Lexes AcceptedPath ("require(".toList ++ src) (.require :: .lParen :: toks) := by
  have hword : ("require", Tok.require) ∈ reservedWords := by decide
  have hpath := (reservedWords_spec hword).1
  have hstops : PathStops "require".toList ('(' :: src) := by
    rintro c ⟨⟩
    exact ⟨by decide, .inr (by decide)⟩
  have hseparated : Separated "require".toList ('(' :: src) :=
    separated_of_lead (c := 'r') (by decide) (by decide)
  have htoken : IsToken AcceptedPath "require".toList .require ('(' :: src) :=
    ⟨.path hpath, longest_of_acceptedPath hpath hstops, .reserved hword, hseparated⟩
  have hopen : Lexes AcceptedPath ('(' :: src) (.lParen :: toks) := hsrc.punctuation (by decide)
  have hall : Lexes AcceptedPath ("require".toList ++ '(' :: src) (.require :: .lParen :: toks) :=
    .token htoken hopen
  simpa using hall

end Breaks

section Verdicts

theorem negate_eq_true_iff {r : Except Unorderable Bool} : negate r = .ok true ↔ r = .ok false := by
  rcases r with err | _ | _ <;> simp [negate]

variable [Library]

theorem evalExpression_require_iff (bag : AttributeBag) (first : Expression)
    (more : List Expression) :
    evalExpression bag (normalizeNot (allOf first more)) = .ok true ↔
      evalExpression bag (.and (first :: more)) = .ok false := by
  rw [evalExpression_normalizeNot, evalExpression_not, negate_eq_true_iff, allOf]
  split_ifs with hmore
  · obtain rfl := List.isEmpty_iff.1 hmore
    rw [evalExpression.eq_def bag (.and _)]
    rcases h : evalExpression bag first with err | _ | _ <;> simp [evalAnd, h]
  · rfl

end Verdicts

section Calls

def requireCall (texts : List String) : String :=
  "require(" ++ ", ".intercalate (texts.map trim) ++ ")"

theorem toList_requireCall (texts : List String) :
    (requireCall texts).toList = "require(".toList ++
      (", ".toList.intercalate (texts.map fun text => trimChars text.toList) ++ [')']) := by
  simp [requireCall, Function.comp_def]

theorem trimChars_requireCall (texts : List String) :
    trimChars (requireCall texts).toList = (requireCall texts).toList := by
  rw [toList_requireCall]
  refine trimChars_of_visible ⟨'r', _, rfl, by decide⟩ ⟨')', ?_⟩
  simp only [List.reverse_append, List.append_assoc]
  exact ⟨_, rfl, by decide⟩

theorem Derives.of_atom {ts : List Tok} {e : Expression} (h : Derives .atom ts [e]) :
    Derives .predicate ts [e] := by
  have hall := Derives.predicate (.conjunction (.unary h) .noFactor) .noAlternative
  simpa [anyOf, allOf] using hall

variable [Library] [FloatText]

theorem exists_requireArgs (args : List (String × Expression)) (hne : args ≠ [])
    (hargs : ∀ a ∈ args, parsePredicate a.1 = .ok a.2) :
    ∃ toks, Lexes AcceptedPath
        (", ".toList.intercalate (args.map fun a => trimChars a.1.toList) ++ [')'])
        (toks ++ [.rParen]) ∧
      Derives .requireArgs toks (args.map Prod.snd) := by
  have hend : Lexes AcceptedPath [')'] [.rParen] := Lexes.nil.punctuation (by decide)
  induction args with
  | nil => exact absurd rfl hne
  | cons a args ih =>
    obtain ⟨ts, hlexes, hderives⟩ := (parsePredicate_eq_ok_iff a.1 a.2).1 (hargs a (by simp))
    cases args with
    | nil =>
      refine ⟨ts, ?_, .lastArg hderives⟩
      rw [List.map_singleton, List.intercalate_singleton]
      exact hlexes.append (by decide) hend
    | cons b args =>
      obtain ⟨us, hmore, hrest⟩ := ih (by simp) fun a ha => hargs a (List.mem_cons_of_mem _ ha)
      refine ⟨ts ++ .comma :: us, ?_, .arg hderives hrest⟩
      have hcomma := (Lexes.blank (by decide : isAsciiWhitespace ' ' = true) hmore).punctuation
        (by decide : ([','], Tok.comma) ∈ _)
      have hall := hlexes.append (by decide) hcomma
      simpa [List.intercalate_cons_cons] using hall

/-- Folding a negation down swaps the two verdicts and keeps the error. What `require` compiles to
is true exactly where the conjunction of its operands is false. -/
theorem negation_exact :
    (∀ bag e, evalExpression bag (normalizeNot e) = negate (evalExpression bag e)) ∧
    (∀ rounds toks first more rest,
      requireOperands rounds toks = .ok ((first, more), rest) →
        ∃ condition, parseAtom (rounds + 1) (.require :: .lParen :: toks) = .ok (condition, rest) ∧
          ∀ bag, evalExpression bag condition = .ok true ↔
            evalExpression bag (.and (first :: more)) = .ok false) ∧
    ∀ args : List (String × Expression), args ≠ [] →
      (∀ a ∈ args, parsePredicate a.1 = .ok a.2) →
        ∃ condition, parsePredicate (requireCall (args.map Prod.fst)) = .ok condition ∧
          ∀ bag, evalExpression bag condition = .ok true ↔
            evalExpression bag (.and (args.map Prod.snd)) = .ok false := by
  refine ⟨fun bag e => ?_, fun rounds toks first more rest hoperands => ?_, fun args hne hargs => ?_⟩
  · rw [evalExpression_normalizeNot, evalExpression_not]
  · refine ⟨normalizeNot (allOf first more), ?_, fun bag => evalExpression_require_iff bag first more⟩
    rw [parseAtom, hoperands]
  · obtain ⟨toks, hlexes, hderives⟩ := exists_requireArgs args hne hargs
    obtain ⟨a, args, rfl⟩ := List.exists_cons_of_ne_nil hne
    rw [List.map_cons] at hderives
    refine ⟨_, (parsePredicate_eq_ok_iff _ _).2 ⟨_, ?_, Derives.of_atom (.require hderives)⟩,
      fun bag => evalExpression_require_iff bag _ _⟩
    rw [trimChars_requireCall, toList_requireCall, List.map_map]
    exact hlexes.require

end Calls

end PraxisPolicy
