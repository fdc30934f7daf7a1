import PraxisPolicy.PredicateGrammar
import PraxisPolicy.RuleParsing

/-!
# Rules with quoted text

A predicate that the parser accepts has no colon outside its literals, and its parentheses and
brackets are balanced.
-/

namespace PraxisPolicy

open TextScanning

section Walks

/-- Its pieces are the same before every other text, with no colon among them. -/
structure Walks (cs : List Char) (ps : List Piece) : Prop where
  walk : ∀ rest, pieces (cs ++ rest) = ps ++ pieces rest
  noColon : .plain ':' ∉ ps
  noBroken : ∀ c msg, .broken c msg ∉ ps

def sumOf (up down : Char) (ps : List Piece) : ℤ :=
  (ps.map fun p => if p = .plain up then 1 else if p = .plain down then -1 else 0).sum

@[simp] theorem sumOf_nil (up down : Char) : sumOf up down [] = 0 := rfl

@[simp] theorem sumOf_cons (up down : Char) (p : Piece) (ps : List Piece) :
    sumOf up down (p :: ps) =
      (if p = .plain up then 1 else if p = .plain down then -1 else 0) + sumOf up down ps := by
  simp [sumOf]

@[simp] theorem sumOf_append (up down : Char) (ps qs : List Piece) :
    sumOf up down (ps ++ qs) = sumOf up down ps + sumOf up down qs := by
  simp [sumOf]

variable {cs ds : List Char} {ps qs : List Piece}

theorem walks_nil : Walks [] [] := ⟨fun _ => rfl, by simp, by simp⟩

theorem Walks.append (h : Walks cs ps) (h' : Walks ds qs) : Walks (cs ++ ds) (ps ++ qs) := by
  refine ⟨fun rest => ?_, ?_, fun c msg => ?_⟩
  · rw [List.append_assoc, h.walk, h'.walk, List.append_assoc]
  · simp [h.noColon, h'.noColon]
  · simp [h.noBroken, h'.noBroken]

theorem walks_plain (h : ∀ c ∈ cs, isQuote c = false ∧ c ≠ ':') : Walks cs (cs.map .plain) := by
  induction cs with
  | nil => exact walks_nil
  | cons c cs ih =>
    obtain ⟨⟨hquote, hcolon⟩, hcs⟩ := List.forall_mem_cons.1 h
    have hone : Walks [c] [.plain c] := by
      refine ⟨fun rest => ?_, ?_, ?_⟩
      · rw [List.singleton_append, pieces_plain hquote]
        rfl
      · simpa using hcolon.symm
      · simp
    exact hone.append (ih hcs)

theorem walks_literal {text value : List Char} (h : IsLiteral text value) :
    Walks text [.literal text] :=
  ⟨fun _ => pieces_literal h, by simp, by simp⟩

theorem sumOf_plain {up down : Char} (h : ∀ c ∈ cs, c ≠ up ∧ c ≠ down) :
    sumOf up down (cs.map .plain) = 0 := by
  induction cs with
  | nil => rfl
  | cons c cs ih =>
    obtain ⟨hc, hcs⟩ := List.forall_mem_cons.1 h
    rw [List.map_cons, sumOf_cons, ih hcs]
    simp [hc.1, hc.2]

end Walks

section Tokens

def tokParen : Tok → ℤ
  | .lParen => 1
  | .rParen => -1
  | _ => 0

theorem Derives.balanced {nt : Nonterminal} {ts : List Tok} {es : List Expression}
    (h : Derives nt ts es) : (ts.map tokParen).sum = 0 := by
  have hop : ∀ {t : Tok} {op : CompareOp}, compareOp t = some op → tokParen t = 0 := by
    intro t op h
    cases t <;> first | rfl | cases h
  have hvalue : ∀ {t : Tok} {value : Literal}, literalOf t = some value → tokParen t = 0 := by
    intro t value h
    cases t <;> first | rfl | cases h
  induction h with
  | @comparison key operator operand op value h h' =>
    have hkey : tokParen (.ident key) = 0 := rfl
    simp [hkey, hop h, hvalue h']
  | _ => simp_all [tokParen]

def isWordChar (c : Char) : Bool := isSegmentChar c || c == '.' || c == '$' || c == '-'

theorem walks_class {p : Char → Bool} {cs : List Char} (h : ∀ c ∈ cs, p c = true)
    (hp : List.Forall (p · = false) ['"', '\x27', ':', '(', ')', '[', ']']) :
    Walks cs (cs.map .plain) ∧ sumOf '(' ')' (cs.map .plain) = 0 ∧
      sumOf '[' ']' (cs.map .plain) = 0 := by
  obtain ⟨hquote, hapostrophe, hcolon, hopen, hclose, hopen', hclose'⟩ := hp
  have hne : ∀ {d}, p d = false → ∀ c ∈ cs, c ≠ d := by
    rintro d hd c hc rfl
    rw [h c hc] at hd
    cases hd
  refine ⟨walks_plain fun c hc => ⟨?_, hne hcolon c hc⟩,
    sumOf_plain fun c hc => ⟨hne hopen c hc, hne hclose c hc⟩,
    sumOf_plain fun c hc => ⟨hne hopen' c hc, hne hclose' c hc⟩⟩
  simp [isQuote, hne hquote c hc, hne hapostrophe c hc]

theorem walks_word {cs : List Char} (h : ∀ c ∈ cs, isWordChar c = true) :
    Walks cs (cs.map .plain) ∧ sumOf '(' ')' (cs.map .plain) = 0 ∧
      sumOf '[' ']' (cs.map .plain) = 0 :=
  walks_class h (by decide)

/-- Without colons, with a number of open parentheses and balanced brackets. -/
def Weighs (cs : List Char) (parens : ℤ) : Prop :=
  ∃ ps, Walks cs ps ∧ sumOf '(' ')' ps = parens ∧ sumOf '[' ']' ps = 0

theorem Weighs.append {cs ds : List Char} {m n : ℤ} (h : Weighs cs m) (h' : Weighs ds n) :
    Weighs (cs ++ ds) (m + n) := by
  obtain ⟨ps, hwalk, hparens, hbrackets⟩ := h
  obtain ⟨qs, hwalk', hparens', hbrackets'⟩ := h'
  refine ⟨ps ++ qs, hwalk.append hwalk', ?_, ?_⟩
  · rw [sumOf_append, hparens, hparens']
  · rw [sumOf_append, hbrackets, hbrackets', add_zero]

theorem weighs_word {cs : List Char} (h : ∀ c ∈ cs, isWordChar c = true) : Weighs cs 0 :=
  ⟨_, walks_word h⟩

theorem weighs_blank {cs : List Char} (h : ∀ c ∈ cs, isWhitespace c = true) : Weighs cs 0 :=
  ⟨_, walks_class h (by decide)⟩

theorem isWordChar_of_isSegmentChar {c : Char} (h : isSegmentChar c = true) :
    isWordChar c = true := by
  simp [isWordChar, h]

theorem DottedNames.isWordChar {cs : List Char} (h : DottedNames cs) :
    ∀ c ∈ cs, isWordChar c = true := by
  induction h with
  | one h => exact fun c hc => isWordChar_of_isSegmentChar (h.2 c hc)
  | more h _ ih =>
    intro c hc
    rcases List.mem_append.1 hc with hc | hc
    · exact isWordChar_of_isSegmentChar (h.2 c hc)
    · rcases List.mem_cons.1 hc with rfl | hc
      · decide
      · exact ih c hc

theorem PathPiece.isWordChar {first : Bool} {cs : List Char} (h : PathPiece first cs) :
    ∀ c ∈ cs, isWordChar c = true := by
  cases h with
  | first h => exact fun c hc => isWordChar_of_isSegmentChar (h.isName.2 c hc)
  | later h => exact fun c hc => isWordChar_of_isSegmentChar (h.2 c hc)
  | reserved h =>
    intro c hc
    rcases List.mem_cons.1 hc with rfl | hc
    · decide
    · exact isWordChar_of_isSegmentChar (h.isName.2 c hc)

theorem OptSubscript.weighs {cs : List Char} (h : OptSubscript cs) : Weighs cs 0 := by
  cases h with
  | none => exact ⟨[], walks_nil, rfl, rfl⟩
  | @some inner h =>
    obtain ⟨hwalk, hparens, hbrackets⟩ := walks_word h.isWordChar
    have hopen : Walks ['['] [.plain '['] := walks_plain (List.forall_iff_forall_mem.1 (by decide))
    have hclose : Walks [']'] [.plain ']'] := walks_plain (List.forall_iff_forall_mem.1 (by decide))
    refine ⟨_, hopen.append (hwalk.append hclose), ?_, ?_⟩
    · simp [hparens]
    · simp [hbrackets]

theorem PathFrom.weighs {first : Bool} {cs : List Char} (h : PathFrom first cs) : Weighs cs 0 := by
  induction h with
  | last hpiece hsub => exact (weighs_word hpiece.isWordChar).append hsub.weighs
  | more hpiece hsub _ ih =>
    have hdot : Weighs ['.'] 0 := weighs_word (List.forall_iff_forall_mem.1 (by decide))
    exact ((weighs_word hpiece.isWordChar).append hsub.weighs).append (hdot.append ih)

theorem IsNumber.isWordChar {fraction : Bool} {cs : List Char} (h : IsNumber fraction cs) :
    ∀ c ∈ cs, isWordChar c = true := by
  have hsign : ∀ {sign : List Char}, sign = [] ∨ sign = ['-'] → ∀ c ∈ sign,
      PraxisPolicy.isWordChar c = true := by
    rintro sign (rfl | rfl) <;> exact List.forall_iff_forall_mem.1 (by decide)
  have hdigits : ∀ {digits : List Char}, IsDigits digits → ∀ c ∈ digits,
      PraxisPolicy.isWordChar c = true := fun h c hc =>
    isWordChar_of_isSegmentChar (by simp [isSegmentChar, Char.isAlphanum, h.2 c hc])
  intro c hc
  cases h with
  | whole h h' =>
    rcases List.mem_append.1 hc with hc | hc
    · exact hsign h c hc
    · exact hdigits h' c hc
  | decimal h h' h'' =>
    rcases List.mem_append.1 hc with hc | hc
    · rcases List.mem_append.1 hc with hc | hc
      · exact hsign h c hc
      · exact hdigits h' c hc
    · rcases List.mem_cons.1 hc with rfl | hc
      · decide
      · exact hdigits h'' c hc

theorem weighs_symbol {text : List Char} {tok : Tok} (h : (text, tok) ∈ symbols) :
    Weighs text (tokParen tok) := by
  have hall : ∀ s ∈ symbols, s.1.Forall (fun c => isQuote c = false ∧ c ≠ ':') ∧
      sumOf '(' ')' (s.1.map .plain) = tokParen s.2 ∧ sumOf '[' ']' (s.1.map .plain) = 0 := by
    decide
  obtain ⟨hplain, hsums⟩ := hall _ h
  exact ⟨_, walks_plain (List.forall_iff_forall_mem.1 hplain), hsums⟩

variable [Library]

theorem IsToken.weighs {text rest : List Char} {tok : Tok}
    (htoken : IsToken AcceptedPath text tok rest) : Weighs text (tokParen tok) := by
  cases htoken.denotes with
  | symbol h => exact weighs_symbol h
  | literal h => exact ⟨_, walks_literal h, rfl, rfl⟩
  | integer h => exact weighs_word h.isWordChar
  | decimal h => exact weighs_word h.isWordChar
  | @reserved word tok h =>
    have htok : ∀ w ∈ reservedWords, tokParen w.2 = 0 := by decide
    rw [htok _ h]
    exact (reservedWords_spec h).1.weighs
  | path h => exact h.weighs

theorem Lexes.weighs {cs : List Char} {toks : List Tok} (h : Lexes AcceptedPath cs toks) :
    Weighs cs (toks.map tokParen).sum := by
  induction h with
  | nil => exact ⟨[], walks_nil, rfl, rfl⟩
  | @blank c cs toks hc _ ih =>
    have hblank : Weighs [c] 0 := by
      simp only [isAsciiWhitespace, Bool.or_eq_true, beq_iff_eq] at hc
      refine ⟨[.plain c], walks_plain (List.forall_iff_forall_mem.1 ?_), ?_, ?_⟩ <;>
        rcases hc with (((rfl | rfl) | rfl) | rfl) | rfl <;> decide
    simpa using hblank.append ih
  | token htoken _ ih => exact htoken.weighs.append ih

end Tokens

section Colons

variable {ps qs : List Piece}

theorem lastColon_append (hcolon : .plain ':' ∉ ps) (hbroken : ∀ c msg, .broken c msg ∉ ps)
    (parens brackets : ℤ) :
    lastColon parens brackets (ps ++ qs) =
      (lastColon (parens + sumOf '(' ')' ps) (brackets + sumOf '[' ']' ps) qs).map
        fun cut => (ps ++ cut.1, cut.2) := by
  induction ps generalizing parens brackets with
  | nil =>
    rw [sumOf_nil, sumOf_nil, add_zero, add_zero, List.nil_append]
    exact Option.map_id'.symm
  | cons p ps ih =>
    obtain ⟨hp, hps⟩ := not_or.1 (mt List.mem_cons.2 hcolon)
    have hbroken' : ∀ c msg, .broken c msg ∉ ps := fun c msg h =>
      hbroken c msg (List.mem_cons_of_mem _ h)
    cases p with
    | broken c msg => exact absurd List.mem_cons_self (hbroken c msg)
    | literal text =>
      rw [List.cons_append, lastColon, ih hps hbroken', Option.map_map]
      simp [Function.comp_def]
    | plain c =>
      have hc : c ≠ ':' := fun h => hp (h ▸ rfl)
      have hsum : ∀ (up down : Char) (m : ℤ),
          (if c = up then m + 1 else if c = down then m - 1 else m) + sumOf up down ps =
            m + sumOf up down (.plain c :: ps) := by
        intro up down m
        simp only [sumOf_cons, Piece.plain.injEq]
        split_ifs <;> ring
      rw [List.cons_append, lastColon, ih hps hbroken']
      simp only [hsum, hc, false_and, if_false]
      cases lastColon (parens + sumOf '(' ')' (.plain c :: ps))
        (brackets + sumOf '[' ']' (.plain c :: ps)) qs <;> rfl

theorem lastColon_eq_none {cs : List Char} (h : Walks cs ps) (parens brackets : ℤ) :
    lastColon parens brackets (pieces cs) = none := by
  have hpieces : pieces cs = ps ++ [] := by simpa using h.walk []
  rw [hpieces, lastColon_append h.noColon h.noBroken]
  rfl

theorem Weighs.lastColon_append {left : List Char} (h : Weighs left 0) (right : List Char) :
    ∃ ps, textOf ps = left ∧ lastColon 0 0 (pieces (left ++ right)) =
      (lastColon 0 0 (pieces right)).map fun cut => (ps ++ cut.1, cut.2) := by
  obtain ⟨ps, hwalk, hparens, hbrackets⟩ := h
  refine ⟨ps, ?_, ?_⟩
  · have htext := textOf_pieces (left ++ [])
    rwa [hwalk.walk, pieces_nil, List.append_nil, List.append_nil] at htext
  · rw [hwalk.walk, PraxisPolicy.lastColon_append hwalk.noColon hwalk.noBroken, hparens, hbrackets]
    rfl

/-- A line is cut at the colon after a balanced half, or at a later one. -/
theorem splitPredicateAction_line {left : List Char} (h : Weighs left 0) (right : List Char) :
    splitPredicateAction (left ++ ':' :: right) =
      some ((lastColon 0 0 (pieces right)).elim (trimChars left, trimChars right) fun cut =>
        (trimChars (left ++ ':' :: textOf cut.1), trimChars (textOf cut.2))) := by
  obtain ⟨ps, htext, hcut⟩ := h.lastColon_append (':' :: right)
  have hcolon : lastColon 0 0 (.plain ':' :: pieces right) =
      some ((lastColon 0 0 (pieces right)).elim ([], pieces right) fun cut =>
        (.plain ':' :: cut.1, cut.2)) := by
    have hrest : lastColon (if ':' = '(' then 0 + 1 else if ':' = ')' then 0 - 1 else 0)
        (if ':' = '[' then 0 + 1 else if ':' = ']' then 0 - 1 else 0) (pieces right) =
      lastColon 0 0 (pieces right) := rfl
    rw [lastColon, hrest]
    cases lastColon 0 0 (pieces right) <;> rfl
  rw [splitPredicateAction, hcut, pieces_plain (by decide), hcolon]
  cases lastColon 0 0 (pieces right) with
  | none => simp [htext, textOf_pieces]
  | some cut => simp [htext, Piece.text]

end Colons

section Calls

variable {first second r c : List Char}

def denyCall (first second : List Char) : List Char :=
  "deny(".toList ++ (first ++ (", ".toList ++ (second ++ [')'])))

theorem denyCall_visible :
    StartsVisible (denyCall first second) ∧ StartsVisible (denyCall first second).reverse := by
  refine ⟨⟨'d', _, rfl, by decide⟩, ⟨')', ?_⟩⟩
  simp only [denyCall, List.reverse_append, List.append_assoc]
  exact ⟨_, rfl, by decide⟩

theorem trimChars_denyCall : trimChars (denyCall first second) = denyCall first second :=
  trimChars_of_visible denyCall_visible.1 denyCall_visible.2

def denyArgs (first second : List Char) : List Piece :=
  [.literal first, .plain ',', .plain ' ', .literal second]

theorem textOf_denyArgs : textOf (denyArgs first second) = first ++ (", ".toList ++ second) := by
  simp [denyArgs, Piece.text]

theorem walks_denyArgs (hfirst : IsLiteral first r) (hsecond : IsLiteral second c) :
    Walks (first ++ (", ".toList ++ second)) (denyArgs first second) :=
  (walks_literal hfirst).append ((walks_plain (List.forall_iff_forall_mem.1 (by decide))).append
    (walks_literal hsecond))

theorem walks_denyCall (hfirst : IsLiteral first r) (hsecond : IsLiteral second c) :
    Walks (denyCall first second)
      ("deny(".toList.map .plain ++ (denyArgs first second ++ [.plain ')'])) := by
  have hopen : Walks "deny(".toList ("deny(".toList.map .plain) :=
    walks_plain (List.forall_iff_forall_mem.1 (by decide))
  have hclose : Walks [')'] [.plain ')'] := walks_plain (List.forall_iff_forall_mem.1 (by decide))
  have := hopen.append ((walks_denyArgs hfirst hsecond).append hclose)
  simpa [denyCall] using this

theorem extractCallArgs_denyCall (hfirst : IsLiteral first r) (hsecond : IsLiteral second c) :
    extractCallArgs (denyCall first second) "deny".toList = some (first ++ (", ".toList ++ second)) := by
  have hargs := walks_denyArgs hfirst hsecond
  have hpieces : pieces ('(' :: (first ++ (", ".toList ++ (second ++ [')'])))) =
      .plain '(' :: (denyArgs first second ++ [.plain ')']) := by
    have hclose : pieces [')'] = [.plain ')'] := by decide
    have := hargs.walk [')']
    rw [List.append_assoc, List.append_assoc, hclose] at this
    rw [pieces_plain (by decide), this]
  have hcall : callArgs (.plain '(' :: (denyArgs first second ++ [.plain ')'])) =
      some (denyArgs first second) := by
    simp [callArgs, closingParen, denyArgs, trimChars]
  rw [extractCallArgs, trimChars_denyCall]
  have hprefix : "deny".toList.isPrefixOf (denyCall first second) = true := rfl
  have hdrop : (denyCall first second).drop "deny".toList.length =
      '(' :: (first ++ (", ".toList ++ (second ++ [')']))) := rfl
  dsimp only
  rw [if_pos hprefix, hdrop, if_pos List.head?_cons, hpieces, hcall, Option.map_some,
    textOf_denyArgs]

theorem denyArg_of_isLiteral {text value part : List Char} {rule : String}
    (h : IsLiteral text value) (hpart : trimChars part = text) :
    denyArg rule (some part) = .ok (some (String.ofList value)) := by
  have hread : readLiteral text = .ok (value, []) :=
    readLiteral_eq_ok_iff.2 ⟨text, (List.append_nil text).symm, h⟩
  have htrim := trimChars_of_visible h.ends.1 h.ends.2
  obtain ⟨hquote, -⟩ := h
  rw [denyArg, hpart, stripStringLiteral, htrim, readWholeLiteral, htrim]
  dsimp only
  rw [if_pos hquote, hread]
  rfl

theorem parseAction_denyCall {rule : String} (hfirst : IsLiteral first r)
    (hsecond : IsLiteral second c) :
    parseAction (denyCall first second) rule =
      .ok [.deny (some (String.ofList r)) (some (String.ofList c))] := by
  have hreason : denyArg rule (some first) = .ok (some (String.ofList r)) :=
    denyArg_of_isLiteral hfirst (trimChars_of_visible hfirst.ends.1 hfirst.ends.2)
  have hcode : denyArg rule (some (' ' :: second)) = .ok (some (String.ofList c)) :=
    denyArg_of_isLiteral hsecond (trimChars_space_cons hsecond.ends.1 hsecond.ends.2)
  have hbare : tryBareAction (denyCall first second) = none := by
    have hne : ∀ word : String, '(' ∉ word.toList → String.ofList (denyCall first second) ≠ word := by
      rintro word hword rfl
      rw [String.toList_ofList] at hword
      exact hword (by simp [denyCall])
    rw [tryBareAction, trimChars_denyCall]
    split
    · rename_i h
      exact absurd h (hne "deny" (by decide))
    · rename_i h
      exact absurd h (hne "allow" (by decide))
    · rfl
  have hstart : startsWith (denyCall first second) "deny(" = true := rfl
  rw [parseAction, hbare]
  dsimp only
  rw [trimChars_denyCall, tryParseDenyCall, if_pos hstart, extractCallArgs_denyCall hfirst hsecond]
  dsimp only
  have hpieces : pieces (first ++ (", ".toList ++ second)) = denyArgs first second := by
    simpa using (walks_denyArgs hfirst hsecond).walk []
  rw [splitTopLevelCommas, hpieces]
  simp [denyArgs, commaParts, consPart, Except.map, Piece.text, hreason, hcode]

theorem exists_isLiteral (value : List Char) : ∃ text, IsLiteral text value := by
  obtain ⟨body, hbody⟩ := exists_quoted '"' (by decide) value
  exact ⟨_, .mk (by decide) hbody⟩

end Calls

section StepKinds

theorem prefix_append_cases {start a b : List Char} (h : start <+: a ++ b) :
    start <+: a ∨ ∃ more, more ≠ [] ∧ start = a ++ more ∧ more <+: b := by
  obtain ⟨after, h⟩ := h
  rcases List.append_eq_append_iff.1 h with ⟨more, ha, -⟩ | ⟨more, hstart, hb⟩
  · exact .inl ⟨more, ha.symm⟩
  · cases more with
    | nil => exact .inl ⟨[], by simp [hstart]⟩
    | cons c more => exact .inr ⟨c :: more, by simp, hstart, ⟨after, hb.symm⟩⟩

/-- A name and an opening parenthesis or a colon. -/
structure StepStart (start name : List Char) (opening : Char) : Prop where
  eq : start = name ++ [opening]
  segment : IsSegment name
  notReserved : ∀ word ∈ reservedWords, word.1.toList ≠ name
  opening : opening = '(' ∨ opening = ':'

variable [Library] {name text : List Char} {opening : Char} {toks : List Tok}

theorem Lexes.of_name {rest : List Char} (hsegment : IsSegment name)
    (hreserved : ∀ word ∈ reservedWords, word.1.toList ≠ name) (hstops : PathStops name rest)
    (h : Lexes AcceptedPath (name ++ rest) toks) :
    ∃ more, toks = .ident (String.ofList name) :: more ∧ Lexes AcceptedPath rest more := by
  have hpath : AcceptedPath name := by
    have := PathFrom.last (.first hsegment) .none
    rwa [List.append_nil] at this
  have hword : ∀ tok, (String.ofList name, tok) ∉ reservedWords := fun tok hmem =>
    hreserved _ hmem String.toList_ofList
  have hnot : ¬ "not.".toList <+: name := by
    intro hprefix
    have hdot : '.' ∈ name := hprefix.subset (by decide)
    exact absurd (hsegment.isName.2 '.' hdot) (by decide)
  have hlex := lexIdentOrKeyword_of_path hpath hstops hword hnot
  generalize hsrc : name ++ rest = src at h
  cases h with
  | nil => exact absurd (List.append_eq_nil_iff.1 hsrc).1 hpath.ne_nil
  | blank hc _ =>
    obtain ⟨d, ds, rfl, hd⟩ := hpath.exists_lead
    obtain ⟨rfl, -⟩ := List.cons.inj hsrc
    have hlead := lead_of_isIdentStart hd
    rw [isAsciiWhitespace_of_lead (by simp [hlead])] at hc
    cases hc
  | @token piece rest tok more htoken hmore =>
    obtain ⟨d, ds, rfl, -⟩ := htoken.shape.exists_lead
    have hname := lexToken_of_name hsrc hpath hlex
    rw [lexToken_of_isToken htoken (hmore.head_ne (by decide) (by decide))
      (hmore.head_ne (by decide) (by decide)) rfl] at hname
    cases hname
    exact ⟨more, rfl, hmore⟩

variable {start : List Char}

theorem Lexes.of_lParen (h : Lexes AcceptedPath ('(' :: text) toks) :
    ∃ more, toks = .lParen :: more := by
  generalize hsrc : '(' :: text = src at h
  cases h with
  | nil => cases hsrc
  | blank hc _ =>
    obtain ⟨rfl, -⟩ := List.cons.inj hsrc
    cases hc
  | @token piece rest tok more htoken hmore =>
    obtain ⟨d, ds, rfl, -⟩ := htoken.shape.exists_lead
    obtain ⟨rfl, -⟩ := List.cons.inj hsrc
    have hlex := lexToken_of_isToken htoken (hmore.head_ne (by decide) (by decide))
      (hmore.head_ne (by decide) (by decide)) rfl
    have hsame : (Tok.lParen, ds ++ rest) = (tok, rest) := Except.ok.inj hlex
    exact ⟨more, by rw [(Prod.mk.inj hsame).1]⟩

variable [FloatText]

theorem parseTokens_call {key : String} {e : Expression} :
    parseTokens (.ident key :: .lParen :: toks) ≠ .ok e := by
  have hrounds : 4 * (Tok.ident key :: Tok.lParen :: toks).length + 4 =
      4 * toks.length + 8 + 1 + 1 + 1 + 1 := by
    simp only [List.length_cons]
    omega
  rw [parseTokens, hrounds]
  simp [parseOr, parseAnd, parseUnary, parseAtom, parseIdentifierPredicate, compareOp, andOperands,
    orOperands]

theorem not_step_of_parsePredicate {p : String} {e : Expression} (hp : parsePredicate p = .ok e)
    (hstart : StepStart start name opening) :
    ¬ start <+: trimChars p.toList := by
  rintro ⟨text, htext⟩
  obtain ⟨toks, hlexes, hderives⟩ := (parsePredicate_eq_ok_iff p e).1 hp
  rw [← htext] at hlexes
  have hstops : PathStops name (opening :: text) := by
    rintro c ⟨⟩
    rcases hstart.opening with h | h <;> rw [h] <;> exact ⟨by decide, .inr (by decide)⟩
  rw [hstart.eq, List.append_assoc, List.singleton_append] at hlexes
  obtain ⟨more, rfl, hmore⟩ := hlexes.of_name hstart.segment hstart.notReserved hstops
  rcases hstart.opening with rfl | rfl
  · obtain ⟨toks, rfl⟩ := hmore.of_lParen
    exact parseTokens_call (parseTokens_eq_ok_iff.2 hderives)
  · exact hmore.head_ne (by decide) (by decide) rfl

end StepKinds

section RoundTrip

variable [Library] [FloatText] {p : String} {e : Expression} {first second r c : List Char}

theorem StepStart.startsWith_eq_false {start : String} {name : List Char} {opening : Char}
    (hstart : StepStart start.toList name opening) (hp : parsePredicate p = .ok e)
    (hcolon : opening = ':' → p.toList.dropWhile isWhitespace ≠ name) (rest : List Char) :
    startsWith (p.toList.dropWhile isWhitespace ++ ':' :: rest) start = false := by
  obtain ⟨trailing, hsplit, hblank⟩ := exists_trailing p.toList
  rw [startsWith, Bool.eq_false_iff, ne_eq, List.isPrefixOf_iff_prefix]
  intro hprefix
  rcases prefix_append_cases hprefix with hprefix | ⟨more, hne, heq, hmore⟩
  · rw [hsplit] at hprefix
    rcases prefix_append_cases hprefix with hprefix | ⟨more, hne, heq, hmore⟩
    · exact not_step_of_parsePredicate hp hstart hprefix
    · -- The opening character would be white space.
      obtain ⟨init, last, rfl⟩ := List.eq_nil_or_concat more |>.resolve_left hne
      rw [hstart.eq, List.concat_eq_append, ← List.append_assoc] at heq
      obtain ⟨-, hlast⟩ := List.append_inj' heq rfl
      have hwhite := hblank last (hmore.subset (by simp))
      rw [← List.singleton_inj.1 hlast] at hwhite
      rcases hstart.opening with rfl | rfl <;> cases hwhite
  · obtain ⟨init, last, rfl⟩ := List.eq_nil_or_concat more |>.resolve_left hne
    rw [hstart.eq, List.concat_eq_append, ← List.append_assoc] at heq
    obtain ⟨hinit, hlast⟩ := List.append_inj' heq rfl
    obtain rfl := List.singleton_inj.1 hlast
    cases init with
    | nil =>
      obtain ⟨after, hafter⟩ := hmore
      obtain ⟨rfl, -⟩ := List.cons.inj hafter
      rw [List.append_nil] at hinit
      exact hcolon rfl hinit.symm
    | cons d init =>
      obtain ⟨after, hafter⟩ := hmore
      obtain ⟨rfl, -⟩ := List.cons.inj hafter
      have hmem : ':' ∈ name := by simp [hinit]
      exact absurd (hstart.segment.isName.2 ':' hmem) (by decide)

theorem startsWith_eq_false (hp : parsePredicate p = .ok e)
    (hname : String.ofList (p.toList.dropWhile isWhitespace) ∉
      ["cel", "cedar", "sequential", "parallel"])
    {start : String} (h : start = "plugin(" ∨ start ∈ stepKinds.map Prod.fst) (rest : List Char) :
    startsWith (p.toList.dropWhile isWhitespace ++ ':' :: rest) start = false := by
  obtain ⟨name, opening, hstart, hcolon⟩ : ∃ name opening, StepStart start.toList name opening ∧
      (opening = ':' → String.ofList name ∈ ["cel", "cedar", "sequential", "parallel"]) := by
    refine ⟨start.toList.dropLast, start.toList.getLast?.getD '(', ?_⟩
    simp only [stepKinds, List.map_cons, List.map_nil, List.mem_cons, List.not_mem_nil,
      or_false] at h
    rcases h with rfl | rfl | rfl | rfl | rfl | rfl | rfl | rfl | rfl | rfl
    all_goals exact ⟨⟨rfl, .mk (by decide) (List.forall_iff_forall_mem.1 (by decide)), by decide,
      by decide⟩, by decide⟩
  refine hstart.startsWith_eq_false hp (fun hopening heq => ?_) rest
  exact hname (heq ▸ hcolon hopening)

theorem detectStepKind_eq_none (hp : parsePredicate p = .ok e)
    (hname : String.ofList (p.toList.dropWhile isWhitespace) ∉
      ["cel", "cedar", "sequential", "parallel"]) (rest : List Char) :
    detectStepKind (p.toList.dropWhile isWhitespace ++ ':' :: rest) = none := by
  have hdrop : (p.toList.dropWhile isWhitespace ++ ':' :: rest).dropWhile isWhitespace =
      p.toList.dropWhile isWhitespace ++ ':' :: rest := by
    rw [StartsVisible.dropWhile_append ⟨':', _, rfl, by decide⟩, List.dropWhile_idempotent]
  rw [detectStepKind, hdrop, Option.map_eq_none_iff, List.find?_eq_none]
  intro kind hkind
  rw [startsWith_eq_false hp hname (.inr (List.mem_map_of_mem hkind))]
  exact Bool.false_ne_true

theorem weighs_of_parsePredicate (hp : parsePredicate p = .ok e) :
    Weighs (p.toList.dropWhile isWhitespace) 0 := by
  obtain ⟨toks, hlexes, hderives⟩ := (parsePredicate_eq_ok_iff p e).1 hp
  obtain ⟨trailing, hsplit, hblank⟩ := exists_trailing p.toList
  have hweighs := hlexes.weighs.append (weighs_blank hblank)
  rwa [hderives.balanced, add_zero, ← hsplit] at hweighs

theorem parseRule_denyCall {source : String} (hp : parsePredicate p = .ok e)
    (hname : String.ofList (p.toList.dropWhile isWhitespace) ∉
      ["cel", "cedar", "sequential", "parallel"])
    (hfield : fieldOperationInRulePosition p.toList = none) (hfirst : IsLiteral first r)
    (hsecond : IsLiteral second c) {line : String}
    (hline : line.toList = p.toList ++ ':' :: ' ' :: denyCall first second) :
    parseRule line source =
      .ok ⟨e, [.deny (some (String.ofList r)) (some (String.ofList c))], source⟩ := by
  have htrim : trimChars line.toList =
      p.toList.dropWhile isWhitespace ++ ':' :: ' ' :: denyCall first second := by
    rw [hline, trimChars_append ⟨':', _, rfl, by decide⟩]
    obtain ⟨d, t, htail, hd⟩ : StartsVisible (denyCall first second).reverse := denyCall_visible.2
    exact ⟨d, t ++ [' ', ':'], by simp [htail], hd⟩
  have haction : trimChars (' ' :: denyCall first second) = denyCall first second :=
    trimChars_space_cons denyCall_visible.1 denyCall_visible.2
  have hspace : Walks [' '] [.plain ' '] := walks_plain (List.forall_iff_forall_mem.1 (by decide))
  have hwalks : Walks (' ' :: denyCall first second) _ :=
    hspace.append (walks_denyCall hfirst hsecond)
  have hcut := splitPredicateAction_line (weighs_of_parsePredicate hp) (' ' :: denyCall first second)
  rw [lastColon_eq_none hwalks, Option.elim_none, trimChars_dropWhile, haction] at hcut
  rw [parseRule, htrim, startsWith_eq_false hp hname (.inl rfl), if_neg Bool.false_ne_true,
    detectStepKind_eq_none hp hname, hcut]
  dsimp only
  rw [parseAction_denyCall hfirst hsecond]
  have hfield' : fieldOperationInRulePosition (trimChars p.toList) = none := by
    rwa [fieldOperationInRulePosition, trimChars_trimChars]
  have hp' : parsePredicate (String.ofList (trimChars p.toList)) = .ok e := by
    rwa [parsePredicate, String.toList_ofList, trimChars_trimChars]
  simp [guardedRule, rejectFieldOperationInRulePosition, hfield', rejectRequireWithAllow,
    Effect.isAllow, hp']

/-- A rule with spellings of any two texts denies with just these texts, unless the predicate reads
as a step kind or a field operation there. No scanner looks into a literal, but the one for stages
stops at the first parenthesis, quoted or not. -/
theorem quoted_text_inert :
    (∀ (p source : String) (e : Expression) (r c first second : List Char),
      parsePredicate p = .ok e → IsLiteral first r → IsLiteral second c →
      String.ofList (p.toList.dropWhile isWhitespace) ∉ ["cel", "cedar", "sequential", "parallel"] →
      fieldOperationInRulePosition p.toList = none →
      parseRule (p ++ ": deny(" ++ String.ofList first ++ ", " ++ String.ofList second ++ ")") source =
        .ok ⟨e, [.deny (some (String.ofList r)) (some (String.ofList c))], source⟩) ∧
    (∀ value, ∃ text, IsLiteral text value) ∧
    (∀ a b, List.Forall₂ Piece.Alike (pieces a) (pieces b) → SameCuts a b) ∧
    (∀ line line' name : List Char, (name <+: trimChars line ↔ name <+: trimChars line') →
      List.Forall₂ Piece.Alike (pieces ((trimChars line).drop name.length))
        (pieces ((trimChars line').drop name.length)) →
      Option.Rel TextAlike (extractCallArgs line name) (extractCallArgs line' name)) ∧
    ∀ a b : List Char, a.takeWhile (· ≠ '(') = b.takeWhile (· ≠ '(') →
      List.Forall₂ Piece.Alike (pieces (a.dropWhile (· ≠ '('))) (pieces (b.dropWhile (· ≠ '('))) →
      Option.Rel (fun cut cut' => cut.1 = cut'.1 ∧ Option.Rel TextAlike cut.2 cut'.2)
        (splitHeadArgs a) (splitHeadArgs b) := by
  refine ⟨fun p source e r c first second hp hfirst hsecond hname hfield => ?_, exists_isLiteral,
    fun a b => sameCuts_of_alike, fun line line' name => extractCallArgs_alike,
    fun a b => splitHeadArgs_alike⟩
  refine parseRule_denyCall hp hname hfield hfirst hsecond ?_
  simp [denyCall, String.toList_append]

end RoundTrip

section Instances

local instance roundTripLibrary : Library := Library.ascii

local instance roundTripFloats : FloatText := ⟨fun value => toString (value.scaled / 2 ^ 1074)⟩

theorem quoted_text_inert_colon :
    parseRule ("delegated" ++ ": deny(" ++ String.ofList ['\x27', ':', '\x27'] ++ ", " ++
        String.ofList ['\x27', '\\', '\x27', '\x27'] ++ ")") "policy[0]" =
      .ok ⟨.condition (.isTrue "delegated"),
        [.deny (some (String.ofList [':'])) (some (String.ofList ['\x27']))], "policy[0]"⟩ := by
  have hreason : IsLiteral ['\x27', ':', '\x27'] [':'] :=
    .mk (by decide) (.character (by decide) (by decide) .nil)
  have hcode : IsLiteral ['\x27', '\\', '\x27', '\x27'] ['\x27'] :=
    .mk (by decide) (.escape (by decide) .nil)
  have hp : parsePredicate "delegated" = .ok (.condition (.isTrue "delegated")) := by
    have htrim : trimChars "delegated".toList = "delegated".toList := by decide
    have htoks : tokenize "delegated".toList = .ok [.ident "delegated"] := by decide
    rw [parsePredicate, htrim, htoks]
    rfl
  exact quoted_text_inert.1 "delegated" "policy[0]" _ _ _ _ _ hp hreason hcode (by decide) (by decide)

/-- A predicate can be the name of a step kind, and a quoted parenthesis is taken for the start of
the arguments. -/
theorem quoted_text_not_inert :
    ((parsePredicate "cel").isOk = true ∧ (parseRule "cel: deny('r', 'c')" "").isOk = false) ∧
      List.Forall₂ Piece.Alike (pieces "'('(b)".toList) (pieces "'a'(b)".toList) ∧
        splitHeadArgs "'('(b)".toList = none ∧
          splitHeadArgs "'a'(b)".toList = some ("'a'".toList, some "b".toList) := by
  have hliteral : ∀ c : Char, c ≠ '\x27' → c ≠ '\\' → IsLiteral ['\x27', c, '\x27'] [c] :=
    fun c hquote hslash => .mk (by decide) (.character hquote hslash .nil)
  refine ⟨⟨by decide, by decide⟩, ?_, by decide, by decide⟩
  have hpieces : ∀ c : Char, c ≠ '\x27' → c ≠ '\\' → pieces ['\x27', c, '\x27', '(', 'b', ')'] =
      .literal ['\x27', c, '\x27'] :: pieces ['(', 'b', ')'] :=
    fun c hquote hslash => pieces_literal (hliteral c hquote hslash)
  have hrest : pieces ['(', 'b', ')'] = [.plain '(', .plain 'b', .plain ')'] := by decide
  change List.Forall₂ _ (pieces ['\x27', '(', '\x27', '(', 'b', ')'])
    (pieces ['\x27', 'a', '\x27', '(', 'b', ')'])
  rw [hpieces '(' (by decide) (by decide), hpieces 'a' (by decide) (by decide), hrest]
  exact .cons (.literal (hliteral '(' (by decide) (by decide)) (hliteral 'a' (by decide) (by decide)))
    (.cons .plain (.cons .plain (.cons .plain .nil)))

end Instances

end PraxisPolicy
