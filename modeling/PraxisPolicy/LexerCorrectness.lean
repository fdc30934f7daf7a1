import PraxisPolicy.PathLexing

/-!
# The lexer reads the lexical grammar

What a scanner takes off a text is a piece followed by something that cannot extend it, and such a
piece is what it takes; so it is the longest one.
-/

namespace PraxisPolicy

open BinaryFloats TextScanning

@[simp] theorem textBefore_append (text rest : List Char) :
    textBefore (text ++ rest) rest = text := by
  simp [textBefore]

theorem longest_of_scan {β : Type} {Path : List Char → Prop}
    (scan : List Char → Except TextFault (β × List Char)) (Lexeme : List Char → Prop)
    (Stops : List Char → List Char → Prop)
    (htakes : ∀ {text rest}, Lexeme text → Stops text rest →
      ∃ b, scan (text ++ rest) = .ok (b, rest))
    (hend : ∀ text, Stops text []) {text rest : List Char} (htext : Lexeme text)
    (hpiece : ∀ more, Shape Path (text ++ more) → Lexeme (text ++ more))
    (hstops : ∀ more, more.head? = rest.head? → Stops text more) : Longest Path text rest := by
  intro more hmore hne hshape
  have hhead : more.head? = rest.head? := by
    obtain ⟨d, ds, rfl⟩ := List.exists_cons_of_ne_nil hne
    obtain ⟨after, rfl⟩ := hmore
    rfl
  obtain ⟨b, hshort⟩ := htakes htext (hstops more hhead)
  obtain ⟨b', hlong⟩ := htakes (hpiece more hshape) (hend _)
  rw [List.append_nil, hshort] at hlong
  cases hlong
  exact hne rfl

section Numbers

/-- What may stand after a number for the lexer to stop there. -/
def NumberStops (text rest : List Char) : Prop :=
  ∀ c, rest.head? = some c → c.isDigit = false ∧ (c = '.' → '.' ∈ text)

variable {fraction : Bool} {src sign digits text rest : List Char}

theorem IsDigits.head_ne (h : IsDigits digits) {c : Char} (hc : c.isDigit = false) :
    digits ++ rest ≠ c :: text := by
  intro heq
  obtain ⟨d, ds, rfl⟩ := List.exists_cons_of_ne_nil h.1
  obtain ⟨rfl, -⟩ := List.cons.inj heq
  rw [h.2 d List.mem_cons_self] at hc
  cases hc

theorem afterSign_sign (hsign : sign = [] ∨ sign = ['-']) (h : IsDigits digits) :
    afterSign (sign ++ (digits ++ rest)) = digits ++ rest := by
  rcases hsign with rfl | rfl
  · rw [List.nil_append, afterSign]
    exact fun _ heq => h.head_ne rfl heq
  · rfl

theorem exists_sign (src : List Char) :
    ∃ sign, (sign = [] ∨ sign = ['-']) ∧ src = sign ++ afterSign src := by
  unfold afterSign
  split
  · exact ⟨['-'], .inr rfl, rfl⟩
  · exact ⟨[], .inl rfl, rfl⟩

theorem scanNumber_of_isNumber (h : IsNumber fraction text) (hstops : NumberStops text rest) :
    scanNumber (text ++ rest) = .ok (fraction, rest) := by
  have hlength : ∀ {run more : List Char}, IsDigits run → more.length ≠ (run ++ more).length := by
    intro run more hrun
    have := List.length_pos_iff.2 hrun.1
    rw [List.length_append]
    omega
  cases h with
  | @whole sign digits hsign h =>
    have hdot : rest.head? ≠ some '.' := by
      intro hc
      rcases List.mem_append.1 ((hstops _ hc).2 rfl) with hmem | hmem
      · rcases hsign with rfl | rfl <;> simp at hmem
      · exact absurd (h.2 _ hmem) (by decide)
    have hdrop := dropWhile_append_of_stops h.2 fun c hc => (hstops c hc).1
    rw [scanNumber, List.append_assoc, afterSign_sign hsign h]
    dsimp only
    rw [hdrop, if_neg (hlength h), if_neg hdot]
  | @decimal sign digits fraction hsign h hfraction =>
    have hstop : ∀ c, ('.' :: (fraction ++ rest)).head? = some c → c.isDigit = false := by
      rintro c ⟨⟩
      decide
    have hdrop := dropWhile_append_of_stops h.2 hstop
    have hdrop' := dropWhile_append_of_stops hfraction.2 fun c hc => (hstops c hc).1
    rw [scanNumber, List.append_assoc, List.append_assoc, List.cons_append,
      afterSign_sign hsign h]
    dsimp only
    rw [hdrop, if_neg (hlength h), if_pos List.head?_cons, List.tail_cons, hdrop',
      if_neg (hlength hfraction)]

theorem isDigits_takeWhile (h : (src.dropWhile Char.isDigit).length ≠ src.length) :
    IsDigits (src.takeWhile Char.isDigit) := by
  refine ⟨fun hnil => h ?_, fun d hd => List.mem_takeWhile_imp hd⟩
  have := List.takeWhile_append_dropWhile (p := Char.isDigit) (l := src)
  rw [hnil, List.nil_append] at this
  exact congrArg List.length this

theorem isNumber_of_scanNumber (h : scanNumber src = .ok (fraction, rest)) :
    ∃ text, src = text ++ rest ∧ IsNumber fraction text ∧ NumberStops text rest := by
  obtain ⟨sign, hsign, hsrc⟩ := exists_sign src
  dsimp only [scanNumber] at h
  generalize afterSign src = cs at h hsrc
  have hcs := List.takeWhile_append_dropWhile (p := Char.isDigit) (l := cs)
  split_ifs at h with hlength hdot hlength'
  · cases h
    have htail := List.takeWhile_append_dropWhile (p := Char.isDigit)
      (l := (cs.dropWhile Char.isDigit).tail)
    refine ⟨_, ?_, .decimal hsign (isDigits_takeWhile hlength) (isDigits_takeWhile hlength'), ?_⟩
    · rw [hsrc, List.append_assoc, List.append_assoc, List.cons_append, htail,
        List.cons_head?_tail hdot, hcs]
    · exact fun c hc => ⟨stops_dropWhile c hc, fun _ => by simp⟩
  · cases h
    refine ⟨_, ?_, .whole hsign (isDigits_takeWhile hlength), ?_⟩
    · rw [hsrc, List.append_assoc, hcs]
    · refine fun c hc => ⟨stops_dropWhile c hc, ?_⟩
      rintro rfl
      exact absurd hc hdot

theorem IsDigits.concat (h : IsDigits digits) {c : Char} (hc : c.isDigit = true) :
    IsDigits (digits ++ [c]) := by
  refine ⟨by simp, fun d hd => ?_⟩
  rcases List.mem_append.1 hd with hd | hd
  · exact h.2 d hd
  · rwa [List.mem_singleton.1 hd]

theorem IsNumber.concat (h : IsNumber fraction text) {c : Char} (hc : c.isDigit = true) :
    IsNumber fraction (text ++ [c]) := by
  cases h with
  | whole hsign h =>
    rw [List.append_assoc]
    exact .whole hsign (h.concat hc)
  | decimal hsign h hfraction =>
    rw [List.append_assoc, List.cons_append]
    exact .decimal hsign h (hfraction.concat hc)

theorem parseDigits_of_isDigits (h : IsDigits digits) :
    parseDigits digits = some (Nat.ofDigitChars 10 digits 0) :=
  if_pos ⟨h.1, List.all_eq_true.2 h.2⟩

theorem parseI64_of_isNumber (h : IsNumber false text) :
    parseI64 (String.ofList text) =
      if -2 ^ 63 ≤ integerValue text ∧ integerValue text < 2 ^ 63 then some (integerValue text)
      else none := by
  obtain ⟨hsign, h⟩ := h
  rename_i sign digits
  rcases hsign with rfl | rfl
  · have hhead : ∀ {c : Char}, c.isDigit = false → ∀ rest, digits ≠ c :: rest := by
      intro c hc rest heq
      exact h.head_ne hc ((List.append_nil digits).trans heq)
    have hvalue : integerValue digits = (Nat.ofDigitChars 10 digits 0 : ℤ) := by
      rw [integerValue]
      exact hhead (by decide)
    rw [List.nil_append, hvalue, parseI64, String.toList_ofList]
    split
    · exact absurd rfl (hhead (by decide) _)
    · exact absurd rfl (hhead (by decide) _)
    · rw [parseDigits_of_isDigits h, Option.filter_some]
      generalize Nat.ofDigitChars 10 digits 0 = n
      by_cases hn : n < 2 ^ 63
      · rw [if_pos (decide_eq_true hn), if_pos ⟨by omega, by omega⟩]
        rfl
      · rw [if_neg (by simpa using hn), if_neg (by omega)]
        rfl
  · have hvalue : integerValue (['-'] ++ digits) = -(Nat.ofDigitChars 10 digits 0 : ℤ) := rfl
    rw [hvalue, parseI64, String.toList_ofList, List.singleton_append]
    split
    · rename_i rest heq
      cases heq
      rw [parseDigits_of_isDigits h, Option.filter_some]
      generalize Nat.ofDigitChars 10 digits 0 = n
      by_cases hn : n ≤ 2 ^ 63
      · rw [if_pos (decide_eq_true hn), if_pos ⟨by omega, by omega⟩]
        rfl
      · rw [if_neg (by simpa using hn), if_neg (by omega)]
        rfl
    · rename_i heq
      exact absurd (List.cons.inj heq).1 (by decide)
    · rename_i hminus _
      exact absurd rfl (hminus digits)

end Numbers

section Leads

inductive Lead where
  | symbol | quote | number | name | other
  deriving DecidableEq

def isSymbolStart (c : Char) : Bool := ['(', ')', ',', '&', '|', '=', '!', '>', '<'].contains c

def lead (c : Char) : Lead :=
  if isSymbolStart c then .symbol
  else if isQuote c then .quote
  else if c = '-' ∨ c.isDigit = true then .number
  else if isIdentStart c then .name
  else .other

variable {c : Char} {cs text : List Char}

theorem isSymbolStart_cases (h : isSymbolStart c = true) :
    c = '(' ∨ c = ')' ∨ c = ',' ∨ c = '&' ∨ c = '|' ∨ c = '=' ∨ c = '!' ∨ c = '>' ∨ c = '<' := by
  simpa [isSymbolStart] using h

theorem isDigit_eq_false_of_isIdentStart (h : isIdentStart c = true) : c.isDigit = false := by
  by_contra hdigit
  have hletter : isIdentStart c = ((decide (c.val ≥ 'A'.val ∧ c.val ≤ 'Z'.val) ||
      (decide (c.val ≥ 'a'.val) && decide (c.val ≤ 'z'.val))) || c == '_') := rfl
  simp only [hletter, Char.isDigit, Bool.or_eq_true, Bool.and_eq_true, decide_eq_true_eq,
    beq_iff_eq, Bool.not_eq_false] at h hdigit
  rcases h with (h | h) | rfl
  · have := UInt32.le_trans h.1 hdigit.2
    revert this
    decide
  · have := UInt32.le_trans h.1 hdigit.2
    revert this
    decide
  · revert hdigit
    decide

theorem not_special (h : c = '-' ∨ isSegmentChar c = true) :
    isSymbolStart c = false ∧ isQuote c = false := by
  constructor
  · by_contra hc
    rcases isSymbolStart_cases (by simpa using hc) with
      rfl | rfl | rfl | rfl | rfl | rfl | rfl | rfl | rfl <;> revert h <;> decide
  · by_contra hc
    simp only [isQuote, Bool.or_eq_true, beq_iff_eq, Bool.not_eq_false] at hc
    rcases hc with rfl | rfl <;> revert h <;> decide

theorem lead_of_isQuote (h : isQuote c = true) : lead c = .quote := by
  simp only [isQuote, Bool.or_eq_true, beq_iff_eq] at h
  rcases h with rfl | rfl <;> decide

theorem lead_of_number (h : c = '-' ∨ c.isDigit = true) : lead c = .number := by
  have hchar : c = '-' ∨ isSegmentChar c = true := h.imp_right fun hc => by
    simp [isSegmentChar, Char.isAlphanum, hc]
  obtain ⟨hsymbol, hquote⟩ := not_special hchar
  simp [lead, hsymbol, hquote, h]

theorem lead_of_isIdentStart (h : isIdentStart c = true) : lead c = .name := by
  obtain ⟨hsymbol, hquote⟩ := not_special (.inr (isSegmentChar_of_isIdentStart h))
  have hminus : c ≠ '-' := by
    rintro rfl
    revert h
    decide
  simp [lead, hsymbol, hquote, hminus, isDigit_eq_false_of_isIdentStart h, h]

theorem isAsciiWhitespace_of_lead (h : lead c ≠ .other) :
    isAsciiWhitespace c = false := by
  by_contra hc
  simp only [isAsciiWhitespace, Bool.or_eq_true, beq_iff_eq, Bool.not_eq_false] at hc
  rcases hc with (((rfl | rfl) | rfl) | rfl) | rfl <;> exact h (by decide)

theorem exists_of_mem_symbols {tok : Tok} (h : (text, tok) ∈ symbols) :
    ∃ c cs, text = c :: cs ∧ lead c = .symbol := by
  have hall : ∀ p ∈ symbols, ∃ c, p.1.head? = some c ∧ lead c = .symbol := by
    simp [symbols, lead, isSymbolStart]
  obtain ⟨c, hhead, hc⟩ := hall _ h
  exact ⟨c, text.tail, (List.cons_head?_tail hhead).symm, hc⟩

theorem IsLiteral.exists_lead {value : List Char} (h : IsLiteral text value) :
    ∃ c cs, text = c :: cs ∧ lead c = .quote := by
  obtain ⟨hquote, -⟩ := h
  exact ⟨_, _, rfl, lead_of_isQuote hquote⟩

theorem IsDigits.exists_lead (h : IsDigits text) : ∃ c cs, text = c :: cs ∧ lead c = .number := by
  obtain ⟨c, cs, rfl⟩ := List.exists_cons_of_ne_nil h.1
  exact ⟨c, cs, rfl, lead_of_number (.inr (h.2 c List.mem_cons_self))⟩

theorem IsNumber.exists_lead {fraction : Bool} (h : IsNumber fraction text) :
    ∃ c cs, text = c :: cs ∧ lead c = .number := by
  cases h with
  | whole hsign h | decimal hsign h =>
    rcases hsign with rfl | rfl
    · obtain ⟨c, cs, rfl, hc⟩ := h.exists_lead
      exact ⟨c, _, rfl, hc⟩
    · exact ⟨_, _, rfl, lead_of_number (.inl rfl)⟩

theorem AcceptedPath.exists_lead (h : AcceptedPath text) :
    ∃ c cs, text = c :: cs ∧ isIdentStart c = true := by
  cases h with
  | last hpiece | more hpiece =>
    obtain ⟨⟨hc, -⟩⟩ := hpiece
    exact ⟨_, _, rfl, hc⟩

def Lead.Production (text : List Char) : Lead → Prop
  | .symbol => ∃ tok, (text, tok) ∈ symbols
  | .quote => ∃ value, IsLiteral text value
  | .number => ∃ fraction, IsNumber fraction text
  | .name => AcceptedPath text
  | .other => False

theorem Shape.exists_lead (h : Shape AcceptedPath text) :
    ∃ c cs, text = c :: cs ∧ (lead c).Production text := by
  cases h with
  | @symbol _ tok h =>
    obtain ⟨c, cs, rfl, hlead⟩ := exists_of_mem_symbols h
    refine ⟨c, cs, rfl, ?_⟩
    rw [hlead]
    exact ⟨tok, h⟩
  | @literal _ value h =>
    obtain ⟨c, cs, rfl, hlead⟩ := h.exists_lead
    refine ⟨c, cs, rfl, ?_⟩
    rw [hlead]
    exact ⟨value, h⟩
  | @number fraction _ h =>
    obtain ⟨c, cs, rfl, hlead⟩ := h.exists_lead
    refine ⟨c, cs, rfl, ?_⟩
    rw [hlead]
    exact ⟨fraction, h⟩
  | path h =>
    obtain ⟨c, cs, rfl, hstart⟩ := h.exists_lead
    refine ⟨c, cs, rfl, ?_⟩
    rw [lead_of_isIdentStart hstart]
    exact h

theorem Shape.production {l : Lead} (h : Shape AcceptedPath (c :: cs)) (hlead : lead c = l) :
    l.Production (c :: cs) := by
  obtain ⟨_, _, heq, hproduction⟩ := h.exists_lead
  cases heq
  rwa [← hlead]

end Leads

section Symbols

def SymbolStops (text rest : List Char) : Prop :=
  text = ['!'] ∨ text = ['>'] ∨ text = ['<'] → rest.head? ≠ some '='

variable {tok : Tok} {c : Char} {text src rest : List Char}

theorem lexSymbol_eq_none (h : isSymbolStart c = false) : lexSymbol c rest = none := by
  unfold lexSymbol
  split
  all_goals first
    | rfl
    | exact absurd h (by decide)

theorem separated_of_mem_symbols (h : (text, tok) ∈ symbols)
    (hand : text = ['&'] → rest.head? ≠ some '&') (hor : text = ['|'] → rest.head? ≠ some '|') :
    Separated text rest := by
  refine ⟨hand, hor, fun fraction hnumber => ?_⟩
  obtain ⟨c, cs, rfl, hsymbol⟩ := exists_of_mem_symbols h
  obtain ⟨_, _, heq, hlead⟩ := hnumber.exists_lead
  cases heq
  rw [hsymbol] at hlead
  cases hlead

theorem mem_symbols_of_lexSymbol (h : lexSymbol c src = some (.ok (tok, rest))) :
    ∃ text, (text, tok) ∈ symbols ∧ c :: src = text ++ rest ∧ SymbolStops text rest ∧
      Separated text rest := by
  suffices ∃ text, (text, tok) ∈ symbols ∧ c :: src = text ++ rest ∧ SymbolStops text rest ∧
      (text = ['&'] → rest.head? ≠ some '&') ∧ (text = ['|'] → rest.head? ≠ some '|') by
    obtain ⟨text, hmem, hsrc, hstops, hand, hor⟩ := this
    exact ⟨text, hmem, hsrc, hstops, separated_of_mem_symbols hmem hand hor⟩
  -- The signs that take two characters, and what the second one leaves.
  have htail : ∀ {d : Char}, src.head? = some d → c :: src = [c, d] ++ src.tail := by
    intro d hd
    rw [List.cons_append, List.singleton_append, List.cons_head?_tail hd]
  unfold lexSymbol at h
  split at h
  case h_10 => cases h
  all_goals replace h := Option.some.inj h
  case h_1 =>
    cases h
    exact ⟨['('], by decide, rfl, by simp [SymbolStops]⟩
  case h_2 =>
    cases h
    exact ⟨[')'], by decide, rfl, by simp [SymbolStops]⟩
  case h_3 =>
    cases h
    exact ⟨[','], by decide, rfl, by simp [SymbolStops]⟩
  all_goals split_ifs at h with hd
  all_goals cases h
  · exact ⟨['&'], by decide, rfl, by simp [SymbolStops], fun _ => hd, by simp⟩
  · exact ⟨['|'], by decide, rfl, by simp [SymbolStops], by simp, fun _ => hd⟩
  · exact ⟨['=', '='], by decide, htail hd, by simp [SymbolStops]⟩
  · exact ⟨['!', '='], by decide, htail hd, by simp [SymbolStops]⟩
  · exact ⟨['!'], by decide, rfl, fun _ => hd, by simp⟩
  · exact ⟨['>', '='], by decide, htail hd, by simp [SymbolStops]⟩
  · exact ⟨['>'], by decide, rfl, fun _ => hd, by simp⟩
  · exact ⟨['<', '='], by decide, htail hd, by simp [SymbolStops]⟩
  · exact ⟨['<'], by decide, rfl, fun _ => hd, by simp⟩

end Symbols

section Longest

variable {tok : Tok} {fraction : Bool} {text rest value : List Char}

theorem longest_of_mem_symbols (h : (text, tok) ∈ symbols) (hstops : SymbolStops text rest) :
    Longest AcceptedPath text rest := by
  rintro more ⟨after, rfl⟩ hne hshape
  obtain ⟨d, cs, rfl, hd⟩ := exists_of_mem_symbols h
  obtain ⟨tok', h'⟩ : ∃ tok', (d :: cs ++ more, tok') ∈ symbols := hshape.production hd
  have hall : ∀ p ∈ symbols, ∀ q ∈ symbols, p.1 <+: q.1 → q.1.length = p.1.length ∨
      (p.1 = ['!'] ∨ p.1 = ['>'] ∨ p.1 = ['<']) ∧ (q.1.drop p.1.length).head? = some '=' := by
    decide
  rcases hall _ h _ h' ⟨more, rfl⟩ with hlength | ⟨htext, hhead⟩
  · have := List.length_pos_iff.2 hne
    simp only [List.length_append] at hlength
    omega
  · rw [List.drop_left] at hhead
    exact hstops htext (by rw [List.head?_append_of_ne_nil _ hne, hhead])

theorem longest_of_isLiteral (h : IsLiteral text value) : Longest AcceptedPath text rest := by
  refine longest_of_scan readLiteral (fun t => ∃ v, IsLiteral t v) (fun _ _ => True) ?_
    (fun _ => trivial) ⟨value, h⟩ ?_ (fun _ _ => trivial)
  · rintro text rest ⟨v, hv⟩ -
    exact ⟨v, readLiteral_eq_ok_iff.2 ⟨text, rfl, hv⟩⟩
  · intro more hshape
    obtain ⟨d, cs, rfl, hd⟩ := h.exists_lead
    exact hshape.production hd

theorem longest_of_isNumber (h : IsNumber fraction text) (hstops : NumberStops text rest) :
    Longest AcceptedPath text rest := by
  refine longest_of_scan scanNumber (fun t => ∃ f, IsNumber f t) NumberStops ?_ (fun _ => nofun)
    ⟨fraction, h⟩ ?_ (fun more hhead c hc => hstops c (hhead ▸ hc))
  · rintro text rest ⟨f, hf⟩ hstops
    exact ⟨f, scanNumber_of_isNumber hf hstops⟩
  · intro more hshape
    obtain ⟨d, cs, rfl, hd⟩ := h.exists_lead
    exact hshape.production hd

theorem longest_of_acceptedPath (h : AcceptedPath text) (hstops : PathStops text rest) :
    Longest AcceptedPath text rest := by
  refine longest_of_scan (fun src => lexSegments src.length true src) AcceptedPath PathStops ?_
    (fun _ => nofun) h ?_ (fun more hhead c hc => hstops c (hhead ▸ hc))
  · intro text rest hpath hstops
    exact ⟨_, lexSegments_of_pathFrom hpath hstops (by simp)⟩
  · intro more hshape
    obtain ⟨d, cs, rfl, hstart⟩ := h.exists_lead
    exact hshape.production (lead_of_isIdentStart hstart)

theorem pathStops_of_longest (h : AcceptedPath text) (hlongest : Longest AcceptedPath text rest)
    (hdot : rest.head? ≠ some '.') (hopen : rest.head? ≠ some '[') : PathStops text rest := by
  refine fun d hd => ⟨fun heq => hdot (heq ▸ hd), ?_⟩
  by_cases hlast : text.getLast? = some ']'
  · exact .inl hlast
  · refine .inr ⟨?_, fun heq => hopen (heq ▸ hd)⟩
    by_contra hsegment
    have hmore : [d] <+: rest := ⟨rest.tail, List.cons_head?_tail hd⟩
    exact hlongest _ hmore (by simp) (.path (PathFrom.concat h hlast (by simpa using hsegment)))

theorem separated_of_lead {c : Char} {cs : List Char} (hsymbol : lead c ≠ .symbol)
    (hnumber : lead c ≠ .number) : Separated (c :: cs) rest := by
  refine ⟨fun h => ?_, fun h => ?_, fun fraction h => ?_⟩
  · obtain ⟨rfl, -⟩ := List.cons.inj h
    exact absurd (by decide) hsymbol
  · obtain ⟨rfl, -⟩ := List.cons.inj h
    exact absurd (by decide) hsymbol
  · obtain ⟨_, _, heq, hlead⟩ := h.exists_lead
    cases heq
    exact absurd hlead hnumber

theorem separated_of_isNumber (h : IsNumber fraction text)
    (hexponent : ¬ (rest.head? = some 'e' ∨ rest.head? = some 'E')) : Separated text rest := by
  obtain ⟨c, cs, rfl, hlead⟩ := h.exists_lead
  refine ⟨fun heq => ?_, fun heq => ?_, fun _ _ => not_or.1 hexponent⟩
  · obtain ⟨rfl, -⟩ := List.cons.inj heq
    exact absurd hlead (by decide)
  · obtain ⟨rfl, -⟩ := List.cons.inj heq
    exact absurd hlead (by decide)

end Longest

section Words

variable {tok : Tok} {text rest : List Char}

theorem reservedWords_spec {word : String} (h : (word, tok) ∈ reservedWords) :
    AcceptedPath word.toList ∧ '[' ∉ word.toList ∧ "not.".toList.isPrefixOf word.toList = false ∧
      reservedWords.lookup word = some tok := by
  have hword : ∀ {c : Char} {cs : List Char}, isIdentStart c = true →
      (∀ d ∈ cs, isSegmentChar d = true) → AcceptedPath (c :: cs) := by
    intro c cs hc hcs
    have := PathFrom.last (.first (.mk hc hcs)) .none
    rwa [List.append_nil] at this
  simp only [reservedWords, List.mem_cons, Prod.mk.injEq, List.not_mem_nil, or_false] at h
  rcases h with ⟨rfl, rfl⟩ | ⟨rfl, rfl⟩ | ⟨rfl, rfl⟩ | ⟨rfl, rfl⟩ | ⟨rfl, rfl⟩ | ⟨rfl, rfl⟩ | ⟨rfl, rfl⟩
  all_goals
    exact ⟨hword (by decide) (List.forall_iff_forall_mem.1 (by decide)), by decide, by decide,
      by decide⟩

theorem lexIdentOrKeyword_of_path (h : AcceptedPath text) (hstops : PathStops text rest)
    (hword : ∀ tok, (String.ofList text, tok) ∉ reservedWords) (hnot : ¬ "not.".toList <+: text) :
    lexIdentOrKeyword (text ++ rest) = .ok (.ident (String.ofList text), rest) := by
  have hlookup : reservedWords.lookup (String.ofList text) = none := by
    rw [List.lookup_eq_none_iff]
    rintro ⟨word, tok⟩ hmem
    simp only [bne_iff_ne]
    rintro rfl
    exact hword tok hmem
  rw [lexIdentOrKeyword, lexSegments_of_pathFrom h hstops (by simp)]
  dsimp only
  rw [textBefore_append, if_neg (by simpa [List.isPrefixOf_iff_prefix] using hnot), hlookup]
  split_ifs <;> rfl

theorem lexIdentOrKeyword_of_reserved {word : String} (h : (word, tok) ∈ reservedWords)
    (hstops : PathStops word.toList rest) :
    lexIdentOrKeyword (word.toList ++ rest) = .ok (tok, rest) := by
  obtain ⟨hpath, hopen, hnot, hlookup⟩ := reservedWords_spec h
  rw [lexIdentOrKeyword, lexSegments_of_pathFrom hpath hstops (by simp)]
  dsimp only
  rw [textBefore_append, hnot, if_neg (by simp), if_neg (by simpa using hopen), String.ofList_toList,
    hlookup]
  rfl

end Words

section Tokens

variable [Library] {tok : Tok} {c : Char} {text src rest : List Char}

theorem isToken_of_lexString (h : lexString src = .ok (tok, rest)) :
    ∃ text, src = text ++ rest ∧ IsToken AcceptedPath text tok rest := by
  rw [lexString] at h
  split at h
  · rename_i value after hread
    cases h
    obtain ⟨text, hsrc, hliteral⟩ := readLiteral_eq_ok_iff.1 hread
    refine ⟨text, hsrc, .literal hliteral, longest_of_isLiteral hliteral, .literal hliteral, ?_⟩
    obtain ⟨_, _, rfl, hlead⟩ := hliteral.exists_lead
    exact separated_of_lead (by simp [hlead]) (by simp [hlead])
  · cases h

theorem isToken_of_lexNumber (h : lexNumber src = .ok (tok, rest)) :
    ∃ text, src = text ++ rest ∧ IsToken AcceptedPath text tok rest := by
  rw [lexNumber] at h
  split at h
  · cases h
  rename_i fraction after hscan
  obtain ⟨text, rfl, hnumber, hstops⟩ := isNumber_of_scanNumber hscan
  split_ifs at h with hexponent
  split at h
  · rename_i tok' htok
    cases h
    refine ⟨text, rfl, .number hnumber, longest_of_isNumber hnumber hstops, ?_,
      separated_of_isNumber hnumber hexponent⟩
    rw [textBefore_append, numberToken] at htok
    cases fraction with
    | false =>
      rw [if_neg (by simp), parseI64_of_isNumber hnumber] at htok
      by_cases hfits : -2 ^ 63 ≤ integerValue text ∧ integerValue text < 2 ^ 63
      · rw [if_pos hfits] at htok
        cases htok
        exact .integer hnumber hfits.1 hfits.2
      · rw [if_neg hfits] at htok
        cases htok
    | true =>
      rw [if_pos rfl] at htok
      split at htok
      · rename_i value hvalue
        cases htok
        exact .decimal hnumber hvalue
      · cases htok
  · cases h

theorem isToken_of_lexIdentOrKeyword (hstart : isIdentStart c = true)
    (h : lexIdentOrKeyword (c :: src) = .ok (tok, rest)) :
    ∃ text, c :: src = text ++ rest ∧ IsToken AcceptedPath text tok rest := by
  rw [lexIdentOrKeyword] at h
  split at h
  · cases h
  rename_i bracket after hsegments
  obtain ⟨text, hsrc, hpath, hstops⟩ := pathFrom_of_lexSegments hsegments (by simp [hstart])
  -- The flag of the scanner says whether there is a bracket.
  have hbracket : text.contains '[' = bracket := by
    rw [hsrc, lexSegments_of_pathFrom hpath hstops (by simp)] at hsegments
    cases hsegments
    rfl
  rw [hsrc, textBefore_append] at h
  dsimp only at h
  split_ifs at h with hnot hflag
  all_goals
    cases h
    rw [List.isPrefixOf_iff_prefix] at hnot
    refine ⟨text, hsrc, .path hpath, longest_of_acceptedPath hpath hstops, ?_, ?_⟩
  · refine .path hpath (fun tok hmem => ?_) hnot
    obtain ⟨-, hopen, -⟩ := reservedWords_spec hmem
    rw [String.toList_ofList] at hopen
    simp [hopen, hflag] at hbracket
  · obtain ⟨_, _, rfl, hc⟩ := AcceptedPath.exists_lead hpath
    exact separated_of_lead (by simp [lead_of_isIdentStart hc]) (by simp [lead_of_isIdentStart hc])
  · cases hlookup : reservedWords.lookup (String.ofList text) with
    | none =>
      refine .path hpath (fun tok hmem => ?_) hnot
      rw [(reservedWords_spec hmem).2.2.2] at hlookup
      cases hlookup
    | some tok =>
      have hmem : (String.ofList text, tok) ∈ reservedWords := by
        obtain ⟨l₁, l₂, hwords, -⟩ := List.lookup_eq_some_iff.1 hlookup
        rw [hwords]
        simp
      have hdenotes : Denotes AcceptedPath _ tok := .reserved hmem
      rwa [String.toList_ofList] at hdenotes
  · obtain ⟨_, _, rfl, hc⟩ := AcceptedPath.exists_lead hpath
    exact separated_of_lead (by simp [lead_of_isIdentStart hc]) (by simp [lead_of_isIdentStart hc])

theorem isToken_of_lexToken (h : lexToken c src = .ok (tok, rest)) :
    ∃ text, c :: src = text ++ rest ∧ IsToken AcceptedPath text tok rest := by
  rw [lexToken] at h
  split at h
  · rename_i lexed hsymbol
    subst h
    obtain ⟨text, hmem, hsrc, hstops, hseparated⟩ := mem_symbols_of_lexSymbol hsymbol
    exact ⟨text, hsrc, .symbol hmem, longest_of_mem_symbols hmem hstops, .symbol hmem, hseparated⟩
  · split_ifs at h with hquote hnumber hdot hstart
    · exact isToken_of_lexString h
    · exact isToken_of_lexNumber h
    · exact isToken_of_lexIdentOrKeyword hstart h

theorem lexToken_of_lead (hsymbol : lead c ≠ .symbol) (hother : lead c ≠ .other) :
    lexToken c src =
      if lead c = .quote then lexString (c :: src)
      else if lead c = .number then lexNumber (c :: src)
      else lexIdentOrKeyword (c :: src) := by
  by_cases hstart : isSymbolStart c = true
  · exact absurd (by simp [lead, hstart]) hsymbol
  rw [lexToken, lexSymbol_eq_none (by simpa using hstart)]
  dsimp only
  by_cases hquote : isQuote c = true
  · rw [if_pos hquote, if_pos (lead_of_isQuote hquote)]
  by_cases hnumber : c = '-' ∨ c.isDigit = true
  · have hlead := lead_of_number hnumber
    rw [if_neg hquote, if_pos hnumber, if_neg (by simp [hlead]), if_pos hlead]
  by_cases hname : isIdentStart c = true
  · have hlead := lead_of_isIdentStart hname
    have hdot : c ≠ '.' := by
      rintro rfl
      revert hname
      decide
    rw [if_neg hquote, if_neg hnumber, if_neg hdot, if_pos hname, if_neg (by simp [hlead]),
      if_neg (by simp [hlead])]
  · exact absurd (by simp [lead, hstart, hquote, hnumber, hname]) hother

theorem lexToken_of_symbol (hsrc : text ++ rest = c :: src) (h : (text, tok) ∈ symbols)
    (htoken : IsToken AcceptedPath text tok rest) : lexToken c src = .ok (tok, rest) := by
  have hstops : SymbolStops text rest := by
    intro htext hhead
    have hmore : ['='] <+: rest := ⟨rest.tail, List.cons_head?_tail hhead⟩
    have hshape : Shape AcceptedPath (text ++ ['=']) := by
      rcases htext with rfl | rfl | rfl
      · exact .symbol (by decide : (['!', '='], Tok.notEq) ∈ symbols)
      · exact .symbol (by decide : (['>', '='], Tok.gtEq) ∈ symbols)
      · exact .symbol (by decide : (['<', '='], Tok.ltEq) ∈ symbols)
    exact htoken.longest _ hmore (by simp) hshape
  have hlex : lexSymbol c src = some (.ok (tok, rest)) := by
    simp only [symbols, List.mem_cons, Prod.mk.injEq, List.not_mem_nil, or_false] at h
    obtain ⟨hand, hor, -⟩ := htoken.separated
    clear htoken
    rcases h with ⟨rfl, rfl⟩ | ⟨rfl, rfl⟩ | ⟨rfl, rfl⟩ | ⟨rfl, rfl⟩ | ⟨rfl, rfl⟩ | ⟨rfl, rfl⟩ |
      ⟨rfl, rfl⟩ | ⟨rfl, rfl⟩ | ⟨rfl, rfl⟩ | ⟨rfl, rfl⟩ | ⟨rfl, rfl⟩ | ⟨rfl, rfl⟩
    all_goals
      obtain ⟨rfl, rfl⟩ := List.cons.inj hsrc
      simp_all [lexSymbol, SymbolStops]
  rw [lexToken, hlex]

theorem lexToken_of_literal {value : List Char} (hsrc : text ++ rest = c :: src)
    (h : IsLiteral text value) :
    lexToken c src = .ok (.stringLit (String.ofList value), rest) := by
  have hread : readLiteral (c :: src) = .ok (value, rest) :=
    readLiteral_eq_ok_iff.2 ⟨text, hsrc.symm, h⟩
  obtain ⟨d, cs, rfl, hlead⟩ := h.exists_lead
  obtain ⟨rfl, -⟩ := List.cons.inj hsrc
  rw [lexToken_of_lead (by simp [hlead]) (by simp [hlead]), if_pos hlead, lexString, hread]

theorem lexToken_of_number {fraction : Bool} (hsrc : text ++ rest = c :: src)
    (h : IsNumber fraction text) (htoken : IsToken AcceptedPath text tok rest)
    (hdot : rest.head? ≠ some '.') (htok : numberToken fraction text rest = .ok tok) :
    lexToken c src = .ok (tok, rest) := by
  have hstops : NumberStops text rest := by
    refine fun d hd => ⟨?_, ?_⟩
    · by_contra hdigit
      have hmore : [d] <+: rest := ⟨rest.tail, List.cons_head?_tail hd⟩
      exact htoken.longest _ hmore (by simp) (.number (h.concat (by simpa using hdigit)))
    · rintro rfl
      exact absurd hd hdot
  have hlex : lexNumber (c :: src) = .ok (tok, rest) := by
    rw [← hsrc, lexNumber, scanNumber_of_isNumber h hstops]
    dsimp only
    rw [if_neg (not_or.2 (htoken.separated.2.2 _ h)), textBefore_append, htok]
  obtain ⟨d, cs, rfl, hlead⟩ := h.exists_lead
  obtain ⟨rfl, -⟩ := List.cons.inj hsrc
  rw [lexToken_of_lead (by simp [hlead]) (by simp [hlead]), if_neg (by simp [hlead]),
    if_pos hlead, hlex]

theorem lexToken_of_name (hsrc : text ++ rest = c :: src) (h : AcceptedPath text)
    (hlex : lexIdentOrKeyword (text ++ rest) = .ok (tok, rest)) :
    lexToken c src = .ok (tok, rest) := by
  rw [hsrc] at hlex
  obtain ⟨d, cs, rfl, hstart⟩ := h.exists_lead
  obtain ⟨rfl, -⟩ := List.cons.inj hsrc
  have hlead := lead_of_isIdentStart hstart
  rw [lexToken_of_lead (by simp [hlead]) (by simp [hlead]), if_neg (by simp [hlead]),
    if_neg (by simp [hlead]), hlex]

theorem lexToken_of_isToken (htoken : IsToken AcceptedPath text tok rest)
    (hdot : rest.head? ≠ some '.') (hopen : rest.head? ≠ some '[')
    (hsrc : text ++ rest = c :: src) : lexToken c src = .ok (tok, rest) := by
  cases htoken.denotes with
  | symbol h => exact lexToken_of_symbol hsrc h htoken
  | literal h => exact lexToken_of_literal hsrc h
  | integer h hlow hhigh =>
    refine lexToken_of_number hsrc h htoken hdot ?_
    rw [numberToken, if_neg (by simp), parseI64_of_isNumber h, if_pos ⟨hlow, hhigh⟩]
  | decimal h hvalue =>
    refine lexToken_of_number hsrc h htoken hdot ?_
    rw [numberToken, if_pos rfl, hvalue]
  | reserved h =>
    have hpath := (reservedWords_spec h).1
    have hstops := pathStops_of_longest hpath htoken.longest hdot hopen
    exact lexToken_of_name hsrc hpath (lexIdentOrKeyword_of_reserved h hstops)
  | path h hword hnot =>
    have hstops := pathStops_of_longest h htoken.longest hdot hopen
    exact lexToken_of_name hsrc h (lexIdentOrKeyword_of_path h hstops hword hnot)

end Tokens

section Texts

variable [Library] {src : List Char} {toks : List Tok}

theorem lexes_of_dropWhile (h : Lexes AcceptedPath (src.dropWhile isAsciiWhitespace) toks) :
    Lexes AcceptedPath src toks := by
  induction src with
  | nil => exact h
  | cons c src ih =>
    by_cases hc : isAsciiWhitespace c = true
    · rw [List.dropWhile_cons_of_pos hc] at h
      exact .blank hc (ih h)
    · rwa [List.dropWhile_cons_of_neg hc] at h

theorem lexes_of_tokenizeAll {n : ℕ} (h : tokenizeAll n src = .ok toks) :
    Lexes AcceptedPath src toks := by
  induction n generalizing src toks with
  | zero => cases h
  | succ n ih =>
    refine lexes_of_dropWhile ?_
    rw [tokenizeAll] at h
    split at h
    · rename_i hnil
      cases h
      rw [hnil]
      exact .nil
    · rename_i c rest hcons
      split at h
      · cases h
      rename_i tok after htoken
      split at h
      · rename_i more hmore
        cases h
        obtain ⟨text, hsrc, htoken⟩ := isToken_of_lexToken htoken
        rw [hcons, hsrc]
        exact .token htoken (ih hmore)
      · cases h

theorem Lexes.head_ne (h : Lexes AcceptedPath src toks) {c : Char}
    (hblank : isAsciiWhitespace c = false) (hlead : lead c = .other) : src.head? ≠ some c := by
  cases h with
  | nil => simp
  | blank hc _ =>
    rintro ⟨⟩
    rw [hc] at hblank
    cases hblank
  | token htoken _ =>
    obtain ⟨d, cs, rfl, hproduction⟩ := htoken.shape.exists_lead
    rintro ⟨⟩
    rw [hlead] at hproduction
    exact hproduction

theorem tokenizeAll_of_lexes (h : Lexes AcceptedPath src toks) {n : ℕ} (hn : src.length < n) :
    tokenizeAll n src = .ok toks := by
  induction h generalizing n with
  | nil =>
    obtain ⟨n, rfl⟩ : ∃ m, n = m + 1 := ⟨n - 1, by omega⟩
    rfl
  | @blank c cs toks hc _ ih =>
    obtain ⟨n, rfl⟩ : ∃ m, n = m + 1 := ⟨n - 1, by omega⟩
    have hcs : cs.length < n + 1 := by
      rw [List.length_cons] at hn
      omega
    have h := ih hcs
    rw [tokenizeAll] at h ⊢
    rwa [List.dropWhile_cons_of_pos hc]
  | @token text rest tok toks htoken h ih =>
    obtain ⟨n, rfl⟩ : ∃ m, n = m + 1 := ⟨n - 1, by omega⟩
    obtain ⟨c, cs, rfl, hproduction⟩ := htoken.shape.exists_lead
    have hlead : lead c ≠ .other := fun hother => by
      rw [hother] at hproduction
      exact hproduction
    have hrest : rest.length < n := by
      simp only [List.length_append, List.length_cons] at hn
      omega
    have hlex : lexToken c (cs ++ rest) = .ok (tok, rest) :=
      lexToken_of_isToken htoken (h.head_ne (by decide) (by decide))
        (h.head_ne (by decide) (by decide)) rfl
    have hblank : ¬ isAsciiWhitespace c = true := by simp [isAsciiWhitespace_of_lead hlead]
    rw [tokenizeAll, List.cons_append, List.dropWhile_cons_of_neg hblank]
    dsimp only
    rw [hlex]
    dsimp only
    rw [ih hrest]

/-- The lexer cuts a text into tokens exactly as the lexical grammar does. -/
theorem tokenize_eq_ok_iff : tokenize src = .ok toks ↔ Lexes AcceptedPath src toks :=
  ⟨lexes_of_tokenizeAll, fun h => tokenizeAll_of_lexes h (Nat.lt_succ_self _)⟩

end Texts

end PraxisPolicy
