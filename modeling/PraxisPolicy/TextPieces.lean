import PraxisPolicy.QuotedLiterals

/-!
# Cutting text outside its literals

`pieces` steps over a literal as a whole, and the scanners are recursions over the pieces.  Texts
that differ only in their literals are cut in the same places.
-/

namespace PraxisPolicy

open TextScanning

inductive Piece where
  | literal (text : List Char)
  | plain (c : Char)
  -- A quote that opens no literal, and what the reader says of it.
  | broken (c : Char) (msg : String)
  deriving DecidableEq

namespace Piece

def text : Piece → List Char
  | .literal text => text
  | .plain c => [c]
  | .broken c _ => [c]

/-- The same piece, but for what stands in a literal. -/
inductive Alike : Piece → Piece → Prop where
  | literal {text text' value value' : List Char} (h : IsLiteral text value)
      (h' : IsLiteral text' value') : Alike (.literal text) (.literal text')
  | plain {c : Char} : Alike (.plain c) (.plain c)
  | broken {c : Char} {msg : String} : Alike (.broken c msg) (.broken c msg)

end Piece

/-- A literal may still have characters to take. -/
def piecesAfter : ℕ → List Char → List Piece
  | _, [] => []
  | skip + 1, _ :: cs => piecesAfter skip cs
  | 0, c :: cs =>
    if isQuote c then
      match readLiteral (c :: cs) with
      | .ok (_, after) =>
        .literal ((c :: cs).take (cs.length + 1 - after.length)) ::
          piecesAfter (cs.length - after.length) cs
      | .error fault => .broken c fault.msg :: piecesAfter 0 cs
    else .plain c :: piecesAfter 0 cs

def pieces (cs : List Char) : List Piece := piecesAfter 0 cs

def textOf (ps : List Piece) : List Char := ps.flatMap Piece.text

@[simp] theorem textOf_nil : textOf [] = [] := rfl

@[simp] theorem textOf_cons (p : Piece) (ps : List Piece) :
    textOf (p :: ps) = p.text ++ textOf ps := List.flatMap_cons

@[simp] theorem textOf_append (ps qs : List Piece) : textOf (ps ++ qs) = textOf ps ++ textOf qs :=
  List.flatMap_append

theorem piecesAfter_drop (n : ℕ) (cs : List Char) : piecesAfter n cs = pieces (cs.drop n) := by
  induction n generalizing cs with
  | zero => rfl
  | succ n ih =>
    cases cs with
    | nil => rfl
    | cons c cs => rw [piecesAfter, ih, List.drop_succ_cons]

@[simp] theorem pieces_nil : pieces [] = [] := rfl

theorem pieces_plain {c : Char} {cs : List Char} (h : isQuote c = false) :
    pieces (c :: cs) = .plain c :: pieces cs := by
  simp [pieces, piecesAfter, h]

theorem pieces_literal {text value rest : List Char} (h : IsLiteral text value) :
    pieces (text ++ rest) = .literal text :: pieces rest := by
  have hread : readLiteral (text ++ rest) = .ok (value, rest) :=
    readLiteral_eq_ok_iff.2 ⟨text, rfl, h⟩
  obtain ⟨hquote, hbody⟩ := h
  rename_i quote body
  rw [List.cons_append] at hread ⊢
  have hlength : (body ++ [quote] ++ rest).length - rest.length = (body ++ [quote]).length := by
    rw [List.length_append]
    omega
  have htake : (body ++ [quote] ++ rest).length + 1 - rest.length = (body ++ [quote]).length + 1 := by
    rw [List.length_append]
    omega
  rw [pieces, piecesAfter, if_pos hquote, hread]
  dsimp only
  rw [hlength, htake, piecesAfter_drop, List.take_succ_cons, List.take_left, List.drop_left]

theorem pieces_cases (cs : List Char) :
    cs = [] ∨ (∃ c rest, cs = c :: rest ∧ isQuote c = false ∧ pieces cs = .plain c :: pieces rest) ∨
      (∃ text value rest, cs = text ++ rest ∧ IsLiteral text value ∧
        pieces cs = .literal text :: pieces rest) ∨
      ∃ c rest msg, cs = c :: rest ∧ pieces cs = .broken c msg :: pieces rest := by
  cases cs with
  | nil => exact .inl rfl
  | cons c cs =>
    refine .inr ?_
    by_cases hquote : isQuote c = true
    · cases hread : readLiteral (c :: cs) with
      | error fault =>
        refine .inr (.inr ⟨c, cs, fault.msg, rfl, ?_⟩)
        rw [pieces, piecesAfter, if_pos hquote, hread]
        rfl
      | ok result =>
        obtain ⟨text, hsrc, hliteral⟩ := readLiteral_eq_ok_iff.1 hread
        refine .inr (.inl ⟨text, result.1, result.2, hsrc, hliteral, ?_⟩)
        rw [hsrc]
        exact pieces_literal hliteral
    · have hquote : isQuote c = false := by simpa using hquote
      exact .inl ⟨c, cs, rfl, hquote, pieces_plain hquote⟩

theorem IsLiteral.length_pos {text value : List Char} (h : IsLiteral text value) :
    0 < text.length := by
  obtain ⟨-, -⟩ := h
  simp

theorem textOf_pieces (cs : List Char) : textOf (pieces cs) = cs := by
  induction hn : cs.length using Nat.strong_induction_on generalizing cs with
  | _ n ih =>
    subst hn
    obtain rfl | ⟨c, rest, rfl, -, heq⟩ | ⟨text, value, rest, rfl, hliteral, heq⟩ |
      ⟨c, rest, msg, rfl, heq⟩ := pieces_cases cs
    · rfl
    · rw [heq, textOf_cons, ih _ (by simp) rest rfl]
      rfl
    · have := hliteral.length_pos
      rw [heq, textOf_cons, ih _ (by simp; omega) rest rfl]
      rfl
    · rw [heq, textOf_cons, ih _ (by simp) rest rfl]
      rfl

/-- The last colon outside parentheses and brackets. A broken literal ends the search. -/
def lastColon (parens brackets : ℤ) : List Piece → Option (List Piece × List Piece)
  | [] => none
  | .broken _ _ :: _ => none
  | .literal text :: rest =>
    (lastColon parens brackets rest).map fun cut => (.literal text :: cut.1, cut.2)
  | .plain c :: rest =>
    let parens' := if c = '(' then parens + 1 else if c = ')' then parens - 1 else parens
    let brackets' := if c = '[' then brackets + 1 else if c = ']' then brackets - 1 else brackets
    match lastColon parens' brackets' rest with
    | some cut => some (.plain c :: cut.1, cut.2)
    | none => if c = ':' ∧ parens = 0 ∧ brackets = 0 then some ([], rest) else none

def splitPredicateAction (src : List Char) : Option (List Char × List Char) :=
  (lastColon 0 0 (pieces src)).map fun cut => (trimChars (textOf cut.1), trimChars (textOf cut.2))

def consPart (p : Piece) : List (List Piece) → List (List Piece)
  | [] => [[p]]
  | part :: parts => (p :: part) :: parts

def commaParts (depth : ℕ) : List Piece → Except String (List (List Piece))
  | [] => if depth = 0 then .ok [[]] else .error "unbalanced brackets in delegate(...) args"
  | .broken _ msg :: _ => .error msg
  | .literal text :: rest => (commaParts depth rest).map (consPart (.literal text))
  | .plain c :: rest =>
    if c = '[' ∨ c = '(' ∨ c = '\x7b' then
      (commaParts (depth + 1) rest).map (consPart (.plain c))
    else if c = ']' ∨ c = ')' ∨ c = '\x7d' then
      if depth = 0 then
        .error ("unmatched `" ++ String.singleton c ++ "` in delegate(...) args")
      else (commaParts (depth - 1) rest).map (consPart (.plain c))
    else if c = ',' ∧ depth = 0 then (commaParts depth rest).map ([] :: ·)
    else (commaParts depth rest).map (consPart (.plain c))

def splitTopLevelCommas (src : List Char) : Except String (List (List Char)) :=
  (commaParts 0 (pieces src)).map (List.map textOf)

def depthAfter (depth : ℤ) (c : Char) : ℤ :=
  if c = '(' ∨ c = '[' then depth + 1 else if c = ')' ∨ c = ']' then depth - 1 else depth

def isBracket (c : Char) : Bool := c == '(' || c == '[' || c == ')' || c == ']'

def topLevelParts (delim : Char) (depth : ℤ) : List Piece → List (List Piece)
  | [] => [[]]
  | .broken c msg :: rest => [.broken c msg :: rest]
  | .literal text :: rest => consPart (.literal text) (topLevelParts delim depth rest)
  | .plain c :: rest =>
    if isBracket c then consPart (.plain c) (topLevelParts delim (depthAfter depth c) rest)
    else if c = delim ∧ depth = 0 then [] :: topLevelParts delim depth rest
    else consPart (.plain c) (topLevelParts delim depth rest)

def splitTopLevel (src : List Char) (delim : Char) : List (List Char) :=
  (topLevelParts delim 0 (pieces src)).map textOf

def topLevelPipe (depth : ℤ) : List Piece → Option (List Piece × List Piece)
  | [] => none
  | .broken _ _ :: _ => none
  | .literal text :: rest =>
    (topLevelPipe depth rest).map fun cut => (.literal text :: cut.1, cut.2)
  | [.plain c] => if c = '|' ∧ depth = 0 then some ([], []) else none
  | .plain c :: next :: rest =>
    if c = '|' ∧ depth = 0 then
      if next = .plain '|' then
        (topLevelPipe depth rest).map fun cut => (.plain c :: next :: cut.1, cut.2)
      else some ([], next :: rest)
    else (topLevelPipe (depthAfter depth c) (next :: rest)).map fun cut => (.plain c :: cut.1, cut.2)

def findTopLevelPipe (src : List Char) : Option (List Char × List Char) :=
  (topLevelPipe 0 (pieces src)).map fun cut => (textOf cut.1, textOf cut.2)

/-- A broken literal is a character like any other here. -/
def closingParen (depth : ℤ) : List Piece → Option (List Piece × List Piece)
  | [] => none
  | p :: rest =>
    if p = .plain ')' ∧ depth = 1 then some ([], rest)
    else
      let depth' := if p = .plain '(' then depth + 1 else if p = .plain ')' then depth - 1 else depth
      (closingParen depth' rest).map fun cut => (p :: cut.1, cut.2)

def callArgs (ps : List Piece) : Option (List Piece) :=
  match closingParen 0 ps with
  | some (inside, after) => if trimChars (textOf after) = [] then some inside.tail else none
  | none => none

def extractCallArgs (line name : List Char) : Option (List Char) :=
  let line := trimChars line
  if name.isPrefixOf line then
    let after := line.drop name.length
    if after.head? = some '(' then (callArgs (pieces after)).map textOf else none
  else none

def splitHeadArgs (src : List Char) : Option (List Char × Option (List Char)) :=
  let head := trimChars (src.takeWhile (· ≠ '('))
  let opening := src.dropWhile (· ≠ '(')
  if opening = [] then
    if head = [] then none else some (head, none)
  else
    match closingParen 0 (pieces opening) with
    | none => none
    | some (inside, after) =>
      if head = [] then none
      else if trimChars (textOf after) = [] then some (head, some (textOf inside.tail))
      else none

section Inertness

open List (Forall₂)

def SameCut : Option (List Piece × List Piece) → Option (List Piece × List Piece) → Prop :=
  Option.Rel fun cut cut' => Forall₂ Piece.Alike cut.1 cut'.1 ∧ Forall₂ Piece.Alike cut.2 cut'.2

variable {cut cut' : Option (List Piece × List Piece)} {p q : Piece} {ps qs : List Piece}

theorem SameCut.cons (h : SameCut cut cut') (hp : p.Alike q) :
    SameCut (cut.map fun c => (p :: c.1, c.2)) (cut'.map fun c => (q :: c.1, c.2)) := by
  cases h with
  | some h => exact .some ⟨.cons hp h.1, h.2⟩
  | none => exact .none

theorem Piece.Alike.eq_plain_iff (h : p.Alike q) {c : Char} : p = .plain c ↔ q = .plain c := by
  cases h <;> simp

theorem lastColon_alike (h : Forall₂ Piece.Alike ps qs) (parens brackets : ℤ) :
    SameCut (lastColon parens brackets ps) (lastColon parens brackets qs) := by
  induction h generalizing parens brackets with
  | nil => exact .none
  | cons hp hrest ih =>
    cases hp with
    | literal h h' =>
      rw [lastColon, lastColon]
      exact (ih parens brackets).cons (.literal h h')
    | @plain c =>
      rw [lastColon, lastColon]
      generalize (if c = '(' then parens + 1 else if c = ')' then parens - 1 else parens) = parens'
      generalize (if c = '[' then brackets + 1 else if c = ']' then brackets - 1 else brackets) =
        brackets'
      have hlater := ih parens' brackets'
      generalize lastColon parens' brackets' _ = later at hlater
      generalize lastColon parens' brackets' _ = later' at hlater
      cases hlater with
      | some hcut => exact .some ⟨.cons .plain hcut.1, hcut.2⟩
      | none =>
        dsimp only
        split_ifs
        · exact .some ⟨.nil, hrest⟩
        · exact .none
    | broken => exact .none

theorem topLevelPipe_alike (h : Forall₂ Piece.Alike ps qs) (depth : ℤ) :
    SameCut (topLevelPipe depth ps) (topLevelPipe depth qs) := by
  -- Two pipes in a row are stepped over together, so the induction is on the length.
  induction hn : ps.length using Nat.strong_induction_on generalizing ps qs depth with
  | _ n ih =>
    subst hn
    cases h with
    | nil => exact .none
    | cons hp hrest =>
      cases hp with
      | literal h h' => exact (ih _ (by simp) hrest depth rfl).cons (.literal h h')
      | broken => exact .none
      | plain =>
        cases hrest with
        | nil =>
          rw [topLevelPipe]
          split_ifs
          · exact .some ⟨.nil, .nil⟩
          · exact .none
        | cons hnext hrest =>
          rw [topLevelPipe, topLevelPipe]
          simp only [hnext.eq_plain_iff]
          split_ifs
          · have hlater := ih _ (by rw [List.length_cons, List.length_cons]; omega) hrest depth rfl
            generalize topLevelPipe depth _ = later at hlater
            generalize topLevelPipe depth _ = later' at hlater
            cases hlater with
            | some hcut => exact .some ⟨.cons .plain (.cons hnext hcut.1), hcut.2⟩
            | none => exact .none
          · exact .some ⟨.nil, .cons hnext hrest⟩
          · exact (ih _ (by simp) (.cons hnext hrest) _ rfl).cons .plain

theorem closingParen_alike (h : Forall₂ Piece.Alike ps qs) (depth : ℤ) :
    SameCut (closingParen depth ps) (closingParen depth qs) := by
  induction h generalizing depth with
  | nil => exact .none
  | cons hp hrest ih =>
    rw [closingParen, closingParen]
    simp only [hp.eq_plain_iff]
    split_ifs
    · exact .some ⟨.nil, hrest⟩
    · exact (ih _).cons hp
    · exact (ih _).cons hp
    · exact (ih _).cons hp

theorem consPart_alike {parts parts' : List (List Piece)} (hp : p.Alike q)
    (h : Forall₂ (Forall₂ Piece.Alike) parts parts') :
    Forall₂ (Forall₂ Piece.Alike) (consPart p parts) (consPart q parts') := by
  cases h with
  | nil => exact .cons (.cons hp .nil) .nil
  | cons hpart hparts => exact .cons (.cons hp hpart) hparts

theorem topLevelParts_alike (h : Forall₂ Piece.Alike ps qs) (delim : Char) (depth : ℤ) :
    Forall₂ (Forall₂ Piece.Alike) (topLevelParts delim depth ps) (topLevelParts delim depth qs) := by
  induction h generalizing depth with
  | nil => exact .cons .nil .nil
  | cons hp hrest ih =>
    cases hp with
    | literal h h' => exact consPart_alike (.literal h h') (ih depth)
    | plain =>
      rw [topLevelParts, topLevelParts]
      split_ifs
      · exact consPart_alike .plain (ih _)
      · exact .cons .nil (ih depth)
      · exact consPart_alike .plain (ih depth)
    | broken => exact .cons (.cons .broken hrest) .nil

/-- They fail with the same message, or their parts are alike. -/
inductive SameParts : Except String (List (List Piece)) → Except String (List (List Piece)) → Prop
    where
  | ok {parts parts' : List (List Piece)} (h : Forall₂ (Forall₂ Piece.Alike) parts parts') :
      SameParts (.ok parts) (.ok parts')
  | error {msg : String} : SameParts (.error msg) (.error msg)

theorem SameParts.map {r r' : Except String (List (List Piece))} (h : SameParts r r')
    {f g : List (List Piece) → List (List Piece)}
    (hfg : ∀ parts parts', Forall₂ (Forall₂ Piece.Alike) parts parts' →
      Forall₂ (Forall₂ Piece.Alike) (f parts) (g parts')) :
    SameParts (r.map f) (r'.map g) := by
  cases h with
  | ok h => exact .ok (hfg _ _ h)
  | error => exact .error

theorem commaParts_alike (h : Forall₂ Piece.Alike ps qs) (depth : ℕ) :
    SameParts (commaParts depth ps) (commaParts depth qs) := by
  induction h generalizing depth with
  | nil =>
    rw [commaParts]
    split_ifs
    · exact .ok (.cons .nil .nil)
    · exact .error
  | cons hp hrest ih =>
    cases hp with
    | literal h h' => exact (ih depth).map fun _ _ hparts => consPart_alike (.literal h h') hparts
    | plain =>
      rw [commaParts, commaParts]
      split_ifs
      · exact (ih _).map fun _ _ h => consPart_alike .plain h
      · exact .error
      · exact (ih _).map fun _ _ h => consPart_alike .plain h
      · exact (ih _).map fun _ _ h => .cons .nil h
      · exact (ih _).map fun _ _ h => consPart_alike .plain h
    | broken => exact .error

end Inertness

section Texts

open List (Forall₂)

def TextAlike (a b : List Char) : Prop :=
  ∃ ps qs, Forall₂ Piece.Alike ps qs ∧ textOf ps = a ∧ textOf qs = b

theorem isWhitespace_of_isQuote {c : Char} (h : isQuote c = true) : isWhitespace c = false := by
  simp only [isQuote, Bool.or_eq_true, beq_iff_eq] at h
  rcases h with rfl | rfl <;> decide

variable {p q : Piece} {ps qs : List Piece}

theorem dropWhile_flatMap_of_alike {f : Piece → List Char} {R : Piece → Piece → Prop}
    (hf : ∀ p q, R p q → (∃ c, f p = [c] ∧ f q = [c]) ∨
      (∃ c t, f p = c :: t ∧ isWhitespace c = false) ∧ ∃ d u, f q = d :: u ∧ isWhitespace d = false)
    (h : Forall₂ R ps qs) :
    ∃ ps' qs', Forall₂ R ps' qs' ∧ (ps.flatMap f).dropWhile isWhitespace = ps'.flatMap f ∧
      (qs.flatMap f).dropWhile isWhitespace = qs'.flatMap f := by
  induction h with
  | nil => exact ⟨[], [], .nil, rfl, rfl⟩
  | @cons p q ps qs hp hrest ih =>
    obtain ⟨c, hpc, hqc⟩ | ⟨⟨c, t, hpc, hc⟩, d, u, hqd, hd⟩ := hf p q hp
    · by_cases hc : isWhitespace c = true
      · simpa [List.flatMap_cons, hpc, hqc, hc] using ih
      · refine ⟨p :: ps, q :: qs, .cons hp hrest, ?_, ?_⟩ <;> simp [List.flatMap_cons, hpc, hqc, hc]
    · refine ⟨p :: ps, q :: qs, .cons hp hrest, ?_, ?_⟩
      · simp [List.flatMap_cons, hpc, hc]
      · simp [List.flatMap_cons, hqd, hd]

theorem reverse_textOf (ps : List Piece) :
    (textOf ps).reverse = ps.reverse.flatMap fun p => p.text.reverse := by
  induction ps with
  | nil => rfl
  | cons p ps ih => simp [ih, List.flatMap_append]

theorem IsLiteral.ends {text value : List Char} (h : IsLiteral text value) :
    (∃ c t, text = c :: t ∧ isWhitespace c = false) ∧
      ∃ c t, text.reverse = c :: t ∧ isWhitespace c = false := by
  obtain ⟨hquote, -⟩ := h
  rename_i quote body
  refine ⟨⟨quote, _, rfl, isWhitespace_of_isQuote hquote⟩,
    quote, (quote :: body).reverse, ?_, isWhitespace_of_isQuote hquote⟩
  rw [← List.cons_append, List.reverse_concat]

theorem Piece.Alike.starts (p q : Piece) (h : p.Alike q) :
    (∃ c, p.text = [c] ∧ q.text = [c]) ∨
      (∃ c t, p.text = c :: t ∧ isWhitespace c = false) ∧
        ∃ d u, q.text = d :: u ∧ isWhitespace d = false := by
  cases h with
  | literal h h' => exact .inr ⟨h.ends.1, h'.ends.1⟩
  | plain | broken => exact .inl ⟨_, rfl, rfl⟩

theorem Piece.Alike.ends (p q : Piece) (h : p.Alike q) :
    (∃ c, p.text.reverse = [c] ∧ q.text.reverse = [c]) ∨
      (∃ c t, p.text.reverse = c :: t ∧ isWhitespace c = false) ∧
        ∃ d u, q.text.reverse = d :: u ∧ isWhitespace d = false := by
  cases h with
  | literal h h' => exact .inr ⟨h.ends.2, h'.ends.2⟩
  | plain | broken => exact .inl ⟨_, rfl, rfl⟩

theorem textAlike_trim (h : Forall₂ Piece.Alike ps qs) :
    TextAlike (trimChars (textOf ps)) (trimChars (textOf qs)) := by
  obtain ⟨ps', qs', h', hps, hqs⟩ := dropWhile_flatMap_of_alike Piece.Alike.starts h
  change (textOf ps).dropWhile isWhitespace = textOf ps' at hps
  change (textOf qs).dropWhile isWhitespace = textOf qs' at hqs
  obtain ⟨ps'', qs'', h'', hps', hqs'⟩ :=
    dropWhile_flatMap_of_alike Piece.Alike.ends (List.forall₂_reverse_iff.2 h')
  have hback : ∀ rs : List Piece,
      (rs.flatMap fun p => p.text.reverse).reverse = textOf rs.reverse := by
    intro rs
    rw [← List.reverse_reverse rs, ← reverse_textOf, List.reverse_reverse, List.reverse_reverse]
  refine ⟨ps''.reverse, qs''.reverse, List.forall₂_reverse_iff.2 h'', ?_, ?_⟩
  · rw [trimChars, hps, reverse_textOf, hps', hback]
  · rw [trimChars, hqs, reverse_textOf, hqs', hback]

theorem TextAlike.eq_nil_iff {a b : List Char} (h : TextAlike a b) : a = [] ↔ b = [] := by
  obtain ⟨ps, qs, h, rfl, rfl⟩ := h
  cases h with
  | nil => exact Iff.rfl
  | cons hp _ =>
    obtain ⟨c, hpc, hqc⟩ | ⟨⟨c, t, hpc, -⟩, d, u, hqd, -⟩ := hp.starts
    · simp [hpc, hqc]
    · simp [hpc, hqd]

variable {a b : List Char}

/-- Every scanner cuts them in the same places. -/
structure SameCuts (a b : List Char) : Prop where
  predicateAction : Option.Rel (fun cut cut' => TextAlike cut.1 cut'.1 ∧ TextAlike cut.2 cut'.2)
    (splitPredicateAction a) (splitPredicateAction b)
  commas : (∃ msg, splitTopLevelCommas a = .error msg ∧ splitTopLevelCommas b = .error msg) ∨
    ∃ parts parts', splitTopLevelCommas a = .ok parts ∧ splitTopLevelCommas b = .ok parts' ∧
      Forall₂ TextAlike parts parts'
  topLevel : ∀ delim, Forall₂ TextAlike (splitTopLevel a delim) (splitTopLevel b delim)
  pipe : Option.Rel (fun cut cut' => TextAlike cut.1 cut'.1 ∧ TextAlike cut.2 cut'.2)
    (findTopLevelPipe a) (findTopLevelPipe b)

theorem sameCuts_of_alike (h : Forall₂ Piece.Alike (pieces a) (pieces b)) : SameCuts a b := by
  have htext : ∀ {ps qs}, Forall₂ Piece.Alike ps qs → TextAlike (textOf ps) (textOf qs) :=
    fun h => ⟨_, _, h, rfl, rfl⟩
  have hparts : ∀ {parts parts'}, Forall₂ (Forall₂ Piece.Alike) parts parts' →
      Forall₂ TextAlike (parts.map textOf) (parts'.map textOf) := by
    intro parts parts' hparts
    rw [List.forall₂_map_left_iff, List.forall₂_map_right_iff]
    exact hparts.imp fun _ _ => htext
  refine ⟨?_, ?_, ?_, ?_⟩
  · have hcut := lastColon_alike h 0 0
    rw [splitPredicateAction, splitPredicateAction]
    generalize lastColon 0 0 (pieces a) = cut at hcut ⊢
    generalize lastColon 0 0 (pieces b) = cut' at hcut ⊢
    cases hcut with
    | some hcut => exact .some ⟨textAlike_trim hcut.1, textAlike_trim hcut.2⟩
    | none => exact .none
  · have hsame := commaParts_alike h 0
    rw [splitTopLevelCommas, splitTopLevelCommas]
    generalize commaParts 0 (pieces a) = parts at hsame ⊢
    generalize commaParts 0 (pieces b) = parts' at hsame ⊢
    cases hsame with
    | ok hsame => exact .inr ⟨_, _, rfl, rfl, hparts hsame⟩
    | error => exact .inl ⟨_, rfl, rfl⟩
  · exact fun delim => hparts (topLevelParts_alike h delim 0)
  · have hcut := topLevelPipe_alike h 0
    rw [findTopLevelPipe, findTopLevelPipe]
    generalize topLevelPipe 0 (pieces a) = cut at hcut ⊢
    generalize topLevelPipe 0 (pieces b) = cut' at hcut ⊢
    cases hcut with
    | some hcut => exact .some ⟨htext hcut.1, htext hcut.2⟩
    | none => exact .none

theorem pieces_eq_nil_iff {cs : List Char} : pieces cs = [] ↔ cs = [] := by
  constructor
  · intro h
    rw [← textOf_pieces cs, h, textOf_nil]
  · rintro rfl
    rfl

theorem head?_eq_iff {cs : List Char} {c : Char} (hc : isQuote c = false) :
    cs.head? = some c ↔ (pieces cs).head? = some (.plain c) := by
  constructor
  · intro h
    rw [← List.cons_head?_tail h, pieces_plain hc, List.head?_cons]
  · intro h
    have htext := textOf_pieces cs
    rw [← List.cons_head?_tail h, textOf_cons] at htext
    rw [← htext]
    rfl

theorem closing_alike (h : Forall₂ Piece.Alike ps qs) :
    Option.Rel (fun cut cut' => TextAlike (textOf cut.1.tail) (textOf cut'.1.tail) ∧
      (trimChars (textOf cut.2) = [] ↔ trimChars (textOf cut'.2) = []))
      (closingParen 0 ps) (closingParen 0 qs) := by
  have hcut := closingParen_alike h 0
  generalize closingParen 0 ps = cut at hcut ⊢
  generalize closingParen 0 qs = cut' at hcut ⊢
  cases hcut with
  | @some x y hcut =>
    obtain ⟨inside, after⟩ := x
    obtain ⟨inside', after'⟩ := y
    obtain ⟨hinside, hafter⟩ := hcut
    refine .some ⟨⟨_, _, ?_, rfl, rfl⟩, (textAlike_trim hafter).eq_nil_iff⟩
    cases hinside with
    | nil => exact .nil
    | cons _ hrest => exact hrest
  | none => exact .none

theorem extractCallArgs_alike {line line' name : List Char}
    (hname : name <+: trimChars line ↔ name <+: trimChars line')
    (h : Forall₂ Piece.Alike (pieces ((trimChars line).drop name.length))
      (pieces ((trimChars line').drop name.length))) :
    Option.Rel TextAlike (extractCallArgs line name) (extractCallArgs line' name) := by
  have hclosing := closing_alike h
  have hhead : ((trimChars line).drop name.length).head? = some '(' ↔
      ((trimChars line').drop name.length).head? = some '(' := by
    rw [head?_eq_iff (by decide), head?_eq_iff (by decide)]
    generalize pieces ((trimChars line).drop name.length) = ps at h
    generalize pieces ((trimChars line').drop name.length) = qs at h
    cases h with
    | nil => exact Iff.rfl
    | cons hp _ => simp [hp.eq_plain_iff]
  unfold extractCallArgs
  dsimp only
  simp only [List.isPrefixOf_iff_prefix, hname, hhead, callArgs]
  generalize closingParen 0 (pieces ((trimChars line).drop name.length)) = cut at hclosing ⊢
  generalize closingParen 0 (pieces ((trimChars line').drop name.length)) = cut' at hclosing ⊢
  split_ifs
  · cases hclosing with
    | some hcut =>
      dsimp only
      simp only [hcut.2]
      split_ifs
      · exact .some hcut.1
      · exact .none
    | none => exact .none
  · exact .none
  · exact .none

theorem splitHeadArgs_alike (hhead : a.takeWhile (· ≠ '(') = b.takeWhile (· ≠ '('))
    (h : Forall₂ Piece.Alike (pieces (a.dropWhile (· ≠ '('))) (pieces (b.dropWhile (· ≠ '(')))) :
    Option.Rel (fun cut cut' => cut.1 = cut'.1 ∧ Option.Rel TextAlike cut.2 cut'.2)
      (splitHeadArgs a) (splitHeadArgs b) := by
  have hclosing := closing_alike h
  have hnil : a.dropWhile (· ≠ '(') = [] ↔ b.dropWhile (· ≠ '(') = [] := by
    rw [← pieces_eq_nil_iff, ← pieces_eq_nil_iff]
    generalize pieces (a.dropWhile (· ≠ '(')) = ps at h
    generalize pieces (b.dropWhile (· ≠ '(')) = qs at h
    cases h <;> simp
  unfold splitHeadArgs
  dsimp only
  rw [hhead]
  simp only [hnil]
  generalize closingParen 0 (pieces (a.dropWhile (· ≠ '('))) = cut at hclosing ⊢
  generalize closingParen 0 (pieces (b.dropWhile (· ≠ '('))) = cut' at hclosing ⊢
  split_ifs
  · exact .none
  · exact .some ⟨rfl, .none⟩
  · cases hclosing <;> exact .none
  · cases hclosing with
    | some hcut =>
      dsimp only
      simp only [hcut.2]
      split_ifs
      · exact .some ⟨rfl, .some hcut.1⟩
      · exact .none
    | none => exact .none

end Texts

end PraxisPolicy
