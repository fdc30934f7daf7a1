import PraxisPolicy.TextScanning

/-!
# Quoted literals

A literal is closed by the quote that opened it, and a backslash stands before a backslash or a
quote only.
-/

namespace PraxisPolicy

open TextScanning

/-- What the text is from there on, and the message. -/
structure TextFault where
  rest : List Char
  msg : String
  deriving DecidableEq, Repr

def TextFault.charOffset (fault : TextFault) (src : List Char) : ℕ :=
  src.length - fault.rest.length

def isQuote (c : Char) : Bool := c == '"' || c == '\x27'

def isEscape (c : Char) : Bool := c == '\\' || c == '\x27' || c == '"'

/-- The first byte of its encoding. -/
def shownByte (c : Char) : Char := Char.ofNat ((String.utf8EncodeChar c).headD 0).toNat

def unterminated (opening : List Char) : TextFault := ⟨opening, "unterminated string literal"⟩

/-- The content up to the closing quote, and what follows it. -/
def readBody (quote : Char) (opening : List Char) :
    List Char → Except TextFault (List Char × List Char)
  | [] => .error (unterminated opening)
  | c :: cs =>
    if c = quote then .ok ([], cs)
    else if c = '\\' then
      match cs with
      | [] => .error (unterminated opening)
      | esc :: rest =>
        if isEscape esc then
          match readBody quote opening rest with
          | .ok (value, after) => .ok (esc :: value, after)
          | .error fault => .error fault
        else .error ⟨c :: cs, "unrecognized escape `\\" ++ String.singleton (shownByte esc) ++
          "` in a quoted literal; only `\\\\`, `\\'` and `\\\"` are escapes, " ++
          "so write `\\\\` for a literal backslash"⟩
    else
      match readBody quote opening cs with
      | .ok (value, after) => .ok (c :: value, after)
      | .error fault => .error fault

/-- Its escapes are resolved. -/
def readLiteral (src : List Char) : Except TextFault (List Char × List Char) :=
  match src with
  | [] => .error ⟨src, "expected a quoted literal here"⟩
  | quote :: body =>
    if isQuote quote then readBody quote src body
    else .error ⟨src, "expected a quoted literal here"⟩

def skipLiteral (src : List Char) : Except TextFault (List Char) :=
  match readLiteral src with
  | .ok (_, after) => .ok after
  | .error fault => .error fault

structure LiteralError where
  position : ℕ
  msg : String
  deriving DecidableEq, Repr

/-- `none` when it does not open with a quote. -/
def readWholeLiteral (src : List Char) : Except LiteralError (Option String) :=
  let trimmed := trimChars src
  let lead := (src.takeWhile isWhitespace).length
  match trimmed with
  | [] => .ok none
  | first :: _ =>
    if isQuote first then
      match readLiteral trimmed with
      | .error fault => .error ⟨fault.charOffset trimmed + lead, fault.msg⟩
      | .ok (value, []) => .ok (some (String.ofList value))
      | .ok (_, after) => .error ⟨lead + (trimmed.length - after.length),
          "trailing text after a quoted literal; a value is one literal or one bare word"⟩
    else .ok none

def literalValue (src : List Char) : Except String String :=
  match readWholeLiteral src with
  | .ok (some value) => .ok value
  | .ok none => .ok (String.ofList (trimChars src))
  | .error err => .error err.msg

section Spellings

/-- By the documented escapes. -/
inductive Quoted (quote : Char) : List Char → List Char → Prop where
  | nil : Quoted quote [] []
  | character {c : Char} {value body : List Char} (hquote : c ≠ quote) (hslash : c ≠ '\\')
      (hrest : Quoted quote value body) : Quoted quote (c :: value) (c :: body)
  | escape {c : Char} {value body : List Char} (hescape : isEscape c = true)
      (hrest : Quoted quote value body) : Quoted quote (c :: value) ('\\' :: c :: body)

inductive IsLiteral : List Char → List Char → Prop where
  | mk {quote : Char} {value body : List Char} (hquote : isQuote quote = true)
      (hbody : Quoted quote value body) : IsLiteral (quote :: (body ++ [quote])) value

theorem ne_slash_of_isQuote {c : Char} (h : isQuote c = true) : c ≠ '\\' := by
  rintro rfl
  exact absurd h (by decide)

variable {quote : Char} {opening cs value rest body : List Char}

theorem readBody_of_quoted (hquote : isQuote quote = true) (h : Quoted quote value body) :
    readBody quote opening (body ++ quote :: rest) = .ok (value, rest) := by
  induction h with
  | nil =>
    rw [readBody.eq_def]
    simp
  | character hne hslash _ ih =>
    rw [readBody.eq_def]
    simp [hne, hslash, ih]
  | escape hescape _ ih =>
    rw [readBody.eq_def]
    simp [(ne_slash_of_isQuote hquote).symm, hescape, ih]

theorem quoted_of_readBody (h : readBody quote opening cs = .ok (value, rest)) :
    ∃ body, cs = body ++ quote :: rest ∧ Quoted quote value body := by
  fun_induction readBody quote opening cs generalizing value with
  | case1 => cases h
  | case2 cs =>
    cases h
    exact ⟨[], rfl, .nil⟩
  | case3 => cases h
  | case4 esc tail hescape value' after hread hquote ih =>
    cases h
    obtain ⟨body, rfl, hbody⟩ := ih hread
    exact ⟨'\\' :: esc :: body, rfl, .escape hescape hbody⟩
  | case5 => cases h
  | case6 => cases h
  | case7 c cs hquote hslash value' after hread ih =>
    cases h
    obtain ⟨body, rfl, hbody⟩ := ih hread
    exact ⟨c :: body, rfl, .character hquote hslash hbody⟩
  | case8 => cases h

theorem readLiteral_eq_ok_iff :
    readLiteral cs = .ok (value, rest) ↔ ∃ text, cs = text ++ rest ∧ IsLiteral text value := by
  constructor
  · intro h
    cases cs with
    | nil => cases h
    | cons quote tail =>
      rw [readLiteral] at h
      split at h
      · rename_i hquote
        obtain ⟨body, rfl, hbody⟩ := quoted_of_readBody h
        exact ⟨quote :: (body ++ [quote]), by simp, .mk hquote hbody⟩
      · cases h
  · rintro ⟨_, rfl, ⟨hquote, hbody⟩⟩
    simpa [readLiteral, hquote] using readBody_of_quoted hquote hbody

theorem exists_quoted (quote : Char) (hquote : isQuote quote = true) (value : List Char) :
    ∃ body, Quoted quote value body := by
  induction value with
  | nil => exact ⟨[], .nil⟩
  | cons c value ih =>
    obtain ⟨body, hbody⟩ := ih
    by_cases hescape : isEscape c = true
    · exact ⟨'\\' :: c :: body, .escape hescape hbody⟩
    · refine ⟨c :: body, .character ?_ ?_ hbody⟩
      · rintro rfl
        revert hquote hescape
        simp only [isQuote, isEscape, Bool.or_eq_true, beq_iff_eq]
        tauto
      · rintro rfl
        exact hescape (by decide)

end Spellings

end PraxisPolicy
