import PraxisPolicy.QuotedLiterals
import PraxisPolicy.RuleTrees

/-!
# The lexer of predicates

A fault is reported at the character it was met at.  A path is lexed as a production and not as a
run of permitted characters.
-/

namespace PraxisPolicy

open BinaryFloats TextScanning

inductive Tok where
  | ident (name : String)
  | stringLit (value : String)
  | intLit (value : ℤ)
  | floatLit (value : Float64)
  | boolLit (value : Bool)
  | eq | notEq | gt | gtEq | lt | ltEq
  | and | or | not
  -- The word `not`, as opposed to the sign.
  | notWord
  | lParen | rParen | comma
  | contains | require | exists | inWord
  deriving DecidableEq

def emptySegment : String :=
  "empty segment in an attribute path; a path is dot-separated names, " ++
    "so `a..b`, `a.` and `.a` name nothing"

def reservedSegment : String :=
  "a `$` segment is one `$` then a name, as in `metadata.account.$outcome`; it cannot start a path"

def notIsReserved : String :=
  "`not` is reserved for the `not in` phrase; APL spells predicate negation `!`, " ++
    "as in `!authenticated`"

def numberShape : String :=
  "a number is an optional `-`, then digits, then optionally `.` and more digits; " ++
    "there is no exponent form, and digits are required on both sides of the dot"

def emptySubscript : String :=
  "empty subscript in an attribute path; a subscript holds the nested path whose value is " ++
    "the key to look up"

def emptySubscriptSegment : String :=
  "empty segment in an attribute path subscript; a subscript holds dot-separated names"

def badSubscript (c : Char) : String :=
  "`" ++ String.singleton c ++ "` in an attribute path subscript; a subscript holds a nested " ++
    "path, so it takes names and dots and nothing else"

def isAsciiWhitespace (c : Char) : Bool :=
  c == ' ' || c == '\t' || c == '\n' || c == '\x0c' || c == '\r'

def isIdentStart (c : Char) : Bool := c.isAlpha || c == '_'

def isSegmentChar (c : Char) : Bool := c.isAlphanum || c == '_'

def textBefore (src rest : List Char) : List Char := src.take (src.length - rest.length)

section Numbers

/-- Why `str::parse::<i64>` refuses a run of digits. -/
def parseIntError (text : List Char) : String :=
  if text.head? = some '-' then "number too small to fit in target type"
  else "number too large to fit in target type"

def afterSign : List Char → List Char
  | '-' :: rest => rest
  | cs => cs

def scanNumber (src : List Char) : Except TextFault (Bool × List Char) :=
  let digits := afterSign src
  let after := digits.dropWhile Char.isDigit
  if after.length = digits.length then .error ⟨src, numberShape⟩
  else if after.head? = some '.' then
    let rest := after.tail.dropWhile Char.isDigit
    if rest.length = after.tail.length then .error ⟨src, numberShape⟩ else .ok (true, rest)
  else .ok (false, after)

variable [Library]

def numberToken (isFloat : Bool) (text rest : List Char) : Except TextFault Tok :=
  if isFloat then
    match Library.parseF64 (String.ofList text) with
    | some value => .ok (.floatLit value)
    | none => .error ⟨rest, "bad float `" ++ String.ofList text ++ "`: invalid float literal"⟩
  else
    match parseI64 (String.ofList text) with
    | some value => .ok (.intLit value)
    | none => .error ⟨rest, "bad int `" ++ String.ofList text ++ "`: " ++ parseIntError text⟩

def lexNumber (src : List Char) : Except TextFault (Tok × List Char) :=
  match scanNumber src with
  | .error fault => .error fault
  | .ok (isFloat, rest) =>
    if rest.head? = some 'e' ∨ rest.head? = some 'E' then .error ⟨src, numberShape⟩
    else
      match numberToken isFloat (textBefore src rest) rest with
      | .ok tok => .ok (tok, rest)
      | .error fault => .error fault

end Numbers

def containsDotDot : List Char → Bool
  | [] => false
  | c :: cs => (c == '.' && cs.head? == some '.') || containsDotDot cs

/-- The text from its opening bracket on, and the text after that. -/
def lexSubscript (opening inside : List Char) : Except TextFault (List Char) :=
  let inner := inside.takeWhile fun c => isSegmentChar c || c == '.'
  match inside.dropWhile fun c => isSegmentChar c || c == '.' with
  | [] => .error ⟨opening, "unterminated `[` in an attribute path"⟩
  | c :: after =>
    if c = ']' then
      if inner.length = 0 then .error ⟨opening, emptySubscript⟩
      else if inner.head? = some '.' ∨ inner.getLast? = some '.' ∨ containsDotDot inner = true then
        .error ⟨inside, emptySubscriptSegment⟩
      else .ok after
    else if c = '[' then .error ⟨c :: after, "nested `[` in an attribute path subscript"⟩
    else .error ⟨c :: after, badSubscript c⟩

/-- A later segment may carry one `$`, which has to stand before a name. -/
def skipReservedMark (first : Bool) (src : List Char) : Except TextFault (List Char) :=
  match first, src with
  | false, '$' :: name =>
    if name.head?.any isIdentStart then .ok name else .error ⟨src, reservedSegment⟩
  | _, _ => .ok src

/-- Whether it has a subscript, and the text after it. -/
def lexSegment (first : Bool) (src : List Char) : Except TextFault (Bool × List Char) :=
  match skipReservedMark first src with
  | .error fault => .error fault
  | .ok name =>
    let rest := name.dropWhile isSegmentChar
    if rest.length = src.length then .error ⟨src, emptySegment⟩
    else if rest.head? = some '[' then
      match lexSubscript rest rest.tail with
      | .ok after => .ok (true, after)
      | .error fault => .error fault
    else .ok (false, rest)

/-- A segment and its dot take two characters, so one round for every character is enough. -/
def lexSegments : ℕ → Bool → List Char → Except TextFault (Bool × List Char)
  | 0, _, src => .error ⟨src, emptySegment⟩
  | rounds + 1, first, src =>
    match lexSegment first src with
    | .error fault => .error fault
    | .ok (bracket, rest) =>
      if rest.head? = some '.' then
        match lexSegments rounds false rest.tail with
        | .ok (later, after) => .ok (bracket || later, after)
        | .error fault => .error fault
      else .ok (bracket, rest)

def reservedWords : List (String × Tok) :=
  [("true", .boolLit true), ("false", .boolLit false), ("contains", .contains),
    ("require", .require), ("exists", .exists), ("in", .inWord), ("not", .notWord)]

def lexIdentOrKeyword (src : List Char) : Except TextFault (Tok × List Char) :=
  match lexSegments src.length true src with
  | .error fault => .error fault
  | .ok (bracket, rest) =>
    let text := textBefore src rest
    let name := String.ofList text
    if "not.".toList.isPrefixOf text then .error ⟨src, notIsReserved⟩
    -- A path with a subscript is never a keyword.
    else if bracket then .ok (.ident name, rest)
    else .ok ((reservedWords.lookup name).getD (.ident name), rest)

def lexSymbol (c : Char) (rest : List Char) : Option (Except TextFault (Tok × List Char)) :=
  match c with
  | '(' => some (.ok (.lParen, rest))
  | ')' => some (.ok (.rParen, rest))
  | ',' => some (.ok (.comma, rest))
  | '&' => some <|
    if rest.head? = some '&' then
      .error ⟨c :: rest, "`&&` is not an operator; APL spells conjunction `&`"⟩
    else .ok (.and, rest)
  | '|' => some <|
    if rest.head? = some '|' then
      .error ⟨c :: rest, "`||` is not an operator; APL spells disjunction `|`"⟩
    else .ok (.or, rest)
  | '=' => some <|
    if rest.head? = some '=' then .ok (.eq, rest.tail)
    else .error ⟨rest, "expected `==`, saw `=`"⟩
  | '!' => some <| .ok <| if rest.head? = some '=' then (.notEq, rest.tail) else (.not, rest)
  | '>' => some <| .ok <| if rest.head? = some '=' then (.gtEq, rest.tail) else (.gt, rest)
  | '<' => some <| .ok <| if rest.head? = some '=' then (.ltEq, rest.tail) else (.lt, rest)
  | _ => none

def lexString (src : List Char) : Except TextFault (Tok × List Char) :=
  match readLiteral src with
  | .ok (value, after) => .ok (.stringLit (String.ofList value), after)
  | .error fault => .error fault

variable [Library]

def lexToken (c : Char) (rest : List Char) : Except TextFault (Tok × List Char) :=
  match lexSymbol c rest with
  | some lexed => lexed
  | none =>
    if isQuote c then lexString (c :: rest)
    else if c = '-' ∨ c.isDigit = true then lexNumber (c :: rest)
    else if c = '.' then
      .error ⟨c :: rest, if rest.head?.any Char.isDigit then numberShape else emptySegment⟩
    else if isIdentStart c then lexIdentOrKeyword (c :: rest)
    else .error ⟨c :: rest, "unexpected character `" ++ String.singleton c ++ "`"⟩

/-- Every token takes a character, so one round for each, and one for the end, is enough. -/
def tokenizeAll : ℕ → List Char → Except TextFault (List Tok)
  | 0, src => .error ⟨src, emptySegment⟩
  | rounds + 1, src =>
    match src.dropWhile isAsciiWhitespace with
    | [] => .ok []
    | c :: rest =>
      match lexToken c rest with
      | .error fault => .error fault
      | .ok (tok, after) =>
        match tokenizeAll rounds after with
        | .ok toks => .ok (tok :: toks)
        | .error fault => .error fault

def tokenize (src : List Char) : Except TextFault (List Tok) := tokenizeAll (src.length + 1) src

end PraxisPolicy
