import PraxisPolicy.PredicateLexer

/-!
# The lexical grammar of predicates

`DocumentedPath` is the production of the grammar reference, with nested subscripts.
`AcceptedPath` is what the lexer reads.
-/

namespace PraxisPolicy

open BinaryFloats TextScanning

/-- A letter or underscore, then letters, digits and underscores. -/
inductive IsSegment : List Char → Prop where
  | mk {c : Char} {cs : List Char} (hc : isIdentStart c = true)
      (hcs : ∀ d ∈ cs, isSegmentChar d = true) : IsSegment (c :: cs)

/-- A nonempty run of letters, digits and underscores. -/
def IsName (cs : List Char) : Prop := cs ≠ [] ∧ ∀ d ∈ cs, isSegmentChar d = true

inductive DocumentedPiece : Bool → List Char → Prop where
  | segment {first : Bool} {cs : List Char} (h : IsSegment cs) : DocumentedPiece first cs
  | reserved {cs : List Char} (h : IsSegment cs) : DocumentedPiece false ('$' :: cs)

/-- The path production of the grammar reference. -/
inductive DocumentedPath : Bool → List Char → Prop where
  | last {first : Bool} {piece : List Char} (hpiece : DocumentedPiece first piece) :
      DocumentedPath first piece
  | lastSubscript {first : Bool} {piece inner : List Char} (hpiece : DocumentedPiece first piece)
      (hinner : DocumentedPath true inner) (hmark : '$' ∉ inner) :
      DocumentedPath first (piece ++ '[' :: (inner ++ [']']))
  | more {first : Bool} {piece rest : List Char} (hpiece : DocumentedPiece first piece)
      (hrest : DocumentedPath false rest) : DocumentedPath first (piece ++ '.' :: rest)
  | moreSubscript {first : Bool} {piece inner rest : List Char}
      (hpiece : DocumentedPiece first piece) (hinner : DocumentedPath true inner)
      (hmark : '$' ∉ inner) (hrest : DocumentedPath false rest) :
      DocumentedPath first (piece ++ '[' :: (inner ++ ']' :: '.' :: rest))

/-- A first segment starts as an identifier; a later one is any name, or a segment under `$`. -/
inductive PathPiece : Bool → List Char → Prop where
  | first {cs : List Char} (h : IsSegment cs) : PathPiece true cs
  | later {cs : List Char} (h : IsName cs) : PathPiece false cs
  | reserved {cs : List Char} (h : IsSegment cs) : PathPiece false ('$' :: cs)

inductive DottedNames : List Char → Prop where
  | one {name : List Char} (h : IsName name) : DottedNames name
  | more {name rest : List Char} (h : IsName name) (hrest : DottedNames rest) :
      DottedNames (name ++ '.' :: rest)

inductive OptSubscript : List Char → Prop where
  | none : OptSubscript []
  | some {inner : List Char} (h : DottedNames inner) : OptSubscript ('[' :: (inner ++ [']']))

/-- The paths the lexer reads. -/
inductive PathFrom : Bool → List Char → Prop where
  | last {first : Bool} {piece sub : List Char} (hpiece : PathPiece first piece)
      (hsub : OptSubscript sub) : PathFrom first (piece ++ sub)
  | more {first : Bool} {piece sub rest : List Char} (hpiece : PathPiece first piece)
      (hsub : OptSubscript sub) (hrest : PathFrom false rest) :
      PathFrom first (piece ++ sub ++ '.' :: rest)

def AcceptedPath (text : List Char) : Prop := PathFrom true text

section Lexemes

def symbols : List (List Char × Tok) :=
  [(['('], .lParen), ([')'], .rParen), ([','], .comma), (['&'], .and), (['|'], .or),
    (['=', '='], .eq), (['!', '='], .notEq), (['!'], .not), (['>', '='], .gtEq), (['>'], .gt),
    (['<', '='], .ltEq), (['<'], .lt)]

def IsDigits (cs : List Char) : Prop := cs ≠ [] ∧ ∀ d ∈ cs, d.isDigit = true

inductive IsNumber : Bool → List Char → Prop where
  | whole {sign digits : List Char} (hsign : sign = [] ∨ sign = ['-']) (h : IsDigits digits) :
      IsNumber false (sign ++ digits)
  | decimal {sign digits fraction : List Char} (hsign : sign = [] ∨ sign = ['-'])
      (h : IsDigits digits) (hfraction : IsDigits fraction) :
      IsNumber true (sign ++ digits ++ '.' :: fraction)

def integerValue : List Char → ℤ
  | '-' :: digits => -(Nat.ofDigitChars 10 digits 0 : ℤ)
  | digits => (Nat.ofDigitChars 10 digits 0 : ℤ)

variable (Path : List Char → Prop)

inductive Shape : List Char → Prop where
  | symbol {text : List Char} {tok : Tok} (h : (text, tok) ∈ symbols) : Shape text
  | literal {text value : List Char} (h : IsLiteral text value) : Shape text
  | number {fraction : Bool} {text : List Char} (h : IsNumber fraction text) : Shape text
  | path {text : List Char} (h : Path text) : Shape text

/-- No text that goes on from here is a lexeme as well. -/
def Longest (text rest : List Char) : Prop :=
  ∀ more, more <+: rest → more ≠ [] → ¬ Shape Path (text ++ more)

/-- `&&`, `||` and exponents are refused where they are met. -/
def Separated (text rest : List Char) : Prop :=
  (text = ['&'] → rest.head? ≠ some '&') ∧ (text = ['|'] → rest.head? ≠ some '|') ∧
    ∀ fraction, IsNumber fraction text → rest.head? ≠ some 'e' ∧ rest.head? ≠ some 'E'

variable [Library]

/-- An integer has to fit `i64`, a reserved word is no path, and no path starts with `not.`. -/
inductive Denotes : List Char → Tok → Prop where
  | symbol {text : List Char} {tok : Tok} (h : (text, tok) ∈ symbols) : Denotes text tok
  | literal {text value : List Char} (h : IsLiteral text value) :
      Denotes text (.stringLit (String.ofList value))
  | integer {text : List Char} (h : IsNumber false text) (hlow : -2 ^ 63 ≤ integerValue text)
      (hhigh : integerValue text < 2 ^ 63) : Denotes text (.intLit (integerValue text))
  | decimal {text : List Char} {value : Float64} (h : IsNumber true text)
      (hvalue : Library.parseF64 (String.ofList text) = some value) :
      Denotes text (.floatLit value)
  | reserved {word : String} {tok : Tok} (h : (word, tok) ∈ reservedWords) :
      Denotes word.toList tok
  | path {text : List Char} (h : Path text)
      (hword : ∀ tok, (String.ofList text, tok) ∉ reservedWords)
      (hnot : ¬ "not.".toList <+: text) : Denotes text (.ident (String.ofList text))

/-- A lexeme, and the longest one. -/
structure IsToken (text : List Char) (tok : Tok) (rest : List Char) : Prop where
  shape : Shape Path text
  longest : Longest Path text rest
  denotes : Denotes Path text tok
  separated : Separated text rest

inductive Lexes : List Char → List Tok → Prop where
  | nil : Lexes [] []
  | blank {c : Char} {cs : List Char} {toks : List Tok} (hc : isAsciiWhitespace c = true)
      (h : Lexes cs toks) : Lexes (c :: cs) toks
  | token {text rest : List Char} {tok : Tok} {toks : List Tok}
      (htoken : IsToken Path text tok rest) (h : Lexes rest toks) :
      Lexes (text ++ rest) (tok :: toks)

end Lexemes

end PraxisPolicy
