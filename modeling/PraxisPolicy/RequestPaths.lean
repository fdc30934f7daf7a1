import PraxisPolicy.TextScanning

/-!
# Reading a request path

`normalizeMatchPath` refuses a path it cannot read: a control character, a malformed
percent-escape, or a parameter on a traversal segment.  Offsets count bytes.
-/

namespace PraxisPolicy

open TextScanning

inductive PathError where
  | invalidEscape (index : ℕ)
  | truncatedEscape (index : ℕ)
  | parameterizedTraversal (index : ℕ)
  | controlCharacter (index byte : ℕ)
  deriving DecidableEq, Repr

def isAsciiControl (c : Char) : Bool := c.toNat < 32 || c.toNat == 127

def isAsciiHexDigit (c : Char) : Bool :=
  c.isDigit || ('a' ≤ c && c ≤ 'f') || ('A' ≤ c && c ≤ 'F')

def rejectControlCharacters (index : ℕ) : List Char → Except PathError Unit
  | [] => .ok ()
  | c :: rest =>
    if isAsciiControl c then .error (.controlCharacter index c.toNat)
    else rejectControlCharacters (index + c.utf8Size) rest

def rejectMalformedEscapes (offset expected escape : ℕ) : List Char → Except PathError Unit
  | [] => if expected = 0 then .ok () else .error (.truncatedEscape escape)
  | c :: rest =>
    if expected = 0 then
      if c = '%' then rejectMalformedEscapes (offset + c.utf8Size) 2 offset rest
      else rejectMalformedEscapes (offset + c.utf8Size) 0 escape rest
    else if isAsciiHexDigit c then
      rejectMalformedEscapes (offset + c.utf8Size) (expected - 1) escape rest
    else .error (.invalidEscape escape)

def stripFragmentAndQuery (raw : String) : String :=
  String.ofList ((raw.toList.takeWhile (· != '#')).takeWhile (· != '?'))

def countsTwoDots (dots escape : ℕ) : List Char → Bool
  | [] => escape == 0 && dots == 2
  | c :: rest =>
    let next : Option (ℕ × ℕ) :=
      if escape = 0 then
        if c = '.' then some (dots + 1, 0) else if c = '%' then some (dots, 2) else none
      else if escape = 2 then if c = '2' then some (dots, 1) else none
      else if c = 'e' || c = 'E' then some (dots + 1, 0) else none
    match next with
    | none => false
    | some (dots, escape) => dots ≤ 2 && countsTwoDots dots escape rest

def isTraversalSegment (pathSegment : String) : Bool := countsTwoDots 0 0 pathSegment.toList

def pathSegments (path : String) : List String := (path.toList.splitOn '/').map String.ofList

def needsRewrite (path : String) : Bool :=
  decide ("//".toList <:+: path.toList) || decide ("/./".toList <:+: path.toList) ||
    decide ("/../".toList <:+: path.toList) || decide ("/.".toList <:+ path.toList) ||
    decide ("/..".toList <:+ path.toList) || path.toList.contains ';' ||
    (pathSegments path).any isTraversalSegment

/-- `kept` is the stack, last segment first. -/
def rewriteSegments (kept : List String) (index : ℕ) : List String → Except PathError (List String)
  | [] => .ok kept.reverse
  | raw :: rest =>
    let next := index + raw.utf8ByteSize + 1
    let bare := String.ofList (raw.toList.takeWhile (· != ';'))
    if bare = "" || bare = "." then rewriteSegments kept next rest
    else if isTraversalSegment bare then
      -- a parameter that hides a traversal is refused, a bare one pops
      if bare ≠ raw then .error (.parameterizedTraversal index)
      else rewriteSegments kept.tail next rest
    else rewriteSegments (bare :: kept) next rest

def rewrite (path : String) : Except PathError String := do
  let kept ← rewriteSegments [] 0 (pathSegments path)
  return if kept.isEmpty then "/" else String.join (kept.map fun pathSegment => "/" ++ pathSegment)

def normalizeMatchPath (raw : String) : Except PathError String := do
  rejectControlCharacters 0 raw.toList
  let path := stripFragmentAndQuery raw
  rejectMalformedEscapes 0 0 0 path.toList
  if path.toList.head? ≠ some '/' then return raw
  if !needsRewrite path then return path
  rewrite path

end PraxisPolicy
