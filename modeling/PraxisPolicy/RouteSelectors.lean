import PraxisPolicy.TextScanning

/-!
# Route selectors and the names they render

Names key the annotation table and the route cache, so two selectors that render one name must match
the same requests.
-/

namespace PraxisPolicy

open TextScanning

/-- `WildMatch`: `*` stands for any text, `?` for any one character. -/
def wildMatch : List Char → List Char → Bool
  | [], text => text.isEmpty
  | p :: pattern, text =>
    if p = '*' then text.tails.any (wildMatch pattern)
    else match text with
      | [] => false
      | c :: rest => (p == '?' || p == c) && wildMatch pattern rest

inductive StringOrList where
  | single (pattern : String)
  | list (names : List String)
  deriving DecidableEq, Repr

def StringOrList.matches : StringOrList → String → Bool
  | .single pattern, name => wildMatch pattern.toList name.toList
  | .list names, name => names.any (· == name)

def StringOrList.asNames : StringOrList → List String
  | .single pattern => [pattern]
  | .list names => names

structure HttpMatch where
  path : Option String
  pathPrefix : Option String
  method : Option StringOrList
  deriving DecidableEq, Repr

inductive HttpSelector where
  | path (path : String)
  | paths (paths : List String)
  | byMatch (m : HttpMatch)
  deriving DecidableEq, Repr

namespace HttpSelector

def exactPaths : HttpSelector → List String
  | .path declared => [declared]
  | .paths declared => declared
  | .byMatch m => m.path.toList

def pathPrefix : HttpSelector → Option String
  | .path _ | .paths _ => none
  | .byMatch m => m.pathPrefix

def method : HttpSelector → Option StringOrList
  | .path _ | .paths _ => none
  | .byMatch m => m.method

end HttpSelector

def isAbsolute (path : String) : Bool := path.toList.head? == some '/'

def nonAbsolutePathDefect (key path : String) : Option String :=
  if isAbsolute path then none
  else some ("declares `" ++ key ++ ":` as '" ++ path ++ "', which is not an absolute path; " ++
    "a request path starts with `/`, so this selector matches nothing")

def isMethodChar (c : Char) : Bool :=
  c.isAlphanum || "!#$%&'+-.^_`|~".toList.contains c

def isHttpMethodToken (value : String) : Bool :=
  !value.toList.isEmpty && value.toList.all isMethodChar

def methodDefect : StringOrList → Option String
  | .list [] => some "declares an empty `http.method:` list, which matches nothing"
  | method =>
    if method.asNames.any (· == "") then some "declares an empty method under `http.method:`"
    else (method.asNames.find? fun name => !isHttpMethodToken name).map fun bad =>
      "declares `http.method:` as '" ++ bad ++ "', which is not an HTTP method token; a " ++
        "method is compared literally, so `*` and other non-token characters match nothing"

def HttpSelector.defect : HttpSelector → Option String
  | .path declared =>
    if declared = "" then some "declares an empty `http:` path"
    else nonAbsolutePathDefect "http" declared
  | .paths declared =>
    if declared.isEmpty then some "declares an empty `http:` list, which matches nothing"
    else if declared.any (· == "") then some "declares an empty path in its `http:` list"
    else declared.findSome? (nonAbsolutePathDefect "http")
  | .byMatch m =>
    (m.method.bind methodDefect).or <|
      match m.path, m.pathPrefix with
      | some _, some _ => some ("declares both `path:` and `path_prefix:` under `http:`, which " ++
          "ask for different matches; keep one")
      | none, none =>
        some "declares neither `path:` nor `path_prefix:` under `http:`; one is required"
      | some declared, none =>
        if declared = "" then some "declares an empty `http.path:`"
        else nonAbsolutePathDefect "http.path" declared
      | none, some declared =>
        if declared = "" then
          some "declares an empty `http.path_prefix:`; write `/` for the catch-all"
        else nonAbsolutePathDefect "http.path_prefix" declared

def usizeMax : ℕ := 2 ^ 64 - 1

def saturatingAdd (a b : ℕ) : ℕ := min (a + b) usizeMax

def saturatingMul (a b : ℕ) : ℕ := min (a * b) usizeMax

def specificityExactName : ℕ := 1000
def specificityNameList : ℕ := 500
def specificityGlob : ℕ := 300
def specificityWildcard : ℕ := 0
def specificityExactPath : ℕ := usizeMax / 2
def specificityPathPrefixStep : ℕ := 1000
def specificityMethodNarrowed : ℕ := 50
def specificityScopeMatch : ℕ := 100

def scoreEntityMatch (matcher : StringOrList) (entityName : String) : Option ℕ :=
  if matcher.matches entityName then
    some <| match matcher with
      | .single pattern =>
        if pattern = "*" then specificityWildcard
        else if pattern.toList.contains '*' then specificityGlob
        else specificityExactName
      | .list _ => specificityNameList
  else none

def withoutTrailingSlash (path : String) : String :=
  if path.toList.getLast? = some '/' then String.ofList path.toList.dropLast else path

def pathPrefixMatches (path declared : String) : Bool :=
  let trimmed := withoutTrailingSlash declared
  isAbsolute path &&
    (trimmed == "" || path == trimmed || (trimmed.toList ++ ['/']).isPrefixOf path.toList)

def pathPrefixSpecificity (declared : String) : ℕ :=
  let trimmed := withoutTrailingSlash declared
  if trimmed = "" then 1 else trimmed.utf8ByteSize

def httpMethodMatches (accepted : Option StringOrList) (method : Option String) : Bool :=
  match accepted, method with
  | none, _ => true
  | some _, none => false
  | some accepted, some method => accepted.asNames.any fun name => eqIgnoreAsciiCase name method

/-- In capitals, sorted, each once. -/
def normalizedMethods (method : Option StringOrList) : Option (List String) :=
  method.map fun method =>
    ((method.asNames.map toAsciiUppercase).insertionSort (· ≤ ·)).destutter (· ≠ ·)

/-- Each method past the first gives back one point, down to one. -/
def narrowingBonus : Option (List String) → ℕ
  | none => 0
  | some methods => max (specificityMethodNarrowed - (methods.length - 1)) 1

def methodNarrowingBonus (method : Option StringOrList) : ℕ :=
  narrowingBonus (normalizedMethods method)

def matchedExactPath (selector : HttpSelector) (path : String) : Option String :=
  selector.exactPaths.find? fun declared => path == declared

def scoreHttpMatch (selector : HttpSelector) (path : String) (method : Option String) : Option ℕ :=
  if isAbsolute path && httpMethodMatches selector.method method then
    let pathScore := match selector.pathPrefix with
      | some declared =>
        if pathPrefixMatches path declared then
          some (saturatingMul (pathPrefixSpecificity declared) specificityPathPrefixStep)
        else none
      | none => (matchedExactPath selector path).map fun _ => specificityExactPath
    pathScore.map fun score => saturatingAdd score (methodNarrowingBonus selector.method)
  else none

def renderedMethods (method : Option StringOrList) : Option String :=
  (normalizedMethods method).map fun methods => String.intercalate "," methods

def renderedPrefixName (declared : String) : Option String → String
  | some methods => methods ++ " prefix:" ++ declared
  | none => "prefix:" ++ declared

def renderedExactName (declared : String) : Option String → String
  | some methods => methods ++ " path:" ++ declared
  | none => declared

def httpSelectorNames (selector : HttpSelector) : List String :=
  let methods := renderedMethods selector.method
  match selector.pathPrefix with
  | some declared => [renderedPrefixName declared methods]
  | none => selector.exactPaths.map fun declared => renderedExactName declared methods

def matchedSelectorName (selector : StringOrList) (entityName : String) : Option String :=
  match selector with
  | .list names => names.find? fun name => name == entityName
  | .single pattern => some pattern

def matchedHttpName (selector : HttpSelector) (path : String) : Option String :=
  let methods := renderedMethods selector.method
  match selector.pathPrefix with
  | some declared => some (renderedPrefixName declared methods)
  | none => (matchedExactPath selector path).map fun declared => renderedExactName declared methods

end PraxisPolicy
