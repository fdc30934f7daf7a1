import PraxisPolicy.JsonObjects
import PraxisPolicy.RuleTrees

/-!
# Paths into a payload

A dotted path is expanded into concrete paths under bounds.  The walks count down `room`, the levels
left below `maxFanoutDepth`, where the source counts `depth` up.
-/

namespace PraxisPolicy

open JsonValues TextScanning

/-- Counts path segments and array fan-out. -/
def maxFanoutDepth : ℕ := 128

def maxExpandedPaths : ℕ := 100000

def maxRedactionWalkStates : ℕ := 100000

/-- An object by key, an array by a decimal index. -/
def segmentGet (value : Json) (seg : String) : Option Json :=
  match value with
  | .object members => members.lookup seg
  | .array items => (parseUsize seg).bind fun i => items[i]?
  | _ => none

def getConcrete : Json → List String → Option Json
  | root, [] => some root
  | root, seg :: path => (segmentGet root seg).bind fun child => getConcrete child path

def getDotted (root : Json) (path : String) : Option Json := getConcrete root (segments path)

/-- `none` when a parent is missing, crosses a scalar, or `f` refuses. -/
def modifyAt (f : Json → Option Json) : List String → Json → Option Json
  | [], value => f value
  | seg :: path, .object members => do
    let child ← members.lookup seg
    let child' ← modifyAt f path child
    return .object (insertMember members seg child')
  | seg :: path, .array items => do
    let i ← parseUsize seg
    let child ← items[i]?
    let child' ← modifyAt f path child
    return .array (items.set i child')
  | _ :: _, _ => none

def writeLeaf (leaf : String) (value : Json) : Json → Option Json
  | .object members => some (.object (insertMember members leaf value))
  | .array items => do
    let i ← parseUsize leaf
    if i < items.length then return .array (items.set i value) else none
  | _ => none

def eraseLeaf (leaf : String) : Json → Option Json
  | .object members =>
    if (members.lookup leaf).isSome then some (.object (members.eraseP (·.1 == leaf))) else none
  | .array items => do
    let i ← parseUsize leaf
    if i < items.length then return .array (items.eraseIdx i) else none
  | _ => none

/-- The flag tells whether anything was written. -/
def setConcrete (root : Json) (path : List String) (value : Json) : Json × Bool :=
  match path.getLast? with
  | none => (value, true)
  | some leaf =>
    match modifyAt (writeLeaf leaf value) path.dropLast root with
    | some root' => (root', true)
    | none => (root, false)

def removeConcrete (root : Json) (path : List String) : Json × Bool :=
  match path.getLast? with
  | none => (root, false)
  | some leaf =>
    match modifyAt (eraseLeaf leaf) path.dropLast root with
    | some root' => (root', true)
    | none => (root, false)

section Expansion

def joinSegment (here seg : String) : String := if here = "" then seg else here ++ "." ++ seg

/-- Arrays on the way fan out, a missing segment emits nothing, and a bound that is exceeded fails
the whole expansion. -/
def walkFieldPaths : ℕ → Json → List String → String → List String → Option (List String)
  | 0, _, _, _, _ => none
  | room + 1, value, segs, here, out =>
    if out.length > maxExpandedPaths then none
    else match segs with
      | [] => some (out ++ [here])
      | seg :: rest =>
        match value with
        | .array items =>
          match parseUsize seg with
          | some idx =>
            match items[idx]? with
            | some child => walkFieldPaths room child rest (joinSegment here seg) out
            | none => some out
          | none =>
            items.zipIdx.foldlM
              (fun out e => walkFieldPaths room e.1 segs (joinSegment here (toString e.2)) out) out
        | value =>
          match segmentGet value seg with
          | some child => walkFieldPaths room child rest (joinSegment here seg) out
          | none => some out

def expandFieldPaths (root : Json) (path : String) : Option (List String) :=
  walkFieldPaths (maxFanoutDepth + 1) root (segments path) "" []

/-- States left, and the paths found. -/
structure WalkState where
  budget : ℕ
  out : List (List String)
  deriving DecidableEq, Repr

variable [Library]

def keyMatches (key seg : String) : Bool := Library.toLowercase key == Library.toLowercase seg

/-- A `**` stands for any chain of descendants, the empty one included. -/
def walkRedaction : ℕ → Json → List String → List String → WalkState → Option WalkState
  | 0, _, _, _, _ => none
  | room + 1, value, segs, here, st =>
    if st.budget = 0 ∨ st.out.length > maxExpandedPaths then none
    else
      let st := { st with budget := st.budget - 1 }
      match segs with
      | [] =>
        if st.out.length = maxExpandedPaths then none
        else some { st with out := st.out ++ [here] }
      | seg :: rest =>
        let descend (segs : List String) (st : WalkState) (e : String × Json) :=
          walkRedaction room e.2 segs (here ++ [e.1]) st
        if seg = "**" then
          (walkRedaction room value rest here st).bind fun st =>
            value.children.foldlM (descend segs) st
        else
          match value with
          | .object members =>
            (members.filter fun e => keyMatches e.1 seg).foldlM (descend rest) st
          | .array items =>
            match parseUsize seg with
            | some idx =>
              match items[idx]? with
              | some child => descend rest st (seg, child)
              | none => some st
            | none => value.children.foldlM (descend segs) st
          | _ => some st

def Stage.isRedact : Stage → Bool
  | .redact _ => true
  | _ => false

/-- `none` when a bound is exceeded. -/
def expandForPipeline (root : Json) (path : String) (stages : List Stage) :
    Option (List (List String)) :=
  if stages.any Stage.isRedact then
    let segs := segments path
    let budget := if segs.contains "**" then maxRedactionWalkStates else 2 ^ 64 - 1
    (walkRedaction (maxFanoutDepth + 1) root segs [] ⟨budget, []⟩).map fun st =>
      (st.out.insertionSort (· ≤ ·)).destutter (· ≠ ·)
  else
    (expandFieldPaths root path).map fun paths => paths.map segments

end Expansion

end PraxisPolicy
