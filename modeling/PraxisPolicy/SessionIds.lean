import PraxisPolicy.AttributeProjection
import PraxisPolicy.CanonicalJson
import PraxisPolicy.SlotRecords

/-!
# Session ids

A session id is a hash of the subject, a colon and a session text.  The subject may hold colons as
well, so the hashed text does not say where it ends.
-/

namespace PraxisPolicy

open EncodedText HashMaps JsonValues TextScanning

section Resolver

class DigestBackend where
  CryptoError : Type
  sha256 : List UInt8 → Except CryptoError (List UInt8)

export DigestBackend (CryptoError)

def shortHash [DigestBackend] (raw : String) : Except CryptoError String := do
  let digest ← DigestBackend.sha256 (encode raw)
  return String.ofList ((digest.take 8).flatMap fun b => hexByte b.toNat)

inductive SessionSource where
  | agent | tokenClaim | identity
  deriving DecidableEq, Repr

def SubjectExtension.claimStr [Library] (subject : SubjectExtension) (name : String) :
    Option String :=
  match subject.claims.lookup name with
  | some (.string s) => some s
  | some (.number n) => some (numberText n)
  | some (.bool b) => some (toString b)
  | _ => none

/-- Without a subject it has no scope. -/
def subjectScoped [DigestBackend] (subjectId : Option String) (raw : String) :
    Except CryptoError (Option String) :=
  match subjectId with
  | none => .ok none
  | some sub => (shortHash (sub ++ ":" ++ raw)).map some

variable [Contents] [SlotRecords]

def Extensions.subjectId (ext : Extensions) : Option String :=
  (ext.security.bind SecurityExtension.subject).bind SubjectExtension.id

def workloadText (workload : Option WorkloadIdentity) : String :=
  (workload.bind WorkloadIdentity.clientId).getD "-"

/-- What an upstream component resolved, if it is not empty. -/
def upstreamSession (ext : Extensions) : Option String :=
  (ext.agent.bind AgentExtension.sessionId).filter (· ≠ "")

variable [Library]

def claimedSession (ext : Extensions) : Option String :=
  ((ext.security.bind SecurityExtension.subject).bind (·.claimStr "session_id")).filter (· ≠ "")

def resolveSession [DigestBackend] (ext : Extensions) :
    Except CryptoError (Option (String × SessionSource)) := do
  let agentTier ← match upstreamSession ext with
    | some sid => subjectScoped ext.subjectId sid
    | none => pure none
  if let some bound := agentTier then return some (bound, .agent)
  let claimTier ← match claimedSession ext with
    | some sid => subjectScoped ext.subjectId sid
    | none => pure none
  if let some bound := claimTier then return some (bound, .tokenClaim)
  match ext.security, ext.subjectId with
  | some security, some sub =>
    let actor := workloadText security.callerWorkload
    let aud := workloadText security.thisWorkload
    let hash ← shortHash (sub ++ ":" ++ actor ++ ":" ++ aud)
    return some (hash, .identity)
  | _, _ => return none

end Resolver

theorem key_eq_key_iff {sub₁ sub₂ text₁ text₂ : String} (hne : sub₁ ≠ sub₂) :
    sub₁ ++ ":" ++ text₁ = sub₂ ++ ":" ++ text₂ ↔
      (∃ rest, sub₂ = sub₁ ++ ":" ++ rest ∧ text₁ = rest ++ ":" ++ text₂) ∨
        ∃ rest, sub₁ = sub₂ ++ ":" ++ rest ∧ text₂ = rest ++ ":" ++ text₁ := by
  have htexts : ∀ a b c : String, a = b ++ ":" ++ c ↔ a.toList = b.toList ++ ':' :: c.toList := by
    intro a b c
    rw [← String.toList_inj]
    simp
  have hlists : sub₁.toList ≠ sub₂.toList := mt String.toList_inj.1 hne
  have hrest : ∀ p : List Char → Prop, (∃ t, p t) ↔ ∃ rest : String, p rest.toList := fun p =>
    ⟨fun ⟨t, ht⟩ => ⟨String.ofList t, by rwa [String.toList_ofList]⟩, fun ⟨_, h⟩ => ⟨_, h⟩⟩
  simp only [htexts, String.toList_append, List.append_assoc]
  exact (append_cons_eq_append_cons_iff hlists).trans (or_congr (hrest _) (hrest _))

section Texts

variable [Contents] [SlotRecords] [Library]

/-- What the first tier with a value binds to the subject. -/
def sessionText (ext : Extensions) : String :=
  ((upstreamSession ext).or (claimedSession ext)).getD
    (workloadText (ext.security.bind SecurityExtension.callerWorkload) ++ ":" ++
      workloadText (ext.security.bind SecurityExtension.thisWorkload))

def sessionSource (ext : Extensions) : SessionSource :=
  if (upstreamSession ext).isSome then .agent
  else if (claimedSession ext).isSome then .tokenClaim
  else .identity

theorem resolveSession_eq [DigestBackend] (ext : Extensions) :
    resolveSession ext = match ext.subjectId with
      | none => .ok none
      | some sub => (shortHash (sub ++ ":" ++ sessionText ext)).map fun hash =>
          some (hash, sessionSource ext) := by
  unfold resolveSession sessionText sessionSource
  generalize upstreamSession ext = upstream
  generalize claimedSession ext = claimed
  cases hsub : ext.subjectId with
  | none => cases upstream <;> cases claimed <;> cases ext.security <;> rfl
  | some sub =>
    cases upstream with
    | some sid => cases h : shortHash (sub ++ ":" ++ sid) <;> simp [subjectScoped, h] <;> rfl
    | none =>
      cases claimed with
      | some sid => cases h : shortHash (sub ++ ":" ++ sid) <;> simp [subjectScoped, h] <;> rfl
      | none =>
        cases hsecurity : ext.security with
        | none => simp [Extensions.subjectId, hsecurity] at hsub
        | some security =>
          simp [String.append_assoc]
          rfl

def sessionKey (ext : Extensions) : Option String :=
  ext.subjectId.map (· ++ ":" ++ sessionText ext)

/-- The longer subject starts with the shorter one and a colon, and the session text makes up for
what is missing. -/
def Continues (shorter longer : Extensions) : Prop :=
  ∃ sub rest, shorter.subjectId = some sub ∧ longer.subjectId = some (sub ++ ":" ++ rest) ∧
    sessionText shorter = rest ++ ":" ++ sessionText longer

theorem sessionKey_eq_iff {ext₁ ext₂ : Extensions} (hdiffer : ext₁.subjectId ≠ ext₂.subjectId) :
    (∃ raw, sessionKey ext₁ = some raw ∧ sessionKey ext₂ = some raw) ↔
      Continues ext₁ ext₂ ∨ Continues ext₂ ext₁ := by
  unfold sessionKey Continues
  cases h₁ : ext₁.subjectId with
  | none => simp
  | some sub₁ =>
    cases h₂ : ext₂.subjectId with
    | none => simp
    | some sub₂ =>
      have hne : sub₁ ≠ sub₂ := fun h => hdiffer (by rw [h₁, h₂, h])
      have hkeys := @key_eq_key_iff sub₁ sub₂ (sessionText ext₁) (sessionText ext₂) hne
      constructor
      · rintro ⟨raw, hraw₁, hraw₂⟩
        rcases hkeys.1 (Option.some.inj (hraw₁.trans hraw₂.symm)) with ⟨rest, h⟩ | ⟨rest, h⟩
        · exact .inl ⟨sub₁, rest, rfl, congrArg some h.1, h.2⟩
        · exact .inr ⟨sub₂, rest, rfl, congrArg some h.1, h.2⟩
      · rintro (⟨sub, rest, hsub, hlonger, htext⟩ | ⟨sub, rest, hsub, hlonger, htext⟩) <;>
          cases Option.some.inj hsub
        · exact ⟨_, rfl, congrArg some (hkeys.2 (.inl ⟨rest, Option.some.inj hlonger, htext⟩)).symm⟩
        · exact ⟨_, rfl, congrArg some (hkeys.2 (.inr ⟨rest, Option.some.inj hlonger, htext⟩)).symm⟩

end Texts

section Isolation

variable [Contents] [SlotRecords] [Library] [DigestBackend]

theorem resolveSession_eq_some {ext : Extensions} {id : String} {source : SessionSource} :
    resolveSession ext = .ok (some (id, source)) ↔
      (∃ raw, sessionKey ext = some raw ∧ shortHash raw = .ok id) ∧ source = sessionSource ext := by
  rw [resolveSession_eq, sessionKey]
  cases ext.subjectId with
  | none => simp
  | some sub =>
    cases h : shortHash (sub ++ ":" ++ sessionText ext) <;> simp [h, Except.map, eq_comm]

/-- The two requests are never in one session. -/
def Isolated (ext₁ ext₂ : Extensions) : Prop :=
  ∀ id source₁ source₂, resolveSession ext₁ = .ok (some (id, source₁)) →
    resolveSession ext₂ ≠ .ok (some (id, source₂))

/-- With a hash that does not collide, different subjects are kept apart exactly when neither
continues the other. -/
theorem isolated_iff (ext₁ ext₂ : Extensions) (hdiffer : ext₁.subjectId ≠ ext₂.subjectId)
    (hinjective : ∀ raw₁ ∈ sessionKey ext₁, ∀ raw₂ ∈ sessionKey ext₂, ∀ id,
      shortHash raw₁ = .ok id → shortHash raw₂ = .ok id → raw₁ = raw₂) :
    Isolated ext₁ ext₂ ↔ ∀ raw ∈ sessionKey ext₁, (∃ id, shortHash raw = .ok id) →
      ¬ Continues ext₁ ext₂ ∧ ¬ Continues ext₂ ext₁ := by
  rw [← not_or, ← sessionKey_eq_iff hdiffer]
  constructor
  · rintro hisolated raw hraw ⟨id, hid⟩ ⟨shared, hshared₁, hshared₂⟩
    obtain rfl : raw = shared := Option.some.inj (hraw.symm.trans hshared₁)
    exact hisolated id _ _ (resolveSession_eq_some.2 ⟨⟨raw, hshared₁, hid⟩, rfl⟩)
      (resolveSession_eq_some.2 ⟨⟨raw, hshared₂, hid⟩, rfl⟩)
  · intro hcontinues id source₁ source₂ h₁ h₂
    obtain ⟨⟨raw₁, hraw₁, hid₁⟩, -⟩ := resolveSession_eq_some.1 h₁
    obtain ⟨⟨raw₂, hraw₂, hid₂⟩, -⟩ := resolveSession_eq_some.1 h₂
    obtain rfl := hinjective raw₁ hraw₁ raw₂ hraw₂ id hid₁ hid₂
    exact hcontinues raw₁ hraw₁ ⟨id, hid₁⟩ ⟨raw₁, hraw₁, hraw₂⟩

end Isolation

section Cases

/-! Clients that name their session in a header; the digest of a short text is the text. -/

local instance sessionContents : Contents where
  slot _ := AgentExtension
  detail := Unit
  transport := Unit

local instance sessionSlots : SlotRecords where
  request _ := ⟨none⟩
  agent := id
  mcp _ := ⟨none, none, none⟩
  completion _ := ⟨none, none, none, none⟩
  framework _ := ⟨none, none, none, none⟩

local instance sessionLibrary : Library := Library.ascii

local instance plainDigest : DigestBackend where
  CryptoError := Empty
  sha256 := .ok

def sessionRequest (sub sid : String) : Extensions :=
  { Extensions.default with
    immutable := fun
      | .agent => some ⟨0, ⟨some sid, none, none, none, none⟩⟩
      | _ => none
    security := some { SecurityExtension.default with
      subject := some ⟨some sub, none, ∅, ∅, ∅, ∅, none⟩ } }

theorem session_shared_by_subjects : ∃ ext₁ ext₂ : Extensions,
    ext₁.subjectId = some "a" ∧ ext₂.subjectId = some "a:b" ∧
      ∃ id, resolveSession ext₁ = .ok (some (id, .agent)) ∧
        resolveSession ext₂ = .ok (some (id, .agent)) :=
  ⟨sessionRequest "a" "b:c", sessionRequest "a:b" "c", rfl, rfl, "613a623a63", rfl, rfl⟩

theorem isolated_alice_bob :
    Isolated (sessionRequest "alice" "s") (sessionRequest "bob" "s") := by
  refine (isolated_iff _ _ (by decide) ?_).2 fun _ _ _ => ⟨?_, ?_⟩
  · rintro _ ⟨⟩ _ ⟨⟩ id hid₁ hid₂
    exact absurd (Except.ok.inj (hid₁.trans hid₂.symm)) (by decide)
  · rintro ⟨_, rest, ⟨⟩, hlonger, -⟩
    exact absurd (congrArg String.toList (Option.some.inj hlonger)) (by simp)
  · rintro ⟨_, rest, ⟨⟩, hlonger, -⟩
    exact absurd (congrArg String.toList (Option.some.inj hlonger)) (by simp)

end Cases

end PraxisPolicy
