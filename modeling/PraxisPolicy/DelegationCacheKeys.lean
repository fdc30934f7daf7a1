import PraxisPolicy.DelegationInvoker
import PraxisPolicy.EncodedText
import PraxisPolicy.PrefixCodes

/-!
# Keys of cached delegated tokens

Two delegations that share a key differ at most in the order and repetition of permissions,
capabilities and actions.
-/

namespace PraxisPolicy

open EncodedText PrefixCodes TextScanning

/-- A length above `u32` is written as the largest. -/
def len32 : LengthCode where
  write n := bytesLE 4 (min n (2 ^ 32 - 1))
  width := 4
  limit := 2 ^ 32
  length_write _ := length_bytesLE 4 _
  write_inj hm hn h := by
    have heq := bytesLE_inj (by omega) (by omega) h
    omega

namespace KeyEncoder

def bytes (value : List UInt8) : List UInt8 := framed len32 value

def str (value : String) : List UInt8 := bytes (encode value)

def optStr (value : Option String) : List UInt8 := optional str value

/-- A list whose order and repetitions do not matter. -/
def set (values : List String) : List UInt8 :=
  counted len32 str (sortedTexts values.toFinset)

end KeyEncoder

def subjectTag : DelegationSubject → UInt8
  | .user => 1
  | .client => 2
  | .callerWorkload => 3
  | .thisWorkload => 4

def targetTypeTag : TargetType → UInt8 × Option String
  | .tool => (1, none)
  | .agent => (2, none)
  | .resource => (3, none)
  | .service => (4, none)
  | .custom name => (5, some name)

def authEnforcedByTag : AuthEnforcedBy → UInt8
  | .caller => 1
  | .target => 2
  | .both => 3

def tokenRoleTag : TokenRole → UInt8 × Option String
  | .user => (1, none)
  | .client => (2, none)
  | .callerWorkload => (3, none)
  | .custom name => (4, some name)

section Derivation

/-- The third reason of the source is a variant that the types here exclude. -/
inductive NotCacheable where
  | emptyAnchor
  | resourceTemplate
  deriving DecidableEq, Repr

structure DelegatorIdentity where
  instanceName : String
  tokenEndpoint : String
  clientId : String
  deriving DecidableEq, Repr

/-- `DOMAIN`, which names the derivation and its version. -/
def keyDomain : List UInt8 := encode "ppe.delegation.cache.v1"

open KeyEncoder

def encodeRole (role : TokenRole) : List UInt8 :=
  (tokenRoleTag role).1 :: optStr (tokenRoleTag role).2

def encodeActorRole (role : Option TokenRole) : List UInt8 := optional encodeRole role

def encodeTtl (ttl : Option ℕ) : List UInt8 := optional (fun ttl => bytes (bytesLE 8 ttl)) ttl

def encodeAttenuation (attenuation : Option AttenuationConfig) : List UInt8 :=
  optional
    (fun att => KeyEncoder.set att.capabilities ++ KeyEncoder.set att.actions ++
      encodeTtl att.ttlSeconds)
    attenuation

variable [Contents]

def keyInput (delegator : DelegatorIdentity) (payload : DelegationPayload) : List UInt8 :=
  bytes keyDomain ++
  -- which delegator, and the identity it mints under
  str delegator.instanceName ++ str delegator.tokenEndpoint ++ str delegator.clientId ++
  [subjectTag payload.subject] ++ str payload.bearerToken ++
  encodeActorRole payload.actorRole ++ str payload.actorToken ++
  -- what the token is minted for
  str payload.targetName ++ [(targetTypeTag payload.targetType).1] ++
  optStr (targetTypeTag payload.targetType).2 ++ optStr payload.targetAudience ++
  set payload.requiredPermissions ++ optStr payload.trustDomain ++
  [authEnforcedByTag payload.authEnforcedBy] ++ encodeAttenuation payload.routeAttenuation

def derive {Tag : Type} (secret : List UInt8 → Tag) (delegator : DelegatorIdentity)
    (payload : DelegationPayload) : Except NotCacheable Tag :=
  if payload.bearerToken = "" ∧ payload.subject ≠ .thisWorkload then .error .emptyAnchor
  else if payload.routeAttenuation.any (·.resourceTemplate.isSome) then .error .resourceTemplate
  else .ok (secret (keyInput delegator payload))

theorem derive_eq_ok {Tag : Type} {secret : List UInt8 → Tag} {delegator : DelegatorIdentity}
    {payload : DelegationPayload} {key : Tag} :
    derive secret delegator payload = .ok key ↔
      ¬(payload.bearerToken = "" ∧ payload.subject ≠ .thisWorkload) ∧
      ¬payload.routeAttenuation.any (·.resourceTemplate.isSome) ∧
      secret (keyInput delegator payload) = key := by
  unfold derive
  split_ifs with hanchor htemplate
  · simp [hanchor]
  · simp [htemplate]
  · simp [hanchor, htemplate]

end Derivation

section Components

def ShortText (text : String) : Prop := (encode text).length < 2 ^ 32

instance (text : String) : Decidable (ShortText text) :=
  inferInstanceAs (Decidable (_ < _))

def ShortSet (values : List String) : Prop :=
  values.toFinset.card < 2 ^ 32 ∧ ∀ value ∈ values, ShortText value

instance (values : List String) : Decidable (ShortSet values) :=
  inferInstanceAs (Decidable (_ ∧ _))

/-- The lifetime is a `u64`. -/
structure ShortAttenuation (att : AttenuationConfig) : Prop where
  capabilities : ShortSet att.capabilities
  actions : ShortSet att.actions
  ttl : ∀ ttl ∈ att.ttlSeconds, ttl < 2 ^ 64

variable [Contents]

/-- All components are shorter than the length prefix can count. -/
structure ShortComponents (delegator : DelegatorIdentity) (payload : DelegationPayload) :
    Prop where
  instanceName : ShortText delegator.instanceName
  tokenEndpoint : ShortText delegator.tokenEndpoint
  clientId : ShortText delegator.clientId
  bearerToken : ShortText payload.bearerToken
  actorRole : ∀ role ∈ payload.actorRole, ∀ name ∈ (tokenRoleTag role).2, ShortText name
  actorToken : ShortText payload.actorToken
  targetName : ShortText payload.targetName
  targetType : ∀ name ∈ (targetTypeTag payload.targetType).2, ShortText name
  targetAudience : ∀ audience ∈ payload.targetAudience, ShortText audience
  requiredPermissions : ShortSet payload.requiredPermissions
  trustDomain : ∀ domain ∈ payload.trustDomain, ShortText domain
  routeAttenuation : ∀ att ∈ payload.routeAttenuation, ShortAttenuation att

def SameAttenuation (a b : AttenuationConfig) : Prop :=
  a.capabilities.toFinset = b.capabilities.toFinset ∧ a.actions.toFinset = b.actions.toFinset ∧
    a.ttlSeconds = b.ttlSeconds

/-- Up to the order and repetition of what they list. -/
structure SameDelegation (p q : DelegationPayload) : Prop where
  subject : p.subject = q.subject
  bearerToken : p.bearerToken = q.bearerToken
  actorRole : p.actorRole = q.actorRole
  actorToken : p.actorToken = q.actorToken
  targetName : p.targetName = q.targetName
  targetType : p.targetType = q.targetType
  targetAudience : p.targetAudience = q.targetAudience
  requiredPermissions : p.requiredPermissions.toFinset = q.requiredPermissions.toFinset
  trustDomain : p.trustDomain = q.trustDomain
  authEnforcedBy : p.authEnforcedBy = q.authEnforcedBy
  routeAttenuation : Option.Rel SameAttenuation p.routeAttenuation q.routeAttenuation

end Components

section ReadingBack

open KeyEncoder

variable {r s : List UInt8}

theorem bytes_append_inj {a b : List UInt8} (ha : a.length < 2 ^ 32) (hb : b.length < 2 ^ 32)
    (h : bytes a ++ r = bytes b ++ s) : a = b ∧ r = s :=
  framed_append_inj ha hb h

theorem str_append_inj {a b : String} (ha : ShortText a) (hb : ShortText b)
    (h : str a ++ r = str b ++ s) : a = b ∧ r = s := by
  obtain ⟨htext, hrest⟩ := bytes_append_inj ha hb h
  exact ⟨encode_injective htext, hrest⟩

theorem optional_append_eq {α : Type} {enc : α → List UInt8} {a b : Option α}
    (henc : ∀ x ∈ a, ∀ y ∈ b, ∀ r s, enc x ++ r = enc y ++ s → x = y ∧ r = s)
    (h : optional enc a ++ r = optional enc b ++ s) : a = b ∧ r = s := by
  obtain ⟨hrel, hrest⟩ := optional_append_inj henc h
  refine ⟨?_, hrest⟩
  cases hrel with
  | some heq => exact congrArg some heq
  | none => rfl

theorem optStr_append_inj {a b : Option String} (ha : ∀ text ∈ a, ShortText text)
    (hb : ∀ text ∈ b, ShortText text) (h : optStr a ++ r = optStr b ++ s) : a = b ∧ r = s :=
  optional_append_eq (fun x hx y hy _ _ => str_append_inj (ha x hx) (hb y hy)) h

theorem set_append_inj {a b : List String} (ha : ShortSet a) (hb : ShortSet b)
    (h : set a ++ r = set b ++ s) : a.toFinset = b.toFinset ∧ r = s := by
  have hcount : ∀ {values : List String}, ShortSet values →
      (sortedTexts values.toFinset).length < len32.limit := by
    intro values hshort
    rw [sortedTexts, Finset.length_sort]
    exact hshort.1
  obtain ⟨hall, hrest⟩ := counted_append_inj (R := Eq) (hcount ha) (hcount hb)
    (fun x hx y hy _ _ heq => str_append_inj
      (ha.2 x (List.mem_toFinset.1 (mem_sortedTexts.1 hx)))
      (hb.2 y (List.mem_toFinset.1 (mem_sortedTexts.1 hy))) heq) h
  rw [List.forall₂_eq_eq_eq] at hall
  refine ⟨?_, hrest⟩
  rw [← Finset.sort_toFinset a.toFinset textOrder, ← Finset.sort_toFinset b.toFinset textOrder]
  exact congrArg List.toFinset hall

theorem tag_append_inj {a b : UInt8} (h : [a] ++ r = [b] ++ s) :
    a = b ∧ r = s :=
  List.cons.inj h

theorem subjectTag_injective : Function.Injective subjectTag := by
  intro a b h
  cases a <;> cases b <;> first | rfl | exact absurd h (by decide)

theorem authEnforcedByTag_injective : Function.Injective authEnforcedByTag := by
  intro a b h
  cases a <;> cases b <;> first | rfl | exact absurd h (by decide)

theorem targetTypeTag_injective : Function.Injective targetTypeTag := by
  intro a b h
  cases a <;> cases b <;> simp_all [targetTypeTag]

theorem tokenRoleTag_injective : Function.Injective tokenRoleTag := by
  intro a b h
  cases a <;> cases b <;> simp_all [tokenRoleTag]

theorem encodeActorRole_append_inj {a b : Option TokenRole}
    (ha : ∀ role ∈ a, ∀ name ∈ (tokenRoleTag role).2, ShortText name)
    (hb : ∀ role ∈ b, ∀ name ∈ (tokenRoleTag role).2, ShortText name)
    (h : encodeActorRole a ++ r = encodeActorRole b ++ s) : a = b ∧ r = s := by
  refine optional_append_eq (fun x hx y hy r s heq => ?_) h
  obtain ⟨htag, hname⟩ := List.cons.inj heq
  obtain ⟨hname, hrest⟩ := optStr_append_inj (ha x hx) (hb y hy) hname
  exact ⟨tokenRoleTag_injective (Prod.ext htag hname), hrest⟩

theorem encodeAttenuation_append_inj {a b : Option AttenuationConfig}
    (ha : ∀ att ∈ a, ShortAttenuation att) (hb : ∀ att ∈ b, ShortAttenuation att)
    (h : encodeAttenuation a ++ r = encodeAttenuation b ++ s) :
    Option.Rel SameAttenuation a b ∧ r = s := by
  refine optional_append_inj (fun x hx y hy r s heq => ?_) h
  simp only [List.append_assoc] at heq
  obtain ⟨hcapabilities, heq⟩ := set_append_inj (ha x hx).capabilities (hb y hy).capabilities heq
  obtain ⟨hactions, heq⟩ := set_append_inj (ha x hx).actions (hb y hy).actions heq
  have hlength (n : ℕ) : (bytesLE 8 n).length < 2 ^ 32 := by
    rw [length_bytesLE]
    decide
  obtain ⟨httl, hrest⟩ := optional_append_eq (fun t ht u hu r s heq => by
    obtain ⟨hbytes, hrest⟩ := bytes_append_inj (hlength t) (hlength u) heq
    exact ⟨bytesLE_inj ((ha x hx).ttl t ht) ((hb y hy).ttl u hu) hbytes, hrest⟩) heq
  exact ⟨⟨hcapabilities, hactions, httl⟩, hrest⟩

variable [Contents] {d e : DelegatorIdentity} {p q : DelegationPayload}

theorem keyInput_inj
    (hp : ShortComponents d p) (hq : ShortComponents e q) (h : keyInput d p = keyInput e q) :
    d = e ∧ SameDelegation p q := by
  simp only [keyInput, List.append_assoc] at h
  have hdomain : keyDomain.length < 2 ^ 32 := by decide
  obtain ⟨-, h⟩ := bytes_append_inj hdomain hdomain h
  obtain ⟨hinstance, h⟩ := str_append_inj hp.instanceName hq.instanceName h
  obtain ⟨hendpoint, h⟩ := str_append_inj hp.tokenEndpoint hq.tokenEndpoint h
  obtain ⟨hclient, h⟩ := str_append_inj hp.clientId hq.clientId h
  obtain ⟨hsubject, h⟩ := tag_append_inj h
  obtain ⟨hbearer, h⟩ := str_append_inj hp.bearerToken hq.bearerToken h
  obtain ⟨hrole, h⟩ := encodeActorRole_append_inj hp.actorRole hq.actorRole h
  obtain ⟨hactor, h⟩ := str_append_inj hp.actorToken hq.actorToken h
  obtain ⟨htarget, h⟩ := str_append_inj hp.targetName hq.targetName h
  obtain ⟨htag, h⟩ := tag_append_inj h
  obtain ⟨hname, h⟩ := optStr_append_inj hp.targetType hq.targetType h
  obtain ⟨haudience, h⟩ := optStr_append_inj hp.targetAudience hq.targetAudience h
  obtain ⟨hpermissions, h⟩ := set_append_inj hp.requiredPermissions hq.requiredPermissions h
  obtain ⟨htrust, h⟩ := optStr_append_inj hp.trustDomain hq.trustDomain h
  obtain ⟨henforced, h⟩ := tag_append_inj h
  obtain ⟨hattenuation, -⟩ :=
    encodeAttenuation_append_inj hp.routeAttenuation hq.routeAttenuation
      (congrArg (· ++ []) h)
  have hidentity : d = e := by
    cases d
    cases e
    rw [DelegatorIdentity.mk.injEq]
    exact ⟨hinstance, hendpoint, hclient⟩
  exact ⟨hidentity,
    { subject := subjectTag_injective hsubject
      bearerToken := hbearer
      actorRole := hrole
      actorToken := hactor
      targetName := htarget
      targetType := targetTypeTag_injective (Prod.ext htag hname)
      targetAudience := haudience
      requiredPermissions := hpermissions
      trustDomain := htrust
      authEnforcedBy := authEnforcedByTag_injective henforced
      routeAttenuation := hattenuation }⟩

theorem derive_inj {Tag : Type} {secret : List UInt8 → Tag} (hsecret : Function.Injective secret)
    {key : Tag} (hp : ShortComponents d p)
    (hq : ShortComponents e q) (hkey : derive secret d p = .ok key)
    (hkey' : derive secret e q = .ok key) : d = e ∧ SameDelegation p q := by
  obtain ⟨-, -, hd⟩ := derive_eq_ok.1 hkey
  obtain ⟨-, -, he⟩ := derive_eq_ok.1 hkey'
  exact keyInput_inj hp hq (hsecret (hd.trans he.symm))

end ReadingBack

end PraxisPolicy
