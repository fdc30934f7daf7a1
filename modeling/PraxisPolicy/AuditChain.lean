import PraxisPolicy.OcsfEvents
import PraxisPolicy.StepRuns

/-!
# The attestation chain

Numbering, hashing and moving the chain on happen under one lock, signing after it.
`signingInput` is the verifier's side: it recovers the hashed bytes from a record.
-/

namespace PraxisPolicy

open JsonValues StepRuns

section Emitter

/-- The predecessor that a record names. -/
structure PrevRef where
  uid : String
  typeUid : ℤ
  fingerprint : String
  deriving DecidableEq, Repr

structure ChainState where
  seq : ℕ
  prev : Option PrevRef
  deriving DecidableEq, Repr

structure Signed where
  signature : String
  keyId : Option String
  digitalSignature : KeyedJson

structure OcsfAuditEmitter where
  config : OcsfAuditConfig
  chainUid : String
  sign : List UInt8 → Option Signed

def jsonInt (n : ℤ) : Json := .number (if 0 ≤ n then .posInt n.toNat else .negInt n)

def padded (n : ℕ) : String :=
  String.ofList (List.replicate (6 - (toString n).length) '0') ++ toString n

def fingerprintObj (value : String) : Json :=
  .object [("algorithm_id", jsonNat 3), ("algorithm", .string "SHA-256"),
    ("encoding_id", jsonNat 1), ("encoding", .string "Hex"),
    ("serialization_id", jsonNat 2), ("serialization", .string "JCS"), ("value", .string value)]

def prevEventJson (prev : PrevRef) : Json :=
  .object [("uid", .string prev.uid), ("type_uid", jsonInt prev.typeUid),
    ("fingerprint", fingerprintObj prev.fingerprint)]

/-- The event as it is hashed, its bytes, and what the next record will say of it. -/
structure Linked where
  out : Json
  bytes : List UInt8
  ref : PrevRef

def ChainState.advance (chain : ChainState) (linked : Linked) : ChainState :=
  ⟨(chain.seq + 1) % 2 ^ 64, some linked.ref⟩

variable [AuditLibrary]

def fingerprintValue (bytes : List UInt8) : String :=
  String.ofList ((AuditLibrary.sha256 bytes).flatMap fun b => hexByte b.toNat)

namespace OcsfAuditEmitter

variable (emitter : OcsfAuditEmitter)

def recordUid (seq : ℕ) : String := emitter.chainUid ++ "-" ++ padded seq

def attestation (chain : ChainState) : Members :=
  insertSomes
    [("uid", .string (emitter.chainUid ++ "-att-" ++ padded chain.seq)),
      ("chain_uid", .string emitter.chainUid)]
    [("authority_uid", emitter.config.authorityUid.map .string),
      ("prev_event", chain.prev.map prevEventJson)]

/-- The part of `wrap_in_chain` under the lock. -/
def link (chain : ChainState) (event : Json) : Linked :=
  let typeUid := match follow event [.key "type_uid"] with
    | some (.number n) => n.asI64.getD 0
    | _ => 0
  let named := event.modify "metadata" (Json.insert "uid" (.string (emitter.recordUid chain.seq)))
  let out := Json.insert "attestation_list" (.array [.object (emitter.attestation chain)]) named
  let bytes := canonicalBytes out
  ⟨out, bytes, ⟨emitter.recordUid chain.seq, typeUid, fingerprintValue bytes⟩⟩

/-- The part after it: sign, and fill in what the signature does not cover. -/
def fill (linked : Linked) : Json :=
  let signed := emitter.sign linked.bytes
  let out := linked.out.modify "attestation_list" (Json.modifyFirst (Json.mapMembers (insertSomes ·
    [("fingerprint", some (fingerprintObj linked.ref.fingerprint)),
      ("signatures", signed.map fun signed => .array [signed.digitalSignature.1])])))
  match signed with
  | none => out
  | some signed => Json.entry "unmapped" (.object []) (Json.mapMembers (insertSomes ·
      [("signature_b64", some (.string signed.signature)),
        ("signature_key_id", signed.keyId.map .string)])) out

end OcsfAuditEmitter

def stripped (event : Json) : Json :=
  (event.modify "attestation_list" (Json.modifyFirst fun att =>
    (att.remove "fingerprint").remove "signatures")).modify "unmapped" fun un =>
      (un.remove "signature_b64").remove "signature_key_id"

/-- The record as it was hashed. -/
def signingView (event : Json) : Json :=
  match follow (stripped event) [.key "unmapped"] with
  | some (.object []) => (stripped event).remove "unmapped"
  | _ => stripped event

def signingInput (event : Json) : List UInt8 := canonicalBytes (signingView event)

end Emitter

section Calls

variable [Contents] [SlotRecords] [AuditLibrary]

inductive BuildCall where
  | build (payload : List ContentPart) (ext : Extensions) (nowRfc3339 : String)
  | buildDecision (payload : Option (List ContentPart)) (ext : Extensions)
      (decisions : DecisionLog) (nowRfc3339 : String)

def BuildCall.event (config : OcsfAuditConfig) : BuildCall → Json
  | .build payload ext nowRfc3339 => buildEvent (some payload) ext config nowRfc3339
  | .buildDecision payload ext decisions nowRfc3339 =>
    applyDecision (buildEvent payload ext config nowRfc3339) decisions

/-- A record with the bytes that were hashed and signed for it, if any. -/
structure ReturnedRecord where
  record : Json
  bytes : Option (List UInt8)

structure EmitterState where
  chain : ChainState
  /-- The calls that are past the lock, by an id. -/
  building : List (ℕ × Linked)
  returned : List ReturnedRecord
  /-- What left the lock, in that order. -/
  linked : List Linked

def EmitterState.start : EmitterState := ⟨⟨0, none⟩, [], [], []⟩

inductive ChainEvent where
  /-- A call builds its event and goes through the lock. -/
  | call (id : ℕ) (call : BuildCall)
  /-- It signs, fills in and returns. -/
  | finish (id : ℕ)

def ChainEvent.isCall : ChainEvent → Bool
  | .call _ _ => true
  | .finish _ => false

def OcsfAuditEmitter.step (emitter : OcsfAuditEmitter) (s : EmitterState) :
    ChainEvent → EmitterState
  | .call id call =>
    let event := call.event emitter.config
    if !emitter.config.chain then { s with returned := s.returned ++ [⟨event, none⟩] }
    else if (s.building.lookup id).isSome then s
    else
      let linked := emitter.link s.chain event
      { s with
        chain := s.chain.advance linked
        building := s.building ++ [(id, linked)]
        linked := s.linked ++ [linked] }
  | .finish id => match s.building.lookup id with
    | none => s
    | some linked =>
      { s with
        building := s.building.eraseP fun e => e.1 == id
        returned := s.returned ++ [⟨emitter.fill linked, some linked.bytes⟩] }

end Calls

def uidOf (record : Json) : Option Json := follow record [.key "metadata", .key "uid"]

def typeUidOf (record : Json) : Option Json := follow record [.key "type_uid"]

def fingerprintOf (record : Json) : Option Json :=
  follow record [.key "attestation_list", .index 0, .key "fingerprint"]

def prevEventOf (record : Json) : Option Json :=
  follow record [.key "attestation_list", .index 0, .key "prev_event"]

/-- The predecessor is named by its uid, type and fingerprint alone. -/
def LinksTo (record prev : Json) : Prop :=
  ∃ uid typeUid fingerprint, uidOf prev = some uid ∧ typeUidOf prev = some typeUid ∧
    fingerprintOf prev = some fingerprint ∧ prevEventOf record =
      some (.object [("uid", uid), ("type_uid", typeUid), ("fingerprint", fingerprint)])

/-- Records in an order in which each follows the one before. -/
structure Unbroken (records : List Json) : Prop where
  named : ∀ record ∈ records, ∃ uid, uidOf record = some (.string uid)
  distinct : (records.map uidOf).Nodup
  first : ∀ record, records[0]? = some record → prevEventOf record = none
  linked : ∀ (i : ℕ) (prev record : Json), records[i]? = some prev →
    records[i + 1]? = some record → LinksTo record prev

structure Verifies [AuditLibrary] (record : Json) (bytes : List UInt8) : Prop where
  input : signingInput record = bytes
  fingerprint : follow record [.key "attestation_list", .index 0, .key "fingerprint", .key "value"] =
    some (.string (fingerprintValue (signingInput record)))

end PraxisPolicy
