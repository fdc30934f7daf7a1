import PraxisPolicy.AuditChain
import PraxisPolicy.EventShapes

/-!
# An unbroken, verifiable chain

The members that signing adds are the ones the verifier takes away again, and the lock lets the
calls through one by one.
-/

namespace PraxisPolicy

open JsonValues StepRuns
open Json (SameValue)

theorem ofDigitChars_padded (n : ℕ) : Nat.ofDigitChars 10 (padded n).toList 0 = n := by
  have hzeros : ∀ k, Nat.ofDigitChars 10 (List.replicate k '0') 0 = 0 := by
    intro k
    induction k with
    | zero => rfl
    | succ k ih => exact ih
  rw [padded, String.toList_append, String.toList_ofList, Nat.ofDigitChars_append, hzeros,
    Nat.toString_eq_repr, Nat.toList_repr, Nat.ofDigitChars_ten_toDigits]

theorem recordUid_injective (emitter : OcsfAuditEmitter) :
    Function.Injective emitter.recordUid := by
  intro m n h
  have htail : padded m = padded n := by
    rw [← String.toList_inj] at h ⊢
    simpa [OcsfAuditEmitter.recordUid] using h
  rw [← ofDigitChars_padded m, htail, ofDigitChars_padded]

section Records

/-- The event as it is hashed, with an attestation to be filled in. -/
structure Hashed (os : Members) (uid : String) (typeUid : ℕ) (att : Members) : Prop where
  keyed : Json.Keyed (.object os)
  attestation : os.lookup "attestation_list" = some (.array [.object att])
  unfinished : att.lookup "fingerprint" = none ∧ att.lookup "signatures" = none
  typeUid : os.lookup "type_uid" = some (jsonNat typeUid)
  metadata : ∃ metadata, os.lookup "metadata" = some (.object metadata) ∧
    metadata.lookup "uid" = some (.string uid)
  unmapped : Unsigned os

theorem keyed_fingerprintObj (value : String) : (fingerprintObj value).Keyed := by
  simp [fingerprintObj]

theorem keyed_attestation (emitter : OcsfAuditEmitter) (chain : ChainState) :
    Json.Keyed (.object (emitter.attestation chain)) := by
  have hprev : ∀ prev, (prevEventJson prev).Keyed := by
    simp [prevEventJson, jsonInt, keyed_fingerprintObj]
  refine Json.Keyed.insertSomes (by simp) ?_
  simp only [List.forall_mem_cons]
  exact ⟨.map .string _, .map hprev _, by simp⟩

theorem lookup_attestation_prev (emitter : OcsfAuditEmitter) (chain : ChainState) :
    (emitter.attestation chain).lookup "prev_event" = chain.prev.map prevEventJson := by
  have hsplit : ∀ ms : Members, ∀ authority prev : Option Json,
      insertSomes ms [("authority_uid", authority), ("prev_event", prev)] =
        insertSomes (insertSomes ms [("authority_uid", authority)]) [("prev_event", prev)] :=
    fun _ _ _ => rfl
  rw [OcsfAuditEmitter.attestation, hsplit, lookup_insertSomes_singleton,
    lookup_insertSomes_of_ne (by simp)]
  cases chain.prev <;> rfl

theorem remove_remove_insertSomes {ms : Members} {key other : String} {v : Json}
    (hne : key ≠ other) (hkey : ms.lookup key = none) (hother : ms.lookup other = none)
    (value : Option Json) :
    ((Json.object (insertSomes ms [(key, some v), (other, value)])).remove key).remove other =
      .object ms := by
  apply congrArg Json.object
  cases value with
  | none =>
    change removeMember (removeMember (insertMember ms key v) key) other = ms
    rw [removeMember_insertMember hkey, removeMember_eq_self hother]
  | some w =>
    change removeMember (removeMember (insertMember (insertMember ms key v) other w) key) other = ms
    rw [removeMember_insertMember_of_ne hne.symm, removeMember_insertMember hkey,
      removeMember_insertMember hother]

/-! What is filled in behind the hash, and what the verifier takes away again. -/

abbrev withPrint (fingerprint : Json) (signatures : Option Json) (att : Members) : Members :=
  insertSomes att [("fingerprint", some fingerprint), ("signatures", signatures)]

abbrev withoutPrint (att : Json) : Json := (att.remove "fingerprint").remove "signatures"

abbrev withSignature (signature : Json) (keyId : Option Json) (un : Members) : Members :=
  insertSomes un [("signature_b64", some signature), ("signature_key_id", keyId)]

abbrev withoutSignature (un : Json) : Json := (un.remove "signature_b64").remove "signature_key_id"

variable {os att : Members} {uid : String} {typeUid : ℕ}

theorem Hashed.restored_attestation (h : Hashed os uid typeUid att) (fingerprint : Json)
    (signatures : Option Json) :
    modifyMember (modifyMember os "attestation_list"
        (Json.modifyFirst (Json.mapMembers (withPrint fingerprint signatures))))
      "attestation_list" (Json.modifyFirst withoutPrint) = os := by
  rw [modifyMember_modifyMember]
  refine modifyMember_eq_self (Json.keyed_object.1 h.keyed).1 fun v hv => ?_
  rw [h.attestation] at hv
  cases hv
  simp only [Json.modifyFirst, Json.mapMembers_object]
  rw [withoutPrint, remove_remove_insertSomes (by simp) h.unfinished.1 h.unfinished.2]

theorem Hashed.restored_unmapped (h : Hashed os uid typeUid att) :
    modifyMember os "unmapped" withoutSignature = os := by
  refine modifyMember_eq_self (Json.keyed_object.1 h.keyed).1 fun un hun => ?_
  obtain ⟨us, rfl, -, hsignature, hkeyId⟩ := h.unmapped un hun
  rw [withoutSignature, Json.remove_object, Json.remove_object, removeMember_eq_self hsignature,
    removeMember_eq_self hkeyId]

theorem signingView_object (rs : Members) :
    signingView (.object rs) =
      let stripped := modifyMember (modifyMember rs "attestation_list"
        (Json.modifyFirst withoutPrint)) "unmapped" withoutSignature
      match stripped.lookup "unmapped" with
      | some (.object []) => .object (removeMember stripped "unmapped")
      | _ => .object stripped := by
  have hfollow : ∀ ms : Members, follow (.object ms) [.key "unmapped"] = ms.lookup "unmapped" := by
    intro ms
    simp [follow]
  dsimp only
  rw [← hfollow]
  rfl

theorem Hashed.kept_unmapped (h : Hashed os uid typeUid att) :
    (match os.lookup "unmapped" with
      | some (.object []) => Json.object (removeMember os "unmapped")
      | _ => .object os) = .object os := by
  split
  next hun =>
    obtain ⟨us, heq, hne, -⟩ := h.unmapped _ hun
    cases heq
    exact absurd rfl hne
  next => rfl

theorem Hashed.signingView_signed (h : Hashed os uid typeUid att) (fingerprint : Json)
    (signatures : Option Json) (signature : Json) (keyId : Option Json) :
    signingView (.object (entryMember (modifyMember os "attestation_list"
      (Json.modifyFirst (Json.mapMembers (withPrint fingerprint signatures)))) "unmapped"
        (.object []) (Json.mapMembers (withSignature signature keyId)))) = .object os := by
  rw [signingView_object, modifyMember_entryMember_of_ne (by simp), h.restored_attestation]
  simp only
  cases hun : os.lookup "unmapped" with
  | none =>
    -- The object was created for the signature, and goes with it.
    have hentry : modifyMember (entryMember os "unmapped" (.object [])
        (Json.mapMembers (withSignature signature keyId))) "unmapped" withoutSignature =
        insertMember os "unmapped" (.object []) := by
      rw [entryMember, hun, if_neg (by simp), modifyMember_insertMember hun]
      rw [Json.mapMembers_object, withoutSignature, remove_remove_insertSomes (by simp) rfl rfl]
    rw [hentry, lookup_insertMember, if_pos rfl]
    exact congrArg Json.object (removeMember_insertMember hun)
  | some un =>
    obtain ⟨us, rfl, -, hsignature, hkeyId⟩ := h.unmapped un hun
    have hentry : modifyMember (entryMember os "unmapped" (.object [])
        (Json.mapMembers (withSignature signature keyId))) "unmapped" withoutSignature = os := by
      rw [entryMember, hun, if_pos (by simp), modifyMember_modifyMember]
      refine modifyMember_eq_self (Json.keyed_object.1 h.keyed).1 fun v hv => ?_
      rw [hun] at hv
      cases hv
      exact remove_remove_insertSomes (by simp) hsignature hkeyId _
    rw [hentry]
    exact h.kept_unmapped

/-- Only the attestation and `unmapped` differ from what was hashed, and the verifier gets that
back. -/
structure Filled (os att : Members) (fingerprint : Json) (rs : Members) : Prop where
  keyed : Json.Keyed (.object rs)
  restored : signingView (.object rs) = .object os
  kept : ∀ key, key ≠ "attestation_list" → key ≠ "unmapped" → rs.lookup key = os.lookup key
  attestation : ∃ signatures, rs.lookup "attestation_list" = some (.array [.object
    (withPrint fingerprint signatures att)])

theorem Hashed.filled (h : Hashed os uid typeUid att) (emitter : OcsfAuditEmitter)
    (bytes : List UInt8) (ref : PrevRef) :
    ∃ rs, emitter.fill ⟨.object os, bytes, ref⟩ = .object rs ∧
      Filled os att (fingerprintObj ref.fingerprint) rs := by
  set signatures := (emitter.sign bytes).map fun signed =>
    Json.array [signed.digitalSignature.1] with hsignatures
  set attested := modifyMember os "attestation_list" (Json.modifyFirst
    (Json.mapMembers (withPrint (fingerprintObj ref.fingerprint) signatures))) with hattested
  have hlist : attested.lookup "attestation_list" = some (.array [.object
      (withPrint (fingerprintObj ref.fingerprint) signatures att)]) := by
    rw [hattested, lookup_modifyMember, if_pos rfl, h.attestation]
    rfl
  have hkept : ∀ key, key ≠ "attestation_list" → attested.lookup key = os.lookup key := by
    intro key hkey
    rw [hattested, lookup_modifyMember, if_neg hkey]
  have hkeyed : Json.Keyed (.object attested) := by
    refine h.keyed.modifyMember fun v hv => ?_
    rw [h.attestation] at hv
    cases hv
    have hatt : Json.Keyed (.object att) := by
      simpa using h.keyed.of_lookup h.attestation
    have hvalues : Json.KeyedIfSome signatures :=
      .map (fun signed => by simpa using signed.digitalSignature.2) _
    simp only [Json.modifyFirst, Json.mapMembers_object, Json.keyed_array, List.forall_mem_cons]
    refine ⟨hatt.insertSomes ?_, by simp⟩
    simp only [List.forall_mem_cons]
    exact ⟨(keyed_fingerprintObj _).ifSome, hvalues, by simp⟩
  cases hsign : emitter.sign bytes with
  | none =>
    refine ⟨attested, ?_, hkeyed, ?_, fun key hkey _ => hkept key hkey, signatures, hlist⟩
    · simp only [OcsfAuditEmitter.fill, hsign]
      rw [hattested, hsignatures, hsign]
      rfl
    · rw [signingView_object, h.restored_attestation]
      simp only
      rw [h.restored_unmapped]
      exact h.kept_unmapped
  | some signed =>
    refine ⟨entryMember attested "unmapped" (.object []) (Json.mapMembers
      (withSignature (.string signed.signature) (signed.keyId.map .string))), ?_, ?_,
      h.signingView_signed _ _ _ _, ?_, signatures, ?_⟩
    · simp only [OcsfAuditEmitter.fill, hsign]
      rw [hattested, hsignatures, hsign]
      rfl
    · refine hkeyed.entryMember ?_
      obtain ⟨us, hus, hun, -⟩ := h.unmapped.getD h.keyed
      rw [hkept _ (by simp), hus, Json.mapMembers_object]
      refine hun.insertSomes ?_
      simp only [List.forall_mem_cons]
      exact ⟨(Json.Keyed.string _).ifSome, .map .string _, by simp⟩
    · intro key hkey hunmapped
      rw [lookup_entryMember, if_neg hunmapped, hkept key hkey]
    · rw [lookup_entryMember, if_neg (by simp), hlist]

variable [AuditLibrary]

theorem hashed_link (emitter : OcsfAuditEmitter) (chain : ChainState) {ms : Members}
    (h : EventShape ms) : ∃ os, ∃ n : ℕ, (emitter.link chain (.object ms)).out = .object os ∧
      (emitter.link chain (.object ms)).ref.typeUid = n ∧
      Hashed os (emitter.recordUid chain.seq) n (emitter.attestation chain) := by
  obtain ⟨n, hn, htype⟩ := h.typeUid
  obtain ⟨metadata, hmetadata⟩ := h.metadata
  refine ⟨insertMember (modifyMember ms "metadata" (Json.insert "uid"
    (.string (emitter.recordUid chain.seq)))) "attestation_list"
    (.array [.object (emitter.attestation chain)]), n, rfl, ?_, ?_, ?_, ?_, ?_, ?_, ?_⟩
  · simp only [OcsfAuditEmitter.link, follow, htype, Option.bind_some, jsonNat, Number.asI64,
      if_pos hn, Option.getD_some]
  · have hkeyed := h.keyed.of_lookup hmetadata
    refine Json.Keyed.insertMember (h.keyed.modifyMember fun v hv => ?_) ?_
    · rw [hmetadata] at hv
      cases hv
      exact hkeyed.insertMember (.string _)
    · simpa using keyed_attestation emitter chain
  · rw [lookup_insertMember, if_pos rfl]
  · constructor
    · rw [OcsfAuditEmitter.attestation, lookup_insertSomes_of_ne (by simp)]
      rfl
    · rw [OcsfAuditEmitter.attestation, lookup_insertSomes_of_ne (by simp)]
      rfl
  · rw [lookup_insertMember, if_neg (by simp), lookup_modifyMember, if_neg (by simp), htype]
  · refine ⟨insertMember metadata "uid" (.string (emitter.recordUid chain.seq)), ?_, ?_⟩
    · rw [lookup_insertMember, if_neg (by simp), lookup_modifyMember, if_pos rfl, hmetadata]
      rfl
    · rw [lookup_insertMember, if_pos rfl]
  · intro un hun
    rw [lookup_insertMember, if_neg (by simp), lookup_modifyMember, if_neg (by simp)] at hun
    exact h.unmapped un hun

end Records

section Verifying

theorem canonicalOrder_stripped {v : Json} (hv : v.Keyed) :
    (stripped v).Keyed ∧ canonicalOrder (stripped v) = stripped (canonicalOrder v) := by
  have hremove : ∀ key other, ∀ w : Json, w.Keyed →
      ((w.remove key).remove other).Keyed ∧
        canonicalOrder ((w.remove key).remove other) =
          ((canonicalOrder w).remove key).remove other := by
    intro key other w hw
    exact ⟨(hw.remove key).remove other, by rw [canonicalOrder_remove, canonicalOrder_remove]⟩
  have hfirst : ∀ w : Json, w.Keyed → canonicalOrder (w.modifyFirst withoutPrint) =
      (canonicalOrder w).modifyFirst withoutPrint :=
    fun w hw => canonicalOrder_modifyFirst hw fun u hu => (hremove _ _ u hu).2
  have hattested := hv.modify (f := Json.modifyFirst withoutPrint)
    (fun w hw => hw.modifyFirst fun u hu => (hremove _ _ u hu).1) "attestation_list"
  refine ⟨hattested.modify (fun w hw => (hremove _ _ w hw).1) "unmapped", ?_⟩
  rw [stripped, canonicalOrder_modify hattested (fun w hw => (hremove _ _ w hw).2),
    canonicalOrder_modify hv hfirst, stripped]

theorem canonicalOrder_signingView {v : Json} (hv : v.Keyed) :
    canonicalOrder (signingView v) = signingView (canonicalOrder v) := by
  obtain ⟨hkeyed, horder⟩ := canonicalOrder_stripped hv
  have hfollow := follow_canonicalOrder hkeyed [.key "unmapped"]
  rw [signingView, signingView, ← horder, hfollow]
  cases hun : follow (stripped v) [.key "unmapped"] with
  | none => rfl
  | some un =>
    cases un with
    | object us =>
      cases us with
      | nil => exact canonicalOrder_remove _ "unmapped"
      | cons u us =>
        have hlength : (sortMembers (orderMembers (u :: us))).length = us.length + 1 := by
          rw [(perm_sortMembers _).length_eq, orderMembers_eq_map, List.length_map,
            List.length_cons]
        simp only [Option.map_some, canonicalOrder]
        split
        next heq =>
          rw [Option.some.injEq, Json.object.injEq] at heq
          rw [heq] at hlength
          cases hlength
        next => rfl
    | _ => rfl

theorem follow_string_of_sameValue {v w : Json} (h : SameValue v w) (hv : v.Keyed)
    {π : List Step} {s : String} (hs : follow v π = some (.string s)) :
    follow w π = some (.string s) := by
  have hfollow := follow_canonicalOrder (h.keyed hv) π
  rw [← canonicalOrder_eq_of_sameValue h hv, follow_canonicalOrder hv, hs] at hfollow
  obtain ⟨u, hu, hsorted⟩ := Option.map_eq_some_iff.1 hfollow.symm
  rw [hu]
  cases u <;> simp_all [canonicalOrder]

variable [AuditLibrary]

theorem signingInput_eq_of_sameValue {v w : Json} (h : SameValue v w) (hv : v.Keyed) :
    signingInput v = signingInput w := by
  refine canonicalBytes_congr ?_
  rw [canonicalOrder_signingView hv, canonicalOrder_signingView (h.keyed hv),
    canonicalOrder_eq_of_sameValue h hv]

/-- All there is to know of the record of a call that went through the lock at `chain`. -/
structure RecordFacts (emitter : OcsfAuditEmitter) (chain : ChainState) (linked : Linked) :
    Prop where
  name : linked.ref.uid = emitter.recordUid chain.seq
  uid : uidOf (emitter.fill linked) = some (.string linked.ref.uid)
  typeUid : typeUidOf (emitter.fill linked) = some (jsonInt linked.ref.typeUid)
  fingerprint : fingerprintOf (emitter.fill linked) =
    some (fingerprintObj linked.ref.fingerprint)
  prev : prevEventOf (emitter.fill linked) = chain.prev.map prevEventJson
  verifies : ∀ parsed, SameValue (emitter.fill linked) parsed → Verifies parsed linked.bytes

theorem recordFacts_link (emitter : OcsfAuditEmitter) (chain : ChainState) {ms : Members}
    (h : EventShape ms) : RecordFacts emitter chain (emitter.link chain (.object ms)) := by
  obtain ⟨os, n, hout, htype, hhashed⟩ := hashed_link emitter chain h
  set linked := emitter.link chain (.object ms) with hlinked
  have hbytes : linked.bytes = canonicalBytes linked.out := rfl
  have hprint : linked.ref.fingerprint = fingerprintValue linked.bytes := rfl
  obtain ⟨rs, hfill, hfilled⟩ := hhashed.filled emitter linked.bytes linked.ref
  rw [← hout] at hfill
  change emitter.fill linked = .object rs at hfill
  obtain ⟨signatures, hlist⟩ := hfilled.attestation
  obtain ⟨metadata, hmetadata, huid⟩ := hhashed.metadata
  have hattested : ∀ π, follow (.object rs) (.key "attestation_list" :: .index 0 :: π) =
      follow (.object (withPrint (fingerprintObj linked.ref.fingerprint) signatures
        (emitter.attestation chain))) π := by
    intro π
    simp [follow, hlist]
  have hprinted : (withPrint (fingerprintObj linked.ref.fingerprint) signatures
      (emitter.attestation chain)).lookup "fingerprint" =
        some (fingerprintObj linked.ref.fingerprint) := by
    change (insertSomes (insertMember _ "fingerprint" _) [("signatures", signatures)]).lookup _ = _
    rw [lookup_insertSomes_of_ne (by simp), lookup_insertMember, if_pos rfl]
  refine ⟨rfl, ?_, ?_, ?_, ?_, ?_⟩
  · rw [hfill, uidOf]
    simp only [follow, hfilled.kept "metadata" (by simp) (by simp), hmetadata, Option.bind_some,
      huid]
    rfl
  · rw [hfill, typeUidOf, htype]
    simp only [follow, hfilled.kept "type_uid" (by simp) (by simp), hhashed.typeUid,
      Option.bind_some]
    simp [jsonInt, jsonNat]
  · rw [hfill, fingerprintOf, hattested]
    simp only [follow, hprinted, Option.bind_some]
  · have hprev : (withPrint (fingerprintObj linked.ref.fingerprint) signatures
        (emitter.attestation chain)).lookup "prev_event" = chain.prev.map prevEventJson := by
      rw [lookup_insertSomes_of_ne (by simp), lookup_attestation_prev]
    rw [hfill, prevEventOf, hattested]
    simp only [follow, hprev]
    cases chain.prev <;> rfl
  · intro parsed hparsed
    rw [hfill] at hparsed
    have hinput : signingInput parsed = linked.bytes := by
      rw [← signingInput_eq_of_sameValue hparsed hfilled.keyed, signingInput, hfilled.restored,
        hbytes, hout]
    refine ⟨hinput, follow_string_of_sameValue hparsed hfilled.keyed ?_⟩
    rw [hattested, hinput, ← hprint]
    simp only [follow, hprinted, Option.bind_some]
    rfl

end Verifying

section Chain

variable [AuditLibrary] {emitter : OcsfAuditEmitter} {s : EmitterState}

/-- Whoever went through the lock is where the chain says, and its record was returned or will be.
-/
structure ChainKept (emitter : OcsfAuditEmitter) (s : EmitterState) : Prop where
  seq : s.chain.seq = s.linked.length % 2 ^ 64
  prev : s.chain.prev = s.linked.getLast?.map Linked.ref
  facts : ∀ (i : ℕ) (linked : Linked), s.linked[i]? = some linked →
    RecordFacts emitter ⟨i % 2 ^ 64, (s.linked.take i).getLast?.map Linked.ref⟩ linked
  placed : ∃ done : List Linked,
    s.returned = done.map (fun linked => ⟨emitter.fill linked, some linked.bytes⟩) ∧
      (done ++ s.building.map Prod.snd).Perm s.linked

theorem ChainKept.start : ChainKept emitter .start :=
  ⟨rfl, rfl, by simp [EmitterState.start], [], rfl, .refl _⟩

theorem ChainKept.finish (h : ChainKept emitter s) {id : ℕ} {linked : Linked}
    (hlookup : s.building.lookup id = some linked) :
    ChainKept emitter { s with
      building := s.building.eraseP fun e => e.1 == id
      returned := s.returned ++ [⟨emitter.fill linked, some linked.bytes⟩] } := by
  refine ⟨h.seq, h.prev, h.facts, ?_⟩
  obtain ⟨done, hreturned, hperm⟩ := h.placed
  refine ⟨done ++ [linked], by simp [hreturned], ?_⟩
  obtain ⟨before, after, hbuilding, hbefore⟩ := List.lookup_eq_some_iff.1 hlookup
  have herase : (s.building.eraseP fun e => e.1 == id) = before ++ after := by
    have hother : ∀ e ∈ before, ¬ (e.1 == id) = true := fun e he heq =>
      bne_iff_ne.1 (hbefore e he) (beq_iff_eq.1 heq).symm
    rw [hbuilding, List.eraseP_append_right _ hother, List.eraseP_cons_of_pos (by simp)]
  refine List.Perm.trans ?_ hperm
  rw [herase, hbuilding]
  simp only [List.map_append, List.map_cons, List.append_assoc, List.singleton_append]
  exact (List.perm_middle.symm).append_left done

theorem ChainKept.unbroken (h : ChainKept emitter s) (hcount : s.linked.length ≤ 2 ^ 64) :
    Unbroken (s.linked.map emitter.fill) := by
  refine ⟨?_, ?_, ?_, ?_⟩
  · intro record hrecord
    obtain ⟨linked, hlinked, rfl⟩ := List.mem_map.1 hrecord
    obtain ⟨i, hi⟩ := List.mem_iff_getElem?.1 hlinked
    exact ⟨_, (h.facts i linked hi).uid⟩
  · rw [List.map_map, List.Nodup, List.pairwise_iff_getElem]
    intro i j hi hj hlt heq
    rw [List.length_map] at hi hj
    have hfirst := h.facts i _ (List.getElem?_eq_getElem hi)
    have hsecond := h.facts j _ (List.getElem?_eq_getElem hj)
    simp only [List.getElem_map, Function.comp_apply] at heq
    rw [hfirst.uid, hsecond.uid, hfirst.name, hsecond.name, Option.some.injEq, Json.string.injEq]
      at heq
    have hseq : i % 2 ^ 64 = j % 2 ^ 64 := recordUid_injective emitter heq
    rw [Nat.mod_eq_of_lt (by omega), Nat.mod_eq_of_lt (by omega)] at hseq
    omega
  · intro record hrecord
    rw [List.getElem?_map] at hrecord
    obtain ⟨linked, hlinked, rfl⟩ := Option.map_eq_some_iff.1 hrecord
    exact (h.facts 0 linked hlinked).prev
  · intro i prev record hprev hrecord
    rw [List.getElem?_map] at hprev hrecord
    obtain ⟨before, hbefore, rfl⟩ := Option.map_eq_some_iff.1 hprev
    obtain ⟨linked, hlinked, rfl⟩ := Option.map_eq_some_iff.1 hrecord
    have hfacts := h.facts i before hbefore
    refine ⟨_, _, _, hfacts.uid, hfacts.typeUid, hfacts.fingerprint, ?_⟩
    rw [(h.facts (i + 1) linked hlinked).prev, List.getLast?_take]
    simp [hbefore, prevEventJson]

theorem ChainKept.perm_returned (h : ChainKept emitter s) (hreturned : s.building = []) :
    (s.linked.map emitter.fill).Perm (s.returned.map ReturnedRecord.record) := by
  obtain ⟨done, hdone, hperm⟩ := h.placed
  rw [hreturned, List.map_nil, List.append_nil] at hperm
  rw [hdone, List.map_map]
  exact (hperm.map _).symm

end Chain

section Runs

variable [Contents] [SlotRecords] [AuditLibrary] {emitter : OcsfAuditEmitter} {s : EmitterState}

theorem eventShape_event (config : OcsfAuditConfig) (call : BuildCall) :
    ∃ ms, call.event config = .object ms ∧ EventShape ms := by
  cases call with
  | build payload ext nowRfc3339 => exact eventShape_buildEvent (some payload) ext config nowRfc3339
  | buildDecision payload ext decisions nowRfc3339 =>
    obtain ⟨ms, hevent, hms⟩ := eventShape_buildEvent payload ext config nowRfc3339
    rw [BuildCall.event, hevent]
    exact hms.applyDecision decisions

theorem ChainKept.call (h : ChainKept emitter s) (id : ℕ) (call : BuildCall) :
    ChainKept emitter { s with
      chain := s.chain.advance (emitter.link s.chain (call.event emitter.config))
      building := s.building ++ [(id, emitter.link s.chain (call.event emitter.config))]
      linked := s.linked ++ [emitter.link s.chain (call.event emitter.config)] } := by
  obtain ⟨ms, hevent, hms⟩ := eventShape_event emitter.config call
  rw [hevent]
  refine ⟨?_, ?_, ?_, ?_⟩
  · simp [ChainState.advance, h.seq]
  · simp [ChainState.advance]
  · intro i linked hi
    rcases Nat.lt_or_ge i s.linked.length with hlt | hge
    · rw [List.getElem?_append_left hlt] at hi
      rw [List.take_append_of_le_length hlt.le]
      exact h.facts i linked hi
    · obtain ⟨rfl, rfl⟩ : i = s.linked.length ∧ emitter.link s.chain (.object ms) = linked := by
        rw [List.getElem?_append_right hge, List.getElem?_singleton] at hi
        split at hi
        · exact ⟨by omega, Option.some.inj hi⟩
        · cases hi
      rw [List.take_left, ← h.prev, ← h.seq]
      exact recordFacts_link emitter s.chain hms
  · obtain ⟨done, hreturned, hperm⟩ := h.placed
    refine ⟨done, hreturned, ?_⟩
    rw [List.map_append, ← List.append_assoc]
    exact hperm.append_right _

theorem ChainKept.step (hchain : emitter.config.chain = true) (h : ChainKept emitter s)
    (event : ChainEvent) : ChainKept emitter (emitter.step s event) := by
  cases event with
  | call id call =>
    simp only [OcsfAuditEmitter.step, hchain, Bool.not_true, Bool.false_eq_true, if_false]
    split
    · exact h
    · exact h.call id call
  | finish id =>
    simp only [OcsfAuditEmitter.step]
    split
    next => exact h
    next linked hlookup => exact h.finish hlookup

theorem length_linked_step (event : ChainEvent) :
    (emitter.step s event).linked.length ≤ s.linked.length + if event.isCall then 1 else 0 := by
  cases event with
  | call id call =>
    simp only [OcsfAuditEmitter.step, ChainEvent.isCall, if_true]
    split
    · simp
    · split <;> simp
  | finish id =>
    simp only [OcsfAuditEmitter.step]
    split <;> simp

theorem length_linked_run (events : List ChainEvent) :
    (run emitter.step s events).linked.length ≤
      s.linked.length + events.countP ChainEvent.isCall := by
  induction events generalizing s with
  | nil => simp [run]
  | cons event events ih =>
    have hstep : (emitter.step s event).linked.length ≤ _ := length_linked_step event
    have hrest := ih (s := emitter.step s event)
    rw [run_cons, List.countP_cons]
    omega

theorem ChainKept.run (hchain : emitter.config.chain = true) (events : List ChainEvent) :
    ChainKept emitter (StepRuns.run emitter.step .start events) :=
  invariant_run (fun _ event h => h.step hchain event) .start events

/-- Once all calls have returned, their records form one chain, and the bytes that were signed can
be recovered from each. -/
theorem chain_unbroken (emitter : OcsfAuditEmitter) (hchain : emitter.config.chain = true)
    (events : List ChainEvent) (hcount : events.countP ChainEvent.isCall ≤ 2 ^ 64)
    (hreturned : (run emitter.step .start events).building = []) :
    (∃ records, records.Perm ((run emitter.step .start events).returned.map
        ReturnedRecord.record) ∧ Unbroken records) ∧
      ∀ returned ∈ (run emitter.step .start events).returned, ∃ bytes,
        returned.bytes = some bytes ∧
          ∀ parsed, SameValue returned.record parsed → Verifies parsed bytes := by
  have hkept := ChainKept.run hchain events
  have hlength : (run emitter.step .start events).linked.length ≤ 0 + _ :=
    length_linked_run (s := .start) events
  generalize run emitter.step .start events = s at hkept hreturned hlength ⊢
  refine ⟨⟨s.linked.map emitter.fill, hkept.perm_returned hreturned, hkept.unbroken (by omega)⟩,
    fun returned hmem => ?_⟩
  obtain ⟨done, hdone, hperm⟩ := hkept.placed
  rw [hdone] at hmem
  obtain ⟨linked, hlinked, rfl⟩ := List.mem_map.1 hmem
  obtain ⟨i, hi⟩ := List.mem_iff_getElem?.1 (hperm.mem_iff.1 (List.mem_append_left _ hlinked))
  exact ⟨linked.bytes, rfl, (hkept.facts i linked hi).verifies⟩

def inSequence (n : ℕ) (call : BuildCall) : List ChainEvent :=
  (List.replicate n [.call 0 call, .finish 0]).flatten

theorem run_inSequence (hchain : emitter.config.chain = true) (call : BuildCall) (n : ℕ)
    (hs : s.building = []) :
    (run emitter.step s (inSequence n call)).building = [] ∧
      (run emitter.step s (inSequence n call)).linked.length = s.linked.length + n := by
  induction n generalizing s with
  | zero => exact ⟨hs, rfl⟩
  | succ n ih =>
    have hevents : inSequence (n + 1) call = [.call 0 call, .finish 0] ++ inSequence n call := by
      rw [inSequence, List.replicate_succ, List.flatten_cons, inSequence]
    have hcall : emitter.step s (.call 0 call) = { s with
        chain := s.chain.advance (emitter.link s.chain (call.event emitter.config))
        building := [(0, emitter.link s.chain (call.event emitter.config))]
        linked := s.linked ++ [emitter.link s.chain (call.event emitter.config)] } := by
      simp [OcsfAuditEmitter.step, hchain, hs]
    have hdone : (run emitter.step s [.call 0 call, .finish 0]).building = [] ∧
        (run emitter.step s [.call 0 call, .finish 0]).linked.length = s.linked.length + 1 := by
      rw [run_cons, hcall, run_cons]
      simp [run, OcsfAuditEmitter.step]
    obtain ⟨hbuilding, hlength⟩ := ih hdone.1
    rw [hevents, run_append]
    exact ⟨hbuilding, by omega⟩

/-- After `2 ^ 64` records the numbers start again, and so do the uids. -/
theorem not_unbroken_inSequence (hchain : emitter.config.chain = true) (call : BuildCall) {n : ℕ}
    (hn : 2 ^ 64 < n) :
    ¬ ∃ records, records.Perm ((run emitter.step .start (inSequence n call)).returned.map
      ReturnedRecord.record) ∧ Unbroken records := by
  rintro ⟨records, hrecords, hunbroken⟩
  have hkept := ChainKept.run hchain (inSequence n call)
  obtain ⟨hbuilding, hlength⟩ := run_inSequence hchain call n (s := .start) rfl
  generalize run emitter.step .start (inSequence n call) = s at *
  have hnodup := ((hrecords.trans (hkept.perm_returned hbuilding).symm).map uidOf).nodup_iff.1
    hunbroken.distinct
  have hlong : 2 ^ 64 < s.linked.length := by
    rw [hlength]
    exact Nat.lt_add_left _ hn
  have hfirst := hkept.facts 0 _ (List.getElem?_eq_getElem (by omega))
  have hlater := hkept.facts (2 ^ 64) _ (List.getElem?_eq_getElem hlong)
  rw [List.map_map, List.Nodup, List.pairwise_iff_getElem] at hnodup
  refine hnodup 0 (2 ^ 64) (by rw [List.length_map]; omega) (by rwa [List.length_map])
    (by norm_num) ?_
  simp only [List.getElem_map, Function.comp_apply]
  rw [hfirst.uid, hlater.uid, hfirst.name, hlater.name]
  rfl

end Runs

section Cases

/-! An unsigned emitter, asked twice about a request that carries nothing. -/

local instance chainContents : Contents := .plain

local instance : SlotRecords where
  request _ := ⟨none⟩
  agent _ := ⟨none, none, none, none, none⟩
  mcp _ := ⟨none, none, none⟩
  completion _ := ⟨none, none, none, none⟩
  framework _ := ⟨none, none, none, none⟩

local instance : AuditLibrary where
  formatFinite _ := "1.5"
  sha256 bytes := bytes
  toRfc3339 time := toString time.seconds
  dateTimeText time := toString time.seconds

def unsignedEmitter : OcsfAuditEmitter where
  config := ⟨"gateway", "praxis", true, none, true⟩
  chainUid := "chain"
  sign _ := none

def emptyBuild : BuildCall := .build [] .default "2026-01-01T00:00:00Z"

def deniedBuild : BuildCall :=
  .buildDecision none .default (DecisionLog.new.finalize (.deny (.new "denied" "not today")))
    "2026-01-01T00:00:01Z"

def overlapping : List ChainEvent := [.call 0 emptyBuild, .call 1 deniedBuild, .finish 1, .finish 0]

theorem chain_unbroken_overlapping :
    ∃ records, records.Perm ((run unsignedEmitter.step .start overlapping).returned.map
      ReturnedRecord.record) ∧ Unbroken records :=
  (chain_unbroken unsignedEmitter rfl overlapping (by decide) rfl).1

theorem uids_repeat :
    ∃ emitter : OcsfAuditEmitter, ∃ events : List ChainEvent, emitter.config.chain = true ∧
      (run emitter.step .start events).building = [] ∧
      ¬ ∃ records, records.Perm ((run emitter.step .start events).returned.map
        ReturnedRecord.record) ∧ Unbroken records :=
  ⟨unsignedEmitter, inSequence (2 ^ 64 + 1) emptyBuild, rfl, (run_inSequence rfl _ _ rfl).1,
    not_unbroken_inSequence rfl _ (Nat.lt_succ_self _)⟩

end Cases

end PraxisPolicy
