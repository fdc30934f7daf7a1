import PraxisPolicy.DpopProofs
import PraxisPolicy.StepRuns

/-!
# A proof is accepted for one request

A request recognises a proof it accepted by its id and not by its time: of two proofs with one id it
takes the second without the guard.
-/

namespace PraxisPolicy

open HashMaps StepRuns

section Holding

variable (verifier : DpopVerifier)

/-- The guard holds the id as long as a proof from `iat` is recent, short of the last time there is.
-/
def HeldFor (guard : ReplayState) (now : ℤ) (key : String × String) (iat : ℤ) : Prop :=
  ∀ t, now ≤ t → t < i64Max → (iat - t).natAbs ≤ verifier.config.iatWindowSeconds →
    ∃ expiry, guard.seen.lookup key = some expiry ∧ t < expiry

variable {verifier}

variable {now iat : ℤ} {guard : ReplayState} {key : String × String}

theorem HeldFor.prune {later : ℤ} (hguard : guard.Consistent)
    (h : HeldFor verifier guard now key iat) (hlater : now ≤ later) :
    HeldFor verifier (guard.prune later) later key iat := by
  intro t ht hlast hrecent
  obtain ⟨expiry, hkey, hexpiry⟩ := h t (hlater.trans ht) hlast hrecent
  refine ⟨expiry, ?_, hexpiry⟩
  rw [ReplayState.prune, hguard.prune_spec.2, hkey]
  simp [Option.filter_some, ht.trans_lt hexpiry]

theorem HeldFor.mono {later : ℤ} (h : HeldFor verifier guard now key iat) (hlater : now ≤ later) :
    HeldFor verifier guard later key iat :=
  fun t ht => h t (hlater.trans ht)

theorem HeldFor.record (h : HeldFor verifier guard now key iat) {e : ReplayEntry}
    (hnew : guard.seen.lookup (e.scope, e.id) = none) :
    HeldFor verifier (guard.record e) now key iat := by
  intro t ht hlast hrecent
  obtain ⟨expiry, hkey, hexpiry⟩ := h t ht hlast hrecent
  have hne : key ≠ (e.scope, e.id) := by
    rintro rfl
    rw [hnew] at hkey
    cases hkey
  refine ⟨expiry, ?_, hexpiry⟩
  rw [ReplayState.record, lookup_insert_eq, if_neg hne, hkey]

def replayKey (request : PopRequest) (checked : Checked) : String × String :=
  (DpopVerifier.replayScope request checked.thumbprint, checked.jti)

theorem consume_cases (request : PopRequest) (checked : Checked) :
    (∃ denial, verifier.consume guard request checked.thumbprint checked.jti =
        (.error denial, guard.prune request.now)) ∨
      (guard.prune request.now).seen.lookup (replayKey request checked) = none ∧
        verifier.consume guard request checked.thumbprint checked.jti =
          (.ok (), (guard.prune request.now).record
            ⟨verifier.retainedUntil request.now, (replayKey request checked).1,
              (replayKey request checked).2⟩) := by
  unfold DpopVerifier.consume ReplayState.firstUse
  dsimp only
  split_ifs with hseen
  · exact .inl ⟨_, rfl⟩
  · exact .inl ⟨_, rfl⟩
  · exact .inl ⟨_, rfl⟩
  · exact .inr ⟨Option.not_isSome_iff_eq_none.1 hseen, rfl⟩

end Holding

section Runs

variable [Library] [ProofLibrary]

structure DpopCall where
  context : Option ℕ
  request : PopRequest
  deriving DecidableEq

structure DpopState where
  guard : ReplayState
  contexts : ℕ → ProofRecords
  /-- The calls that were accepted, the latest first. -/
  accepted : List DpopCall

namespace DpopState

def new : DpopState := ⟨.empty, fun _ => ∅, []⟩

def note (call : DpopCall) (result : Except PopDenial KeyBinding) (accepted : List DpopCall) :
    List DpopCall :=
  if result.isOk then call :: accepted else accepted

def step (verifier : DpopVerifier) (s : DpopState) (call : DpopCall) : DpopState :=
  match call.context with
  | none =>
    let done := verifier.verify s.guard call.request
    { s with guard := done.2, accepted := note call done.1 s.accepted }
  | some n =>
    let done := verifier.verifyIn s.guard (s.contexts n) call.request
    { guard := done.2.1
      contexts := Function.update s.contexts n done.2.2
      accepted := note call done.1 s.accepted }

end DpopState

section Steps

variable (verifier : DpopVerifier)

/-- What a call does. -/
inductive DpopMove (s : DpopState) (call : DpopCall) : DpopState → Prop
  | refused (guard : ReplayState) (h : guard = s.guard ∨ guard = s.guard.prune call.request.now) :
      DpopMove s call { s with guard := guard }
  | consumed (checked : Checked) (contexts : ℕ → ProofRecords)
      (hcheck : verifier.check call.request = .ok checked)
      (hnew : (s.guard.prune call.request.now).seen.lookup (replayKey call.request checked) = none)
      (hcontexts : ∀ n key, (contexts n).lookup key = (s.contexts n).lookup key ∨
        call.context = some n ∧
          (contexts n).lookup key = some (verifier.record call.request checked)) :
      DpopMove s call
        { guard := (s.guard.prune call.request.now).record
            ⟨verifier.retainedUntil call.request.now, (replayKey call.request checked).1,
              (replayKey call.request checked).2⟩
          contexts := contexts
          accepted := call :: s.accepted }
  | reused (n : ℕ) (checked : Checked) (key : String) (stored : ProofRecord)
      (hcontext : call.context = some n) (hcheck : verifier.check call.request = .ok checked)
      (hstored : (s.contexts n).lookup key = some stored)
      (hreusable : (verifier.record call.request checked).reusable stored call.request.now = true) :
      DpopMove s call { s with accepted := call :: s.accepted }

variable {verifier}

theorem dpopMove_verifyIn {s : DpopState} {call : DpopCall} {n : ℕ}
    (hcontext : call.context = some n) : DpopMove verifier s call (s.step verifier call) := by
  unfold DpopState.step
  rw [hcontext]
  dsimp only
  cases hcheck : verifier.check call.request with
  | error denial =>
    simp only [DpopVerifier.verifyIn, hcheck, Function.update_eq_self]
    exact .refused s.guard (.inl rfl)
  | ok checked =>
    simp only [DpopVerifier.verifyIn, hcheck]
    split_ifs with hrecorded
    · obtain ⟨stored, hstored, hreusable⟩ := (Option.any_eq_true _ _).mp hrecorded
      simp only [Function.update_eq_self]
      exact .reused n checked _ stored hcontext hcheck hstored hreusable
    · obtain ⟨denial, hused⟩ | ⟨hnew, hused⟩ := consume_cases call.request checked
      · have hused : verifier.consume s.guard call.request
            (verifier.record call.request checked).thumbprint
            (verifier.record call.request checked).jti = _ := hused
        simp only [hused, Function.update_eq_self]
        exact .refused _ (.inr rfl)
      · have hused : verifier.consume s.guard call.request
            (verifier.record call.request checked).thumbprint
            (verifier.record call.request checked).jti = _ := hused
        simp only [hused]
        refine .consumed checked _ hcheck hnew fun m key => ?_
        by_cases hm : m = n
        · subst hm
          rw [Function.update_self, lookup_insert_eq]
          split_ifs
          · exact .inr ⟨hcontext, rfl⟩
          · exact .inl rfl
        · rw [Function.update_of_ne hm]
          exact .inl rfl

theorem dpopMove_step {s : DpopState} (call : DpopCall) :
    DpopMove verifier s call (s.step verifier call) := by
  cases hcontext : call.context with
  | none =>
    unfold DpopState.step
    rw [hcontext]
    dsimp only
    cases hcheck : verifier.check call.request with
    | error denial =>
      simp only [DpopVerifier.verify, hcheck]
      exact .refused s.guard (.inl rfl)
    | ok checked =>
      simp only [DpopVerifier.verify, hcheck]
      obtain ⟨denial, hused⟩ | ⟨hnew, hused⟩ := consume_cases call.request checked
      · rw [hused]
        exact .refused _ (.inr rfl)
      · rw [hused]
        exact .consumed checked s.contexts hcheck hnew fun n key => .inl rfl
  | some n => exact dpopMove_verifyIn hcontext

end Steps

/-- Whatever the clock and the requests do, the indexes of the guard agree and its bounds are kept.
-/
theorem guard_within_limits (verifier : DpopVerifier) (calls : List DpopCall) :
    (run (DpopState.step verifier) .new calls).guard.Within verifier.limits := by
  refine invariant_run (I := fun s : DpopState => s.guard.Within verifier.limits) ?_ ?_ calls
  · intro s call h
    have hconsume : ∀ thumbprint jti,
        (verifier.consume s.guard call.request thumbprint jti).2.Within verifier.limits := by
      intro thumbprint jti
      unfold DpopVerifier.consume
      dsimp only
      split <;> exact h.firstUse _ _ _ _
    simp only [DpopState.step, DpopVerifier.verify, DpopVerifier.verifyIn]
    repeat' split
    all_goals first
      | exact h
      | exact hconsume _ _
  · exact ⟨ReplayState.consistent_empty, Nat.zero_le _, fun _ => Nat.zero_le _⟩

section Conditions

variable (verifier : DpopVerifier)

structure Passed (call : DpopCall) (claims : ProofClaims) (checked : Checked) : Prop where
  check : verifier.check call.request = .ok checked
  proof : ∃ proof, call.request.proof = some proof ∧
    proofThumbprint proof = .ok checked.thumbprint ∧
    proofClaims verifier.config proof = .ok claims
  bound : checked.thumbprint = call.request.boundThumbprint
  claims : PassedClaims verifier.config call.request claims checked

/-- Times and windows that do not saturate, one issuer for each token, and within a request one time
for each proof id of a key. -/
structure FitCalls (calls : List DpopCall) : Prop where
  inRange : ∀ c ∈ calls, c.request.now < i64Max ∧
    (0 ≤ c.request.now ∨ 2 * (verifier.config.iatWindowSeconds : ℤ) + 1 ≤ i64Max)
  minted : ∀ a ∈ calls, ∀ b ∈ calls, a.request.accessToken = b.request.accessToken →
    a.request.issuer = b.request.issuer
  ids : ∀ a ∈ calls, ∀ b ∈ calls, a.context = b.context → a.context.isSome = true →
    ∀ p q thumbprint claims claims', a.request.proof = some p → b.request.proof = some q →
    proofThumbprint p = .ok thumbprint → proofThumbprint q = .ok thumbprint →
    proofClaims verifier.config p = .ok claims → proofClaims verifier.config q = .ok claims' →
    claims.jti = claims'.jti → claims.iat = claims'.iat

variable {verifier} {checked : Checked} {a b : DpopCall} {claims claims' : ProofClaims}
  {checked' : Checked}

theorem passed_of_check {call : DpopCall} (h : verifier.check call.request = .ok checked) :
    ∃ claims, Passed verifier call claims checked := by
  have hcheck := h
  unfold DpopVerifier.check at h
  simp only [bind, Except.bind] at h
  split at h
  case h_2 => cases h
  case h_1 proof hproof =>
    split_ifs at h
    split at h
    case h_1 => cases h
    case h_2 thumbprint hthumbprint =>
      split_ifs at h with hbound
      split at h
      case h_1 => cases h
      case h_2 claims hclaims =>
        obtain ⟨rfl, hpassed⟩ := passedClaims_of_checkClaims h
        exact ⟨claims, hcheck, ⟨proof, hproof, hthumbprint, hclaims⟩, hbound, hpassed⟩

theorem Passed.claims_eq {call : DpopCall}
    (h : Passed verifier call claims checked) (h' : Passed verifier call claims' checked') :
    claims = claims' ∧ checked = checked' := by
  obtain ⟨proof, hproof, -, hclaims⟩ := h.proof
  obtain ⟨proof', hproof', -, hclaims'⟩ := h'.proof
  rw [hproof] at hproof'
  cases hproof'
  rw [hclaims] at hclaims'
  have hchecked := h.check.symm.trans h'.check
  exact ⟨Except.ok.inj hclaims', Except.ok.inj hchecked⟩

/-- The calls carry one proof for one issuer, as far as the claims tell. -/
def SameProof (verifier : DpopVerifier) (a b : DpopCall) : Prop :=
  a.request.issuer = b.request.issuer ∧
    ∃ claims claims' checked checked', Passed verifier a claims checked ∧
      Passed verifier b claims' checked' ∧ checked.thumbprint = checked'.thumbprint ∧
      checked.jti = checked'.jti ∧ claims.iat = claims'.iat

theorem SameProof.symm (h : SameProof verifier a b) :
    SameProof verifier b a := by
  obtain ⟨hissuer, claims, claims', checked, checked', ha, hb, hthumbprint, hjti, hiat⟩ := h
  exact ⟨hissuer.symm, claims', claims, checked', checked, hb, ha, hthumbprint.symm, hjti.symm,
    hiat.symm⟩

theorem SameProof.trans {c : DpopCall} (h : SameProof verifier a b)
    (h' : SameProof verifier b c) : SameProof verifier a c := by
  obtain ⟨hissuer, claims, _, checked, checked₁, ha, hb, hthumbprint, hjti, hiat⟩ := h
  obtain ⟨hissuer', _, claims', checked₂, checked', hb', hc, hthumbprint', hjti', hiat'⟩ := h'
  obtain ⟨rfl, rfl⟩ := hb.claims_eq hb'
  exact ⟨hissuer.trans hissuer', claims, claims', checked, checked', ha, hc,
    hthumbprint.trans hthumbprint', hjti.trans hjti', hiat.trans hiat'⟩

theorem SameProof.replayKey_eq (h : SameProof verifier a b)
    (hpa : Passed verifier a claims checked) (hpb : Passed verifier b claims' checked') :
    replayKey a.request checked = replayKey b.request checked' ∧ claims.iat = claims'.iat := by
  obtain ⟨hissuer, claims₁, claims₂, checked₁, checked₂, ha', hb', hthumbprint, hjti, hiat⟩ := h
  obtain ⟨rfl, rfl⟩ := hpa.claims_eq ha'
  obtain ⟨rfl, rfl⟩ := hpb.claims_eq hb'
  refine ⟨?_, hiat⟩
  simp only [replayKey, DpopVerifier.replayScope, hissuer, hthumbprint, hjti]

theorem FitCalls.iat_eq {calls : List DpopCall} (hfit : FitCalls verifier calls) (ha : a ∈ calls)
    (hb : b ∈ calls) (hcontext : a.context = b.context) (hsome : a.context.isSome = true)
    (hpa : Passed verifier a claims checked) (hpb : Passed verifier b claims' checked')
    (hthumbprint : checked.thumbprint = checked'.thumbprint) (hjti : checked.jti = checked'.jti) :
    claims.iat = claims'.iat := by
  obtain ⟨p, hp, hpthumb, hpclaims⟩ := hpa.proof
  obtain ⟨q, hq, hqthumb, hqclaims⟩ := hpb.proof
  refine hfit.ids a ha b hb hcontext hsome p q _ _ _ hp hq hpthumb (hthumbprint ▸ hqthumb)
    hpclaims hqclaims ?_
  rw [← hpa.claims.jti, ← hpb.claims.jti, hjti]

end Conditions

section Invariant

variable (verifier : DpopVerifier) (calls : List DpopCall)

/-- What holds between calls, the latest of which came at `now`. -/
structure SoundReplays (now : ℤ) (s : DpopState) : Prop where
  guard : s.guard.Consistent
  known : ∀ a ∈ s.accepted, a ∈ calls
  held : ∀ a ∈ s.accepted, ∃ claims checked, Passed verifier a claims checked ∧
    HeldFor verifier s.guard now (replayKey a.request checked) claims.iat
  recorded : ∀ n key record, (s.contexts n).lookup key = some record →
    ∃ a ∈ s.accepted, ∃ claims checked, a.context = some n ∧ Passed verifier a claims checked ∧
      record.issuer = a.request.issuer ∧ record.thumbprint = checked.thumbprint ∧
      record.jti = checked.jti
  apart : s.accepted.Pairwise fun later earlier => SameProof verifier later earlier →
    later.context = earlier.context ∧ later.context.isSome = true

variable {verifier calls}

variable {now : ℤ} {s : DpopState} {call : DpopCall}

theorem SoundReplays.consumed (h : SoundReplays verifier calls now s) (hfit : FitCalls verifier calls)
    (hcall : call ∈ calls) (hlater : now ≤ call.request.now) {checked : Checked}
    {contexts : ℕ → ProofRecords} (hcheck : verifier.check call.request = .ok checked)
    (hnew : (s.guard.prune call.request.now).seen.lookup (replayKey call.request checked) = none)
    (hcontexts : ∀ n key, (contexts n).lookup key = (s.contexts n).lookup key ∨
      call.context = some n ∧
        (contexts n).lookup key = some (verifier.record call.request checked)) :
    SoundReplays verifier calls call.request.now
      { guard := (s.guard.prune call.request.now).record
          ⟨verifier.retainedUntil call.request.now, (replayKey call.request checked).1,
            (replayKey call.request checked).2⟩
        contexts := contexts
        accepted := call :: s.accepted } := by
  obtain ⟨claims, hpassed⟩ := passed_of_check hcheck
  obtain ⟨hlast, hrange⟩ := hfit.inRange call hcall
  refine ⟨(h.guard.prune _).record hnew, ?_, ?_, ?_, ?_⟩
  · exact List.forall_mem_cons.mpr ⟨hcall, h.known⟩
  · refine List.forall_mem_cons.mpr ⟨⟨claims, checked, hpassed, ?_⟩, fun a ha => ?_⟩
    · intro t ht hlast hrecent
      refine ⟨verifier.retainedUntil call.request.now, ?_, ?_⟩
      · rw [ReplayState.record, lookup_insert_eq, if_pos rfl]
      · have hnow := hpassed.claims.recent
        unfold DpopVerifier.retainedUntil saturatingAddI64 saturatingMulI64
        unfold i64Max at *
        dsimp only
        omega
    · obtain ⟨claims', checked', hpassed', hheld⟩ := h.held a ha
      exact ⟨claims', checked', hpassed', (hheld.prune h.guard hlater).record hnew⟩
  · intro n key record hrecord
    rcases hcontexts n key with hsame | ⟨hcontext, hput⟩
    · rw [hsame] at hrecord
      obtain ⟨a, ha, hrest⟩ := h.recorded n key record hrecord
      exact ⟨a, List.mem_cons_of_mem _ ha, hrest⟩
    · rw [hput] at hrecord
      cases hrecord
      exact ⟨call, List.mem_cons_self, claims, checked, hcontext, hpassed, rfl, rfl, rfl⟩
  · refine List.pairwise_cons.mpr ⟨fun a ha hsame => ?_, h.apart⟩
    -- this proof is still recent, so its id would be held, and the guard held none
    obtain ⟨claims', checked', hpassed', hheld⟩ := h.held a ha
    obtain ⟨hkey, hiat⟩ := hsame.replayKey_eq hpassed hpassed'
    obtain ⟨expiry, hexpiry, -⟩ := hheld.prune h.guard hlater call.request.now le_rfl hlast
      (hiat ▸ hpassed.claims.recent)
    rw [← hkey, hnew] at hexpiry
    cases hexpiry

theorem SoundReplays.context_eq (h : SoundReplays verifier calls now s) {a b : DpopCall}
    (ha : a ∈ s.accepted) (hb : b ∈ s.accepted) (hsame : SameProof verifier a b) :
    a.context = b.context := by
  have hpair : s.accepted.Pairwise fun a b => SameProof verifier a b → a.context = b.context :=
    h.apart.imp fun hctx hsame => (hctx hsame).1
  have hsymm : Std.Symm fun a b : DpopCall => SameProof verifier a b → a.context = b.context :=
    ⟨fun a b hab hsame => (hab hsame.symm).symm⟩
  exact hpair.forall_of_forall (fun _ _ _ => rfl) ha hb hsame

theorem SoundReplays.reused (h : SoundReplays verifier calls now s) (hfit : FitCalls verifier calls)
    (hcall : call ∈ calls) (hlater : now ≤ call.request.now) {n : ℕ} {checked : Checked}
    {key : String} {stored : ProofRecord} (hcontext : call.context = some n)
    (hcheck : verifier.check call.request = .ok checked)
    (hstored : (s.contexts n).lookup key = some stored)
    (hreusable : (verifier.record call.request checked).reusable stored call.request.now = true) :
    SoundReplays verifier calls call.request.now { s with accepted := call :: s.accepted } := by
  obtain ⟨claims, hpassed⟩ := passed_of_check hcheck
  obtain ⟨first, hfirst, claims₁, checked₁, hcontext₁, hpassed₁, hissuer, hthumbprint, hjti⟩ :=
    h.recorded n key stored hstored
  -- the record is of the same id, and so of the same proof
  have hsame : SameProof verifier call first := by
    simp only [ProofRecord.reusable, DpopVerifier.record, Bool.and_eq_true, beq_iff_eq] at hreusable
    have hthumbs : checked.thumbprint = checked₁.thumbprint := by rw [← hthumbprint, hreusable.2]
    have hids : checked.jti = checked₁.jti := by rw [← hjti, hreusable.1.1.2]
    refine ⟨?_, claims, claims₁, checked, checked₁, hpassed, hpassed₁, hthumbs, hids, ?_⟩
    · rw [← hissuer, hreusable.1.1.1.2]
    · exact hfit.iat_eq hcall (h.known first hfirst) (hcontext.trans hcontext₁.symm)
        (by rw [hcontext]; rfl) hpassed hpassed₁ hthumbs hids
  refine ⟨h.guard, ?_, ?_, ?_, ?_⟩
  · exact List.forall_mem_cons.mpr ⟨hcall, h.known⟩
  · refine List.forall_mem_cons.mpr ⟨⟨claims, checked, hpassed, ?_⟩, fun a ha => ?_⟩
    · obtain ⟨claims', checked', hpassed', hheld⟩ := h.held first hfirst
      obtain ⟨hkey, hiat⟩ := hsame.replayKey_eq hpassed hpassed'
      rw [hkey, hiat]
      exact hheld.mono hlater
    · obtain ⟨claims', checked', hpassed', hheld⟩ := h.held a ha
      exact ⟨claims', checked', hpassed', hheld.mono hlater⟩
  · intro m k record hrecord
    obtain ⟨a, ha, hrest⟩ := h.recorded m k record hrecord
    exact ⟨a, List.mem_cons_of_mem _ ha, hrest⟩
  · refine List.pairwise_cons.mpr ⟨fun a ha hsame' => ⟨?_, by rw [hcontext]; rfl⟩, h.apart⟩
    rw [hcontext, ← hcontext₁]
    exact h.context_eq hfirst ha (hsame.symm.trans hsame')

theorem SoundReplays.step (h : SoundReplays verifier calls now s) (hfit : FitCalls verifier calls)
    (hcall : call ∈ calls) (hlater : now ≤ call.request.now) :
    SoundReplays verifier calls call.request.now (s.step verifier call) := by
  have hmove : DpopMove verifier s call (s.step verifier call) := dpopMove_step call
  generalize s.step verifier call = after at hmove ⊢
  cases hmove with
  | refused guard hguard =>
    refine ⟨?_, h.known, fun a ha => ?_, h.recorded, h.apart⟩
    · rcases hguard with rfl | rfl
      · exact h.guard
      · exact h.guard.prune _
    · obtain ⟨claims, checked, hpassed, hheld⟩ := h.held a ha
      refine ⟨claims, checked, hpassed, ?_⟩
      rcases hguard with rfl | rfl
      · exact hheld.mono hlater
      · exact hheld.prune h.guard hlater
  | consumed checked contexts hcheck hnew hcontexts =>
    exact h.consumed hfit hcall hlater hcheck hnew hcontexts
  | reused n checked key stored hcontext hcheck hstored hreusable =>
    exact h.reused hfit hcall hlater hcontext hcheck hstored hreusable

theorem SoundReplays.run {rest : List DpopCall} (h : SoundReplays verifier calls now s)
    (hfit : FitCalls verifier calls) (hrest : ∀ c ∈ rest, c ∈ calls)
    (htimes : rest.Pairwise fun a b => a.request.now ≤ b.request.now)
    (hlater : ∀ c ∈ rest, now ≤ c.request.now) :
    ∃ latest, SoundReplays verifier calls latest (run (DpopState.step verifier) s rest) := by
  induction rest generalizing now s with
  | nil => exact ⟨now, h⟩
  | cons c rest ih =>
    obtain ⟨hfirst, htimes⟩ := List.pairwise_cons.mp htimes
    have hstep := h.step hfit (hrest c List.mem_cons_self) (hlater c List.mem_cons_self)
    exact ih hstep (fun d hd => hrest d (List.mem_cons_of_mem c hd)) htimes hfirst

end Invariant

section Theorem

variable {verifier : DpopVerifier}

theorem Passed.same_proof {a b : DpopCall} {claims claims' : ProofClaims}
    {checked checked' : Checked} (ha : Passed verifier a claims checked)
    (hb : Passed verifier b claims' checked') (hproof : a.request.proof = b.request.proof) :
    a.request.boundThumbprint = b.request.boundThumbprint ∧
      a.request.method = b.request.method ∧
      normalizeHtu a.request.url = normalizeHtu b.request.url ∧
      ProofLibrary.hash a.request.accessToken = ProofLibrary.hash b.request.accessToken ∧
      checked.thumbprint = checked'.thumbprint ∧ checked.jti = checked'.jti ∧
      claims.iat = claims'.iat := by
  obtain ⟨p, hp, hthumbprint, hclaims⟩ := ha.proof
  obtain ⟨q, hq, hthumbprint', hclaims'⟩ := hb.proof
  rw [hp, hq] at hproof
  cases hproof
  rw [hthumbprint] at hthumbprint'
  rw [hclaims] at hclaims'
  have hthumb : checked.thumbprint = checked'.thumbprint := Except.ok.inj hthumbprint'
  obtain rfl : claims = claims' := Except.ok.inj hclaims'
  refine ⟨?_, ?_, ?_, ?_, hthumb, ?_, rfl⟩
  · rw [← ha.bound, hthumb, hb.bound]
  · rw [← ha.claims.method, hb.claims.method]
  · rw [ha.claims.url, hb.claims.url, ← ha.claims.htu, ← hb.claims.htu]
  · rw [ha.claims.token, hb.claims.token, ← ha.claims.ath, ← hb.claims.ath]
  · rw [ha.claims.jti, hb.claims.jti]

/-- Of fit calls in order of time, two accept one proof only within one request context, for the
same issuer, key, method, URL and access token. -/
theorem dpop_proof_accepted_once {calls : List DpopCall}
    (hhash : ∀ a b digest, ProofLibrary.hash a = some digest → ProofLibrary.hash b = some digest →
      a = b)
    (htimes : calls.Pairwise fun a b => a.request.now ≤ b.request.now)
    (hfit : FitCalls verifier calls) :
    (run (DpopState.step verifier) .new calls).accepted.Pairwise fun later earlier =>
      later.request.proof = earlier.request.proof →
        (later.context = earlier.context ∧ later.context.isSome = true) ∧
        later.request.issuer = earlier.request.issuer ∧
        later.request.boundThumbprint = earlier.request.boundThumbprint ∧
        later.request.method = earlier.request.method ∧
        normalizeHtu later.request.url = normalizeHtu earlier.request.url ∧
        later.request.accessToken = earlier.request.accessToken := by
  have hstart : ∃ start : ℤ, ∀ c ∈ calls, start ≤ c.request.now := by
    cases calls with
    | nil => exact ⟨0, nofun⟩
    | cons c rest =>
      exact ⟨c.request.now, List.forall_mem_cons.mpr ⟨le_rfl, (List.pairwise_cons.mp htimes).1⟩⟩
  obtain ⟨start, hstart⟩ := hstart
  have hnew : SoundReplays verifier calls start .new :=
    ⟨ReplayState.consistent_empty, nofun, nofun, nofun, .nil⟩
  obtain ⟨latest, hsound⟩ := hnew.run hfit (fun c hc => hc) htimes hstart
  refine hsound.apart.imp_of_mem fun {later earlier} hl he hapart hproof => ?_
  obtain ⟨claims, checked, hpassed, -⟩ := hsound.held later hl
  obtain ⟨claims', checked', hpassed', -⟩ := hsound.held earlier he
  obtain ⟨hbound, hmethod, hurl, hdigest, hids⟩ := hpassed.same_proof hpassed' hproof
  have htoken : later.request.accessToken = earlier.request.accessToken :=
    hhash _ _ _ hpassed.claims.token (hdigest ▸ hpassed.claims.token)
  have hissuer : later.request.issuer = earlier.request.issuer :=
    hfit.minted later (hsound.known later hl) earlier (hsound.known earlier he) htoken
  exact ⟨hapart ⟨hissuer, claims, claims', checked, checked', hpassed, hpassed', hids⟩,
    hissuer, hbound, hmethod, hurl, htoken⟩

end Theorem

end Runs

section Samples

local instance dpopLibrary : Library := .ascii

def sampleIat (proof : String) : ℤ :=
  if proof = "p" then 1000 else if proof = "q" then 1180 else i64Max

/-- Proofs that are read by name. -/
local instance dpopProofs : ProofLibrary where
  Jwk := Unit
  Key := Unit
  decodeJson _ := some (.object [("typ", .string "dpop+jwt"),
    ("jwk", .object [("kty", .string "OKP"), ("crv", .string "C"), ("x", .string "X")])])
  decodeHeader _ := .ok (.es256, some ())
  fromJwk _ := .ok ()
  decode proof _ _ := .ok ⟨"GET", "https://host/tool", sampleIat proof, "id", some "token"⟩
  hash := some

def sampleVerifier (window : ℕ) : DpopVerifier := ⟨⟨[.es256], window⟩, ⟨10, 10⟩, 7⟩

def sampleCall (context : Option ℕ) (proof : String) (now : ℤ) : DpopCall :=
  ⟨context, "issuer", "token", "\x7b\"crv\":\"C\",\"kty\":\"OKP\",\"x\":\"X\"\x7d", some proof, "GET",
    "https://host/tool?q=1", now⟩

theorem dpop_proof_accepted_once_sample :
    let calls := [sampleCall (some 0) "p" 1000, sampleCall (some 0) "p" 1050,
      sampleCall (some 1) "p" 1060]
    let s := run (DpopState.step (sampleVerifier 60)) .new calls
    s.accepted.map DpopCall.context = [some 0, some 0] ∧
      s.accepted.Pairwise fun later earlier => later.request.proof = earlier.request.proof →
        (later.context = earlier.context ∧ later.context.isSome = true) ∧
        later.request.issuer = earlier.request.issuer ∧
        later.request.boundThumbprint = earlier.request.boundThumbprint ∧
        later.request.method = earlier.request.method ∧
        normalizeHtu later.request.url = normalizeHtu earlier.request.url ∧
        later.request.accessToken = earlier.request.accessToken := by
  refine ⟨by decide +kernel, dpop_proof_accepted_once ?_ (by decide +kernel) ⟨?_, ?_, ?_⟩⟩
  · intro a b digest ha hb
    exact Option.some.inj (ha.trans hb.symm)
  · decide +kernel
  · decide +kernel
  · intro a ha b hb _ _ p q thumbprint claims claims' hp hq _ _ hclaims hclaims' _
    have hall : ∀ c ∈ [sampleCall (some 0) "p" 1000, sampleCall (some 0) "p" 1050,
        sampleCall (some 1) "p" 1060], c.request.proof = some "p" := by decide
    rw [hall a ha] at hp
    rw [hall b hb] at hq
    rw [← Option.some.inj hp] at hclaims
    rw [← Option.some.inj hq, hclaims] at hclaims'
    rw [Except.ok.inj hclaims']

/-- At the last second the guard forgets at once; a saturated window ends too early for a time
before zero; an issuer does not see what another used up; a request takes a second proof with the id
of its first without the guard. -/
theorem proof_accepted_in_two_contexts :
    let acceptsAll (window : ℕ) (calls : List DpopCall) : Prop :=
      (run (DpopState.step (sampleVerifier window)) .new calls).accepted = calls.reverse
    acceptsAll 60 [sampleCall none "r" i64Max, sampleCall none "r" i64Max] ∧
    acceptsAll i64Max.toNat [sampleCall none "p" (-5), sampleCall none "p" (i64Max - 2)] ∧
    acceptsAll 60 [sampleCall (some 0) "p" 1000,
      { sampleCall (some 1) "p" 1000 with request.issuer := "other" }] ∧
    acceptsAll 60 [sampleCall (some 0) "p" 1000, sampleCall (some 0) "q" 1120,
      sampleCall (some 1) "q" 1121] := by
  decide +kernel

end Samples

end PraxisPolicy
