import PraxisPolicy.SessionIds
import PraxisPolicy.StepRuns

/-!
# Session taints

The labels that were not there at the start of a request are appended to its session's store.  Those
the request brought with it were there, so a taint that names one adds nothing.
-/

namespace PraxisPolicy

open HashMaps StepRuns

abbrev SessionLabels := HashMap String (Finset String)

def SessionLabels.loadLabels (store : SessionLabels) (sid : String) : Finset String :=
  (store.lookup sid).getD ∅

def SessionLabels.appendLabels (store : SessionLabels) (sid : String) (labels : Finset String) :
    SessionLabels :=
  if labels = ∅ then store else store.insert sid (store.loadLabels sid ∪ labels)

theorem SessionLabels.loadLabels_appendLabels (store : SessionLabels) (sid sid' : String)
    (labels : Finset String) :
    (store.appendLabels sid labels).loadLabels sid' =
      if sid' = sid then store.loadLabels sid ∪ labels else store.loadLabels sid' := by
  unfold appendLabels
  by_cases hlabels : labels = ∅
  · by_cases hsid : sid' = sid <;> simp [hlabels, hsid]
  · rw [if_neg hlabels]
    by_cases hsid : sid' = sid <;> simp [loadLabels, lookup_insert_eq, hsid]

def sessionTaints (taints : List TaintEvent) : List String :=
  (taints.filter fun taint => taint.scopes.contains .session).map TaintEvent.label

section Invoker

variable [Contents]

def snapshotLabels (ext : Extensions) : Finset String :=
  (ext.security.map SecurityExtension.labels).getD ∅

def addLabels (ext : Extensions) (labels : Finset String) : Extensions :=
  let security := ext.security.getD .default
  { ext with security := some { security with labels := security.labels ∪ labels } }

def hydrateLabels (ext : Extensions) (stored : Finset String) : Extensions :=
  if stored = ∅ then ext else addLabels ext stored

def applySessionTaints (ext : Extensions) (taints : List TaintEvent) : Extensions :=
  if sessionTaints taints = [] then ext else addLabels ext (sessionTaints taints).toFinset

@[simp] theorem snapshotLabels_addLabels (ext : Extensions) (labels : Finset String) :
    snapshotLabels (addLabels ext labels) = snapshotLabels ext ∪ labels := by
  cases h : ext.security <;> simp [snapshotLabels, addLabels, h, SecurityExtension.default]

/-- The part of `HookPluginInvoker` that sessions are about. -/
structure HookPluginInvoker where
  extensions : Extensions
  sessionId : Option String
  initialLabels : Finset String

def HookPluginInvoker.newLabels (invoker : HookPluginInvoker) (current : Extensions) :
    Finset String :=
  snapshotLabels current \ invoker.initialLabels

def forRequest [SlotRecords] [Library] [DigestBackend] (store : SessionLabels) (answers : Bool)
    (ext : Extensions) : Option HookPluginInvoker :=
  match resolveSession ext with
  | .error _ => none
  | .ok none => some ⟨ext, none, snapshotLabels ext⟩
  | .ok (some (sid, _)) =>
    if answers then
      let hydrated := hydrateLabels ext (store.loadLabels sid)
      some ⟨hydrated, some sid, snapshotLabels hydrated⟩
    else none

theorem initialLabels_forRequest [SlotRecords] [Library] [DigestBackend] {store : SessionLabels}
    {answers : Bool} {ext : Extensions} {invoker : HookPluginInvoker} {sid : String}
    (h : forRequest store answers ext = some invoker) (hsid : invoker.sessionId = some sid) :
    invoker.initialLabels = snapshotLabels ext ∪ store.loadLabels sid := by
  unfold forRequest at h
  split at h
  case h_1 => cases h
  case h_2 =>
    cases h
    cases hsid
  case h_3 =>
    split at h
    case isTrue =>
      cases h
      cases hsid
      unfold hydrateLabels
      split
      case isTrue hnone => rw [hnone, Finset.union_empty]
      case isFalse => exact snapshotLabels_addLabels ext _
    case isFalse => cases h

end Invoker

section Requests

variable [Contents]

/-- A failed one may have kept some of the labels. -/
inductive AppendAnswer where
  | accepted
  | failed (kept : Finset String)
  deriving DecidableEq

structure RunningRequest where
  arrived : Extensions
  invoker : HookPluginInvoker

/-- What the session held before, and whether the handler reported a failure. -/
structure FinishedRequest where
  sessionId : Option String
  taints : List TaintEvent
  held : Finset String
  persisted : Bool

def FinishedRequest.owed (request : FinishedRequest) : Finset String :=
  (sessionTaints request.taints).toFinset ∪ request.held

structure StartedRequest where
  sessionId : Option String
  initialLabels : Finset String
  earlier : List FinishedRequest

structure SessionState where
  store : SessionLabels
  running : HashMap ℕ RunningRequest
  started : List StartedRequest
  finished : List FinishedRequest

def SessionState.start (store : SessionLabels) : SessionState := ⟨store, ∅, [], []⟩

/-- What the evaluation makes of the extensions and which taints it emits is open. A request may
also end before it was evaluated. -/
inductive SessionEvent where
  | start (id : ℕ) (ext : Extensions) (answers : Bool)
  | finish (id : ℕ) (evaluated : Extensions) (taints : List TaintEvent) (answer : AppendAnswer)
  | abandon (id : ℕ)

def RunningRequest.finish (request : RunningRequest) (s : SessionState) (evaluated : Extensions)
    (taints : List TaintEvent) (answer : AppendAnswer) : SessionLabels × FinishedRequest :=
  let newLabels := request.invoker.newLabels (applySessionTaints evaluated taints)
  match request.invoker.sessionId with
  | none => (s.store, ⟨none, taints, ∅, true⟩)
  | some sid =>
    let held := s.store.loadLabels sid
    match answer with
    | .accepted =>
      (s.store.appendLabels sid newLabels, ⟨some sid, taints, held, true⟩)
    | .failed kept =>
      if newLabels = ∅ then (s.store, ⟨some sid, taints, held, true⟩)
      else (s.store.appendLabels sid (newLabels ∩ kept), ⟨some sid, taints, held, false⟩)

def SessionState.step [SlotRecords] [Library] [DigestBackend] (s : SessionState) :
    SessionEvent → SessionState
  | .start id ext answers =>
    match forRequest s.store answers ext with
    | none => s
    | some invoker =>
      { s with
        running := s.running.insert id ⟨ext, invoker⟩
        started := s.started ++ [⟨invoker.sessionId, invoker.initialLabels, s.finished⟩] }
  | .finish id evaluated taints answer =>
    match s.running.lookup id with
    | none => s
    | some request =>
      let (store, finished) := request.finish s evaluated taints answer
      { s with
        store := store
        running := s.running.erase id
        finished := s.finished ++ [finished] }
  | .abandon id => { s with running := s.running.erase id }

/-- What finished requests were owed is in the store, and was there for every later request on their
session. -/
structure TaintsPersist (s : SessionState) : Prop where
  stored : ∀ request ∈ s.finished, request.persisted = true → ∀ sid,
    request.sessionId = some sid → request.owed ⊆ s.store.loadLabels sid
  seen : ∀ later ∈ s.started, ∀ request ∈ later.earlier, request.persisted = true → ∀ sid,
    request.sessionId = some sid → later.sessionId = some sid →
      request.owed ⊆ later.initialLabels

def TaintsNew (s : SessionState) : SessionEvent → Prop
  | .finish id _ taints _ => ∀ request, s.running.lookup id = some request →
      ∀ sid, request.invoker.sessionId = some sid → ∀ label ∈ sessionTaints taints,
        label ∈ snapshotLabels request.arrived → label ∈ s.store.loadLabels sid
  | _ => True

end Requests

section Runs

variable [Contents] {s : SessionState} {request : RunningRequest} {evaluated : Extensions}
  {taints : List TaintEvent} {answer : AppendAnswer}

/-- Labels are appended to the request's session, and all new ones unless a failure is reported. -/
theorem finish_cases (request : RunningRequest) (s : SessionState) (evaluated : Extensions)
    (taints : List TaintEvent) (answer : AppendAnswer) :
    request.finish s evaluated taints answer = (s.store, ⟨none, taints, ∅, true⟩) ∨
      ∃ sid appended persisted, request.invoker.sessionId = some sid ∧
        request.finish s evaluated taints answer = (s.store.appendLabels sid appended,
          ⟨some sid, taints, s.store.loadLabels sid, persisted⟩) ∧
        (persisted = true →
          appended = request.invoker.newLabels (applySessionTaints evaluated taints)) := by
  unfold RunningRequest.finish
  dsimp only
  cases hid : request.invoker.sessionId with
  | none => exact .inl rfl
  | some sid =>
    refine .inr ?_
    cases answer with
    | accepted => exact ⟨sid, _, true, rfl, rfl, fun _ => rfl⟩
    | failed kept =>
      have hsame : s.store.appendLabels sid ∅ = s.store := if_pos rfl
      by_cases hnone : request.invoker.newLabels (applySessionTaints evaluated taints) = ∅
      · simp only [if_pos hnone]
        exact ⟨sid, ∅, true, rfl, by rw [hsame], fun _ => hnone.symm⟩
      · simp only [if_neg hnone]
        exact ⟨sid, _, false, rfl, rfl, fun h => by cases h⟩

theorem loadLabels_subset_finish (sid : String) :
    s.store.loadLabels sid ⊆ (request.finish s evaluated taints answer).1.loadLabels sid := by
  rcases finish_cases request s evaluated taints answer with h | ⟨sid', appended, _, -, h, -⟩
  · rw [h]
  · rw [h]
    rw [SessionLabels.loadLabels_appendLabels]
    split
    case isTrue hsid =>
      rw [hsid]
      exact Finset.subset_union_left
    case isFalse => exact subset_rfl

/-- The labels at the start of a request are its own and the store's. -/
structure SessionsKept (s : SessionState) : Prop extends TaintsPersist s where
  initial : ∀ id request, s.running.lookup id = some request → ∀ sid,
    request.invoker.sessionId = some sid → request.invoker.initialLabels ⊆
      snapshotLabels request.arrived ∪ s.store.loadLabels sid

theorem SessionsKept.start (store : SessionLabels) : SessionsKept (.start store) where
  stored _ h := absurd h List.not_mem_nil
  seen _ h := absurd h List.not_mem_nil
  initial id request h := by
    rw [SessionState.start, Finmap.lookup_empty] at h
    cases h

theorem SessionsKept.finish (h : SessionsKept s) {id : ℕ} (hid : s.running.lookup id = some request)
    (hnew : ∀ sid, request.invoker.sessionId = some sid → ∀ label ∈ sessionTaints taints,
      label ∈ snapshotLabels request.arrived → label ∈ s.store.loadLabels sid) :
    SessionsKept { s with
      store := (request.finish s evaluated taints answer).1
      running := s.running.erase id
      finished := s.finished ++ [(request.finish s evaluated taints answer).2] } where
  stored finished hmem hpersisted sid hsid := by
    rcases List.mem_append.1 hmem with hmem | hmem
    · exact (h.stored finished hmem hpersisted sid hsid).trans (loadLabels_subset_finish sid)
    · obtain rfl := List.mem_singleton.1 hmem
      rcases finish_cases request s evaluated taints answer with
        hend | ⟨sid', appended, persisted, hid', hend, happended⟩
      · rw [hend] at hsid
        cases hsid
      · rw [hend] at hsid hpersisted ⊢
        cases hsid
        rw [SessionLabels.loadLabels_appendLabels, if_pos rfl, happended hpersisted]
        refine Finset.union_subset (fun label hlabel => ?_) Finset.subset_union_left
        have htaint : label ∈ sessionTaints taints := List.mem_toFinset.1 hlabel
        by_cases hold : label ∈ request.invoker.initialLabels
        · -- not appended: the store or the request had it at the start
          refine Finset.mem_union_left _ ?_
          rcases Finset.mem_union.1 (h.initial id request hid sid hid' hold) with harrived | hstored
          · exact hnew sid hid' label htaint harrived
          · exact hstored
        · refine Finset.mem_union_right _ (Finset.mem_sdiff.2 ⟨?_, hold⟩)
          rw [applySessionTaints, if_neg (List.ne_nil_of_mem htaint), snapshotLabels_addLabels]
          exact Finset.mem_union_right _ hlabel
  seen := h.seen
  initial id' request' hid' sid hsid := by
    have hrunning : s.running.lookup id' = some request' := by
      by_cases hsame : id' = id
      · rw [hsame, Finmap.lookup_erase] at hid'
        cases hid'
      · rwa [Finmap.lookup_erase_ne hsame] at hid'
    exact (h.initial id' request' hrunning sid hsid).trans
      (Finset.union_subset_union_right (loadLabels_subset_finish sid))

variable [SlotRecords] [Library] [DigestBackend]

theorem SessionsKept.step (h : SessionsKept s) {event : SessionEvent} (hok : TaintsNew s event) :
    SessionsKept (s.step event) := by
  cases event with
  | start id ext answers =>
    simp only [SessionState.step]
    cases hinvoker : forRequest s.store answers ext with
    | none => exact h
    | some invoker =>
      refine ⟨⟨h.stored, fun later hmem request hrequest hpersisted sid hsid hlater => ?_⟩,
        fun id' request hid' sid hsid => ?_⟩
      · rcases List.mem_append.1 hmem with hmem | hmem
        · exact h.seen later hmem request hrequest hpersisted sid hsid hlater
        · obtain rfl := List.mem_singleton.1 hmem
          refine (h.stored request hrequest hpersisted sid hsid).trans ?_
          rw [initialLabels_forRequest hinvoker hlater]
          exact Finset.subset_union_right
      · rw [lookup_insert_eq] at hid'
        split at hid'
        case isTrue =>
          cases hid'
          rw [initialLabels_forRequest hinvoker hsid]
        case isFalse => exact h.initial id' request hid' sid hsid
  | finish id evaluated taints answer =>
    simp only [SessionState.step]
    cases hid : s.running.lookup id with
    | none => exact h
    | some request => exact h.finish hid (hok request hid)
  | abandon id =>
    refine ⟨⟨h.stored, h.seen⟩, fun id' request hid' => h.initial id' request ?_⟩
    by_cases hsame : id' = id
    · rw [hsame, SessionState.step, Finmap.lookup_erase] at hid'
      cases hid'
    · rwa [SessionState.step, Finmap.lookup_erase_ne hsame] at hid'

/-- If no request taints its session with a label that it brought with it and the store lacks, the
store holds what finished requests were owed, and every later request started with it. -/
theorem session_taints_persist (store : SessionLabels) (events : List SessionEvent)
    (h : AllSteps SessionState.step TaintsNew (.start store) events) :
    TaintsPersist (run SessionState.step (.start store) events) := by
  have hstep : ∀ s event, SessionsKept s → TaintsNew s event → SessionsKept (s.step event) :=
    fun _ _ hs hok => hs.step hok
  exact (invariant_of_allSteps hstep (.start store) h).toTaintsPersist

end Runs

section Cases

/-! Requests of one subject; the second is evaluated while the first has not finished. -/

local instance taintContents : Contents := .plain

local instance taintSlots : SlotRecords where
  request _ := ⟨none⟩
  agent _ := ⟨none, none, none, none, none⟩
  mcp _ := ⟨none, none, none⟩
  completion _ := ⟨none, none, none, none⟩
  framework _ := ⟨none, none, none, none⟩

local instance taintLibrary : Library := Library.ascii

local instance taintDigest : DigestBackend where
  CryptoError := Empty
  sha256 := .ok

def labelledRequest (labels : Finset String) : Extensions :=
  { Extensions.default with
    security := some { SecurityExtension.default with
      labels := labels
      subject := some ⟨some "u", none, ∅, ∅, ∅, ∅, none⟩ } }

def piiTaint : List TaintEvent := [⟨"pii", [.session]⟩]

def unlabelled : List SessionEvent :=
  [.start 0 (labelledRequest ∅) true, .start 1 (labelledRequest ∅) true,
    .finish 0 (labelledRequest ∅) piiTaint .accepted,
    .finish 1 (labelledRequest ∅) piiTaint .accepted, .start 2 (labelledRequest ∅) true]

theorem session_taints_persist_unlabelled :
    TaintsPersist (run SessionState.step (.start ∅) unlabelled) := by
  refine session_taints_persist ∅ unlabelled ⟨trivial, trivial, ?_, ?_, trivial, trivial⟩
  · rintro request hrequest sid - label - harrived
    cases hrequest
    cases harrived
  · rintro request hrequest sid - label - harrived
    cases hrequest
    cases harrived

theorem session_taint_lost :
    ∃ events, ¬ TaintsPersist (run SessionState.step (.start ∅) events) := by
  refine ⟨[.start 0 (labelledRequest {"pii"}) true,
    .finish 0 (labelledRequest {"pii"}) piiTaint .accepted], fun h => ?_⟩
  have := h.stored ⟨some "753a2d3a2d", piiTaint, ∅, true⟩ (.head _) rfl _ rfl
  revert this
  decide

end Cases

end PraxisPolicy
