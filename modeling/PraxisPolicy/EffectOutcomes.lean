import PraxisPolicy.EffectSettling

/-!
# One outcome per effect

Where sweeps do not overlap the log receives at most one terminal record per key.  Two sweeps that
read the log before either has settled an orphan settle it twice.
-/

namespace PraxisPolicy

open HashMaps StepRuns

structure EffectsKept (s : EffectEngine) : Prop where
  keys : ∀ key, KeyKept s key
  sweeps : SweepsKept s

theorem effectsKept_start : EffectsKept .start := by
  have hnone : ∀ id run, EffectEngine.start.sweeps.lookup id ≠ some run := by
    intro id run hrun
    cases hrun
  refine ⟨fun key => ?_, ?_⟩
  · constructor
    case fresh =>
      exact fun _ => ⟨rfl, rfl, by simp [EffectEngine.terminals, EffectEngine.start, resolvedKeys],
        (fun _ _ hjob => by cases hjob), fun id run hrun => absurd hrun (hnone id run)⟩
    case live => exact fun call hcall => by cases hcall
    case pending => exact fun call hcall => by cases hcall
    case held => exact fun id hholding => absurd hholding.choose_spec.1 (hnone id _)
    case job => exact fun record owner hjob => by cases hjob
    case resolved => exact fun _ => rfl
    case once => exact Nat.zero_le 1
  · constructor
    case counted => rfl
    case alone => exact fun i _ run _ hi => absurd hi (hnone i run)
    case distinct => exact fun id run hrun => absurd hrun (hnone id run)

theorem EffectsKept.step {s : EffectEngine} (h : EffectsKept s) (event : EffectEvent)
    (hok : SweepsInTurnAndIntended s event) : EffectsKept (s.step event) := by
  have hkeys := h.keys
  have hsweeps := h.sweeps
  cases event with
  | perform plugin effect =>
    by_cases hstarted : effect.key ∈ s.startedKeys
    · rw [EffectEngine.step, if_pos hstarted]
      exact h
    · refine ⟨fun key => (hkeys key).perform plugin hstarted, ?_⟩
      rw [EffectEngine.step, if_neg hstarted]
      exact ⟨hsweeps.counted, hsweeps.alone, hsweeps.distinct⟩
  | complete plugin effect state => exact absurd hok id
  | lock owner =>
    rw [EffectEngine.step]
    split
    · rename_i record hfree hwaiting
      exact ⟨fun key => KeyKept.lock hkeys hsweeps hwaiting,
        ⟨hsweeps.counted, hsweeps.alone, hsweeps.distinct⟩⟩
    · exact h
  | written landed acknowledged =>
    rw [EffectEngine.step]
    split
    · exact h
    · rename_i record owner hjob
      have harrived : (if (landed || acknowledged) = true then [record] else []) = [record] ∨
          (if (landed || acknowledged) = true then [record] else []) = [] := by
        split_ifs
        · exact .inl rfl
        · exact .inr rfl
      refine ⟨fun key => ?_, hsweeps.deliver hkeys hjob acknowledged⟩
      cases owner with
      | call own => exact KeyKept.deliver_call hkeys hjob harrived acknowledged key
      | sweep id => exact KeyKept.deliver_sweep hkeys hsweeps hjob harrived acknowledged key
      | nobody => exact KeyKept.deliver_nobody hkeys hjob harrived key
  | acted key ok =>
    rw [EffectEngine.step]
    split
    · exact h
    · rename_i call hcall
      by_cases hstage : call.stage = .acting
      · rw [if_pos hstage]
        exact ⟨fun other => (hkeys other).acted hcall hstage _,
          ⟨hsweeps.counted, hsweeps.alone, hsweeps.distinct⟩⟩
      · rw [if_neg hstage]
        exact h
  | close key =>
    rw [EffectEngine.step]
    split
    · exact h
    · rename_i call hcall
      split_ifs with hstage
      · exact ⟨fun other => KeyKept.close hkeys hsweeps hcall hstage,
          ⟨hsweeps.counted, hsweeps.alone, hsweeps.distinct⟩⟩
      · exact h
  | drop key =>
    rw [EffectEngine.step]
    split
    · exact h
    · rename_i call hcall
      have hopened := ((hkeys key).live call hcall).1
      simp only [hopened, if_true]
      exact ⟨fun other => KeyKept.drop hkeys hsweeps hcall,
        ⟨hsweeps.counted, hsweeps.alone, hsweeps.distinct⟩⟩
  | sweep id =>
    rw [EffectEngine.step]
    split_ifs with hnew
    · exact h
    · exact ⟨fun key => (hkeys key).of_sameKey (sameKey_sweep hnew key), hsweeps.sweep hnew⟩
  | read id =>
    rw [EffectEngine.step]
    split
    · rename_i hfree hrun
      exact ⟨fun key => KeyKept.read hkeys hfree hrun hok, hsweeps.read hrun hok⟩
    · exact h
  | check id =>
    rw [EffectEngine.step]
    split
    · rename_i record todo hrun
      have hdistinct := hsweeps.distinct _ _ hrun
      split_ifs with hbusy
      · exact ⟨fun key => (hkeys key).of_sameKey (sameKey_check hkeys hrun (.inl rfl) key),
          hsweeps.setSweep hrun (by simp) (List.nodup_cons.1 hdistinct).2⟩
      · have hidle : s.inFlight.isBusy record.key = false := by simpa using hbusy
        exact ⟨fun key => (hkeys key).of_sameKey (sameKey_check hkeys hrun (.inr ⟨rfl, hidle⟩) key),
          hsweeps.setSweep hrun (by simp) hdistinct⟩
    · exact h
  | answer id state =>
    rw [EffectEngine.step]
    split
    · rename_i record todo hrun
      have hdistinct := hsweeps.distinct _ _ hrun
      split_ifs
      · exact ⟨fun key => (hkeys key).of_sameKey (sameKey_answer hkeys hrun (.inr ⟨state, rfl⟩) key),
          hsweeps.setSweep hrun (by simp) hdistinct⟩
      · exact ⟨fun key => (hkeys key).of_sameKey (sameKey_answer hkeys hrun (.inl rfl) key),
          hsweeps.setSweep hrun (by simp) (List.nodup_cons.1 hdistinct).2⟩
    · exact h
  | finish id =>
    rw [EffectEngine.step]
    split
    · rename_i hrun
      have hunlocked : ∀ record, (s.endSweep id).lock ≠ some (record, .sweep id) :=
        KeyKept.not_locked (s := s) hkeys hrun (by simp)
      refine ⟨fun key => ?_, hsweeps.endSweep hrun⟩
      have hended := (hkeys key).endSweep hsweeps hrun
      rwa [disown_eq_self hunlocked] at hended
    · exact h
  | abandon id =>
    rw [EffectEngine.step]
    split
    · rename_i run hrun
      have hended := hsweeps.endSweep hrun
      exact ⟨fun key => (hkeys key).endSweep hsweeps hrun,
        ⟨hended.counted, hended.alone, hended.distinct⟩⟩
    · exact h
  | compact =>
    rw [EffectEngine.step]
    split
    · exact ⟨fun key => (hkeys key).of_sameKey (sameKey_compact s key),
        ⟨hsweeps.counted, hsweeps.alone, hsweeps.distinct⟩⟩
    · exact h

/-- If sweeps do not overlap and outcomes follow their intents, the log receives at most one
terminal record per key, and no sweep settles a key whose call is in flight. -/
theorem one_outcome_per_key (events : List EffectEvent)
    (h : AllSteps EffectEngine.step SweepsInTurnAndIntended .start events) :
    let s := run EffectEngine.step .start events
    s.terminals.Nodup ∧ ∀ id run record, s.sweeps.lookup id = some run →
      run.current = some record → s.calls record.key = none := by
  have hkept : EffectsKept (run EffectEngine.step .start events) :=
    invariant_of_allSteps (fun _ event hs hok => hs.step event hok) effectsKept_start h
  refine ⟨List.nodup_iff_count_le_one.2 fun key => (hkept.keys key).once, ?_⟩
  intro id run record hrun hcurrent
  exact ((hkept.keys record.key).held id ⟨run, hrun, .inl ⟨record, hcurrent, rfl⟩⟩).1

theorem sweepsInTurnAndIntended_read {s : EffectEngine} {id : ℕ} (h : s.sweeps.keys ⊆ {id}) :
    SweepsInTurnAndIntended s (.read id) := by
  intro other run hrun hne
  have hmem := h (Finmap.mem_keys.2 (Finmap.mem_of_lookup_eq_some hrun))
  exact absurd (Finset.mem_singleton.1 hmem) hne

def tokenMint : EffectRecord := .prepared "token_mint" "mint a token" "mint-1"

def orphaned : List EffectEvent :=
  [.perform "minter" tokenMint, .lock (.call "mint-1"), .written true true, .drop "mint-1"]

def settles (id : ℕ) (state : EffectState) : List EffectEvent :=
  [.check id, .answer id state, .lock (.sweep id), .written true true]

def overlappingSweeps : List EffectEvent :=
  orphaned ++ [.sweep 0, .sweep 1, .read 0, .read 1] ++ settles 0 .confirmed ++
    settles 1 .rejected

def outcomeAlone : List EffectEvent :=
  [.complete "minter" tokenMint .unknown, .lock (.call "mint-1"), .written true true,
    .sweep 0, .read 0, .check 0]

theorem two_outcomes_for_one_key :
    (run EffectEngine.step .start overlappingSweeps).terminals = ["mint-1", "mint-1"] ∧
    (run EffectEngine.step .start overlappingSweeps).received.map EffectRecord.state =
      [.prepared, .confirmed, .rejected] ∧
    ((run EffectEngine.step .start outcomeAlone).sweeps.lookup 0).bind SweepRun.current =
      some { tokenMint.intoState .unknown with pluginName := some "minter" } ∧
    ((run EffectEngine.step .start outcomeAlone).calls "mint-1").isSome = true := by
  refine ⟨?_, ?_, ?_, ?_⟩
  · decide
  · decide
  · decide
  · decide

def sweepsInTurn : List EffectEvent :=
  [.perform "minter" tokenMint, .lock (.call "mint-1"), .written true true, .sweep 0, .read 0,
    .check 0, .drop "mint-1", .finish 0, .sweep 1, .read 1] ++ settles 1 .rejected ++ [.finish 1]

theorem one_outcome_per_key_sweepsInTurn :
    let s := run EffectEngine.step .start sweepsInTurn
    s.terminals = ["mint-1"] ∧ s.terminals.Nodup ∧
      ∀ id run record, s.sweeps.lookup id = some run → run.current = some record →
        s.calls record.key = none := by
  have hok : AllSteps EffectEngine.step SweepsInTurnAndIntended .start sweepsInTurn := by
    refine ⟨trivial, trivial, trivial, trivial, ?_, trivial, trivial, trivial, trivial, ?_, trivial,
      trivial, trivial, trivial, trivial, trivial⟩
    · exact sweepsInTurnAndIntended_read (by decide)
    · exact sweepsInTurnAndIntended_read (by decide)
  exact ⟨by decide, one_outcome_per_key sweepsInTurn hok⟩

/-- `recover` does not list a settled key, and no append or sweep under way concerns it. -/
theorem settled_key_done (events : List EffectEvent)
    (h : AllSteps EffectEngine.step SweepsInTurnAndIntended .start events) :
    let s := run EffectEngine.step .start events
    ∀ key ∈ s.terminals, key ∉ (unresolvedRecords s.log).map EffectRecord.key ∧
      (∀ record owner, s.lock = some (record, owner) → record.key ≠ key) ∧
      ∀ id run record, s.sweeps.lookup id = some run → run.current = some record →
        record.key ≠ key := by
  intro s key hkey
  have hkept : EffectsKept s :=
    invariant_of_allSteps (fun _ event hs hok => hs.step event hok) effectsKept_start h
  refine ⟨fun hmem => ofKey_unresolvedRecords_ne_nil hmem ((hkept.keys key).resolved hkey), ?_, ?_⟩
  · intro record owner hjob heq
    exact ((hkept.keys key).job record owner hjob heq).1 hkey
  · intro id run record hrun hcurrent heq
    exact ((hkept.keys key).held id ⟨run, hrun, .inl ⟨record, hcurrent, heq⟩⟩).2 hkey

theorem settled_key_done_orphaned :
    let s := run EffectEngine.step .start (orphaned ++ [.sweep 0, .read 0] ++ settles 0 .rejected)
    s.log.length = 2 ∧ "mint-1" ∉ (unresolvedRecords s.log).map EffectRecord.key := by
  have hok : AllSteps EffectEngine.step SweepsInTurnAndIntended .start
      (orphaned ++ [.sweep 0, .read 0] ++ settles 0 .rejected) :=
    ⟨trivial, trivial, trivial, trivial, trivial, sweepsInTurnAndIntended_read (by decide), trivial,
      trivial, trivial, trivial, trivial⟩
  exact ⟨by decide, (settled_key_done _ hok "mint-1" (by decide)).1⟩

end PraxisPolicy
