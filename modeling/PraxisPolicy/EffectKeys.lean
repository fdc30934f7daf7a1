import PraxisPolicy.EffectSweeps

/-!
# Who can still settle a key

While sweeps do not overlap, those who can still bring a terminal record of a key exclude each
other: its owner, an append whose caller is gone, and a sweep that lists it.
-/

namespace PraxisPolicy

open HashMaps

section Busy

variable {inFlight : InFlightEffects} {key other : String}

theorem isBusy_iff : inFlight.isBusy key = true ↔
    key ∈ inFlight.openKeys ∨ key ∈ inFlight.touchedDuringSweep := by
  simp [InFlightEffects.isBusy]

theorem isBusy_open_of_ne (h : key ≠ other) :
    (inFlight.open other).isBusy key = inFlight.isBusy key := by
  rw [Bool.eq_iff_iff, isBusy_iff, isBusy_iff, InFlightEffects.open]
  dsimp only
  split_ifs <;> simp [h]

theorem isBusy_close_of_ne (h : key ≠ other) :
    (inFlight.close other).isBusy key = inFlight.isBusy key := by
  rw [Bool.eq_iff_iff, isBusy_iff, isBusy_iff, InFlightEffects.close]
  dsimp only
  split_ifs <;> simp [h]

theorem isBusy_close_self (h : 0 < inFlight.sweeps) : (inFlight.close key).isBusy key = true := by
  rw [isBusy_iff, InFlightEffects.close]
  simp [h]

theorem isBusy_endSweep (h : 1 < inFlight.sweeps) :
    inFlight.endSweep.isBusy key = inFlight.isBusy key := by
  have hsome : inFlight.sweeps - 1 ≠ 0 := by omega
  simp [InFlightEffects.endSweep, InFlightEffects.isBusy, hsome]

end Busy

def SweepRun.keys (run : SweepRun) : List String :=
  (run.current.toList ++ run.todo).map EffectRecord.key

/-- A sweep may come to append a terminal record of the key. -/
def Holding (s : EffectEngine) (key : String) (id : ℕ) : Prop :=
  ∃ run, s.sweeps.lookup id = some run ∧
    ((∃ record, run.current = some record ∧ record.key = key) ∨
      (key ∈ run.todo.map EffectRecord.key ∧ s.inFlight.isBusy key = false))

def OwnedBy (s : EffectEngine) (record : EffectRecord) : AppendOwner → Prop
  | .call key => key = record.key ∧ ∃ call, s.calls key = some call ∧
      call.pendingRecord = some record
  | .sweep id => ∃ todo, s.sweeps.lookup id = some (.appending record todo)
  | .nobody => s.calls record.key = none

structure KeyKept (s : EffectEngine) (key : String) : Prop where
  fresh : key ∉ s.startedKeys → s.calls key = none ∧ ofKey key s.log = [] ∧
    key ∉ s.terminals ∧ (∀ record owner, s.lock = some (record, owner) → record.key ≠ key) ∧
    ∀ id run, s.sweeps.lookup id = some run → key ∉ run.keys
  live : ∀ call, s.calls key = some call →
    call.opened = true ∧ call.effect.key = key ∧ key ∈ s.inFlight.openKeys
  pending : ∀ call, s.calls key = some call → call.stage ≠ .ending → key ∉ s.terminals
  held : ∀ id, Holding s key id → s.calls key = none ∧ key ∉ s.terminals
  job : ∀ record owner, s.lock = some (record, owner) → record.key = key →
    key ∉ s.terminals ∧ OwnedBy s record owner ∧ ∀ id, Holding s key id → owner = .sweep id
  resolved : key ∈ s.terminals → ofKey key (unresolvedRecords s.log) = []
  once : s.terminals.count key ≤ 1

structure SweepsKept (s : EffectEngine) : Prop where
  counted : s.inFlight.sweeps = s.sweeps.keys.card
  alone : ∀ i j run run', s.sweeps.lookup i = some run → s.sweeps.lookup j = some run' →
    run ≠ .started → run' ≠ .started → i = j
  distinct : ∀ id run, s.sweeps.lookup id = some run → run.keys.Nodup

/-- Nothing was added that concerns the key. -/
structure SameKey (s t : EffectEngine) (key : String) : Prop where
  started : key ∈ t.startedKeys ↔ key ∈ s.startedKeys
  calls : t.calls key = s.calls key
  openKeys : key ∈ s.inFlight.openKeys → key ∈ t.inFlight.openKeys
  log : ofKey key s.log = [] → ofKey key t.log = []
  unresolved : ofKey key (unresolvedRecords s.log) = [] → ofKey key (unresolvedRecords t.log) = []
  terminals : t.terminals.count key = s.terminals.count key
  lock : ∀ record owner, t.lock = some (record, owner) → record.key = key →
    s.lock = some (record, owner) ∧ (OwnedBy s record owner → OwnedBy t record owner)
  keys : ∀ id run, t.sweeps.lookup id = some run → key ∈ run.keys →
    ∃ old, s.sweeps.lookup id = some old ∧ key ∈ old.keys
  holding : ∀ id, Holding t key id → Holding s key id

theorem KeyKept.of_sameKey {s t : EffectEngine} {key : String} (h : KeyKept s key)
    (hsame : SameKey s t key) : KeyKept t key := by
  have hterminals : key ∈ t.terminals ↔ key ∈ s.terminals := by
    rw [← List.count_pos_iff, ← List.count_pos_iff, hsame.terminals]
  refine ⟨fun hfresh => ?_, fun call hcall => ?_, ?_, fun id hheld => ?_,
    fun record owner hjob hkey => ?_, fun hmem => ?_, hsame.terminals.trans_le h.once⟩
  · obtain ⟨hcalls, hlog, hnot, hlock, hkeys⟩ := h.fresh (hsame.started.not.1 hfresh)
    refine ⟨hsame.calls.trans hcalls, hsame.log hlog, hterminals.not.2 hnot, ?_, ?_⟩
    · intro record owner hjob hkey
      exact hlock record owner (hsame.lock record owner hjob hkey).1 hkey
    · intro id run hrun hmem
      obtain ⟨old, hold, hkey⟩ := hsame.keys id run hrun hmem
      exact hkeys id old hold hkey
  · obtain ⟨hopened, hkey, hopen⟩ := h.live call (hsame.calls ▸ hcall)
    exact ⟨hopened, hkey, hsame.openKeys hopen⟩
  · rw [hsame.calls, hterminals]
    exact h.pending
  · rw [hsame.calls, hterminals]
    exact h.held id (hsame.holding id hheld)
  · obtain ⟨hold, howned⟩ := hsame.lock record owner hjob hkey
    obtain ⟨hnot, howner, hheld⟩ := h.job record owner hold hkey
    exact ⟨hterminals.not.2 hnot, howned howner, fun id hid => hheld id (hsame.holding id hid)⟩
  · exact hsame.unresolved (h.resolved (hterminals.1 hmem))

section Log

variable {key : String} {log : List EffectRecord} {record : EffectRecord}

theorem resolvedKeys_singleton (record : EffectRecord) :
    resolvedKeys [record] = if record.state.terminal then [record.key] else [] := by
  rw [resolvedKeys, List.filter_singleton]
  cases record.state.terminal <;> rfl

theorem ofKey_singleton_of_ne (h : record.key ≠ key) : ofKey key [record] = [] := by
  simp [ofKey, h]

theorem notMem_resolvedKeys_singleton (h : record.key ≠ key) : key ∉ resolvedKeys [record] := by
  rw [resolvedKeys_singleton]
  split_ifs <;> simp [h.symm]

theorem ofKey_unresolvedRecords_append_of_ne (h : record.key ≠ key) :
    ofKey key (unresolvedRecords (log ++ [record])) = ofKey key (unresolvedRecords log) := by
  have hresolved : key ∈ resolvedKeys (log ++ [record]) ↔ key ∈ resolvedKeys log := by
    rw [resolvedKeys_append, List.mem_append]
    exact or_iff_left (notMem_resolvedKeys_singleton h)
  simp only [ofKey_unresolvedRecords, ofKey_append, ofKey_singleton_of_ne h, List.append_nil,
    hresolved]

theorem ofKey_unresolvedRecords_eq_nil (h : ofKey key log = []) :
    ofKey key (unresolvedRecords log) = [] := by
  rw [ofKey_unresolvedRecords, h]
  split_ifs <;> rfl

end Log

section Steps

variable {s : EffectEngine} {key other : String} {call : EffectCall} {record : EffectRecord}
  {t : EffectEngine} {owner : AppendOwner}

theorem Holding.not_started {id : ℕ} (h : Holding s key id) :
    ∃ run, s.sweeps.lookup id = some run ∧ run ≠ .started ∧ key ∈ run.keys := by
  obtain ⟨run, hrun, ⟨record, hcurrent, hkey⟩ | ⟨htodo, -⟩⟩ := h
  · refine ⟨run, hrun, ?_, ?_⟩
    · rintro rfl
      cases hcurrent
    · simp [SweepRun.keys, hcurrent, hkey]
  · refine ⟨run, hrun, ?_, ?_⟩
    · rintro rfl
      cases htodo
    · rw [SweepRun.keys, List.map_append]
      exact List.mem_append_right _ htodo

theorem sameKey_compact (s : EffectEngine) (key : String) :
    SameKey s { s with log := unresolvedRecords s.log } key where
  started := Iff.rfl
  calls := rfl
  openKeys := id
  log := ofKey_unresolvedRecords_eq_nil
  unresolved := ofKey_unresolvedRecords_eq_nil
  terminals := rfl
  lock _ _ hjob _ := ⟨hjob, id⟩
  keys _ run hrun hmem := ⟨run, hrun, hmem⟩
  holding _ hholding := hholding

theorem SameKey.of_sweeps (hcalls : t.calls key = s.calls key)
    (hstarted : key ∈ t.startedKeys ↔ key ∈ s.startedKeys)
    (hopen : key ∈ s.inFlight.openKeys → key ∈ t.inFlight.openKeys)
    (hbusy : t.inFlight.isBusy key = s.inFlight.isBusy key) (hlog : t.log = s.log)
    (hreceived : t.received = s.received) (hsweeps : t.sweeps = s.sweeps)
    (hlock : ∀ record owner, t.lock = some (record, owner) → record.key = key →
      s.lock = some (record, owner)) :
    SameKey s t key where
  started := hstarted
  calls := hcalls
  openKeys := hopen
  log := by rw [hlog]; exact id
  unresolved := by rw [hlog]; exact id
  terminals := by rw [EffectEngine.terminals, EffectEngine.terminals, hreceived]
  lock record owner hjob hkey := by
    refine ⟨hlock record owner hjob hkey, ?_⟩
    cases owner with
    | call other =>
      rintro ⟨hother, call, hcall, hrecord⟩
      refine ⟨hother, call, ?_, hrecord⟩
      rw [hother, hkey] at hcall ⊢
      rwa [hcalls]
    | sweep id =>
      rintro ⟨todo, htodo⟩
      exact ⟨todo, by rwa [hsweeps]⟩
    | nobody =>
      intro hnone
      rw [OwnedBy, hkey] at hnone ⊢
      rwa [hcalls]
  keys _ run hrun hmem := ⟨run, hsweeps ▸ hrun, hmem⟩
  holding _ hholding := by
    obtain ⟨run, hrun, hrest⟩ := hholding
    rw [hbusy] at hrest
    exact ⟨run, hsweeps ▸ hrun, hrest⟩

theorem KeyKept.perform (h : KeyKept s key) (plugin : String) {effect : EffectRecord}
    (hnew : effect.key ∉ s.startedKeys) :
    KeyKept (s.step (.perform plugin effect)) key := by
  rw [EffectEngine.step, if_neg hnew]
  by_cases hkey : key = effect.key
  · subst hkey
    obtain ⟨-, hlog, hterminals, hlock, hsweeps⟩ := h.fresh hnew
    refine ⟨by simp, ?_, fun _ _ _ => hterminals, ?_,
      fun record owner hjob hkey => absurd hkey (hlock record owner hjob),
      fun hmem => absurd hmem hterminals, h.once⟩
    · intro call hcall
      obtain rfl : _ = call := by simpa using hcall
      exact ⟨rfl, rfl, Finset.mem_insert_self _ _⟩
    · intro id hholding
      obtain ⟨run, hrun, -, hmem⟩ := hholding.not_started
      exact absurd hmem (hsweeps id run hrun)
  · refine h.of_sameKey (SameKey.of_sweeps ?_ ?_ ?_ ?_ rfl rfl rfl (fun _ _ hjob _ => hjob))
    · exact Function.update_of_ne hkey _ _
    · simp [hkey]
    · exact Finset.mem_insert_of_mem
    · exact isBusy_open_of_ne hkey

theorem KeyKept.running (h : KeyKept s key) (hcall : s.calls key = some call) :
    key ∈ s.startedKeys ∧ ∀ id, ¬ Holding s key id := by
  have hfresh := h.fresh
  have hheld := h.held
  grind

theorem KeyKept.no_job (h : KeyKept s key) (hcall : s.calls key = some call)
    (hidle : call.pendingRecord = none) :
    ∀ record owner, s.lock = some (record, owner) → record.key ≠ key := by
  intro record owner hjob hkey
  obtain ⟨-, hby, -⟩ := h.job record owner hjob hkey
  cases owner with
  | call other => grind [OwnedBy]
  | sweep id =>
    obtain ⟨todo, htodo⟩ := hby
    exact (h.running hcall).2 id ⟨_, htodo, .inl ⟨record, rfl, hkey⟩⟩
  | nobody => grind [OwnedBy]

theorem KeyKept.acted (h : KeyKept s key) (hcall : s.calls other = some call)
    (hstage : call.stage = .acting) (state : EffectState) :
    KeyKept (s.setCall other (some { call with stage := .closing state })) key := by
  by_cases hkey : key = other
  · subst hkey
    have hidle : call.pendingRecord = none := by simp [EffectCall.pendingRecord, hstage]
    have hjob := h.no_job hcall hidle
    have hpending : key ∉ s.terminals := h.pending call hcall (by simp [hstage])
    obtain ⟨hstarted, hholding⟩ := h.running hcall
    refine ⟨fun hfresh => absurd hstarted hfresh, ?_, fun _ _ _ => hpending,
      fun id hheld => absurd hheld (hholding id),
      fun record owner hlock hkey => absurd hkey (hjob record owner hlock), h.resolved, h.once⟩
    intro call' hcall'
    obtain rfl : _ = call' := by simpa [EffectEngine.setCall] using hcall'
    exact h.live call hcall
  · refine h.of_sameKey (SameKey.of_sweeps ?_ Iff.rfl id rfl rfl rfl rfl (fun _ _ hjob _ => hjob))
    exact Function.update_of_ne hkey _ _

theorem SweepsKept.sweeps_pos (h : SweepsKept s) {id : ℕ} {run : SweepRun}
    (hrun : s.sweeps.lookup id = some run) : 0 < s.inFlight.sweeps := by
  rw [h.counted, Finset.card_pos]
  exact ⟨id, Finmap.mem_keys.2 (Finmap.mem_of_lookup_eq_some hrun)⟩

theorem KeyKept.ended (h : KeyKept s key) (hsweeps : SweepsKept s)
    (hcall : s.calls other = some call)
    (ht : t = { s.setCall other none with inFlight := s.inFlight.close other, lock := t.lock })
    (hlock : ∀ record owner, t.lock = some (record, owner) → record.key = key →
      if key = other then owner = .nobody ∧ ∃ holder, s.lock = some (record, holder)
      else s.lock = some (record, owner)) :
    KeyKept t key := by
  have hsame : t.log = s.log ∧ t.received = s.received ∧ t.startedKeys = s.startedKeys ∧
      t.sweeps = s.sweeps ∧ t.inFlight = s.inFlight.close other ∧
      t.calls = Function.update s.calls other none := by
    rw [ht]
    exact ⟨rfl, rfl, rfl, rfl, rfl, rfl⟩
  obtain ⟨hlog, hreceived, hstarted, hruns, hinFlight, hcalls⟩ := hsame
  by_cases hkey : key = other
  · subst hkey
    obtain ⟨hopened, hholding⟩ := h.running hcall
    have hterminals : t.terminals = s.terminals := by simp [EffectEngine.terminals, hreceived]
    have hnone : ∀ id, ¬ Holding t key id := by
      rintro id ⟨run, hrun, hrest⟩
      rw [hruns] at hrun
      rcases hrest with hcurrent | ⟨-, hidle⟩
      · exact hholding id ⟨run, hrun, .inl hcurrent⟩
      · -- it closed while a sweep was running
        rw [hinFlight, isBusy_close_self (hsweeps.sweeps_pos hrun)] at hidle
        cases hidle
    have hover : t.calls key = none := by rw [hcalls, Function.update_self]
    refine ⟨by grind, by grind, by grind, fun id hheld => absurd hheld (hnone id), ?_, ?_, ?_⟩
    · intro record owner hjob hrecord
      have howner := hlock record owner hjob hrecord
      rw [if_pos rfl] at howner
      obtain ⟨rfl, holder, hold⟩ := howner
      refine ⟨?_, ?_, fun id hheld => absurd hheld (hnone id)⟩
      · rw [hterminals]
        exact (h.job record holder hold hrecord).1
      · simp [OwnedBy, hrecord, hcalls]
    · rw [hterminals, hlog]
      exact h.resolved
    · rw [hterminals]
      exact h.once
  · refine h.of_sameKey (SameKey.of_sweeps ?_ ?_ ?_ ?_ hlog hreceived hruns ?_)
    · rw [hcalls, Function.update_of_ne hkey]
    · rw [hstarted]
    · rw [hinFlight]
      exact fun hmem => Finset.mem_erase.2 ⟨hkey, hmem⟩
    · rw [hinFlight, isBusy_close_of_ne hkey]
    · intro record owner hjob hrecord
      simpa [hkey] using hlock record owner hjob hrecord

theorem KeyKept.close (h : ∀ key, KeyKept s key) (hsweeps : SweepsKept s)
    (hcall : s.calls other = some call) (hstage : call.stage = .ending) :
    KeyKept { s.setCall other none with inFlight := s.inFlight.close other } key := by
  refine (h key).ended hsweeps hcall rfl ?_
  intro record owner hjob hrecord
  have hidle : call.pendingRecord = none := by simp [EffectCall.pendingRecord, hstage]
  split_ifs with hkey
  · subst hkey
    exact absurd hrecord ((h key).no_job hcall hidle record owner hjob)
  · exact hjob

theorem KeyKept.drop (h : ∀ key, KeyKept s key) (hsweeps : SweepsKept s)
    (hcall : s.calls other = some call) :
    KeyKept ({ s.setCall other none with
      inFlight := s.inFlight.close other }.disown (.call other)) key := by
  refine (h key).ended hsweeps hcall rfl ?_
  intro record owner hjob hrecord
  obtain ⟨⟨record', holder⟩, hold, heq⟩ := Option.map_eq_some_iff.1 hjob
  have hold' : s.lock = some (record', holder) := hold
  obtain rfl : record' = record := by
    split_ifs at heq <;> exact congrArg Prod.fst heq
  obtain ⟨-, hby, -⟩ := (h key).job record' holder hold' hrecord
  cases holder with
  | call own =>
    have hown : own = key := hby.1.trans hrecord
    grind
  | sweep id =>
    obtain ⟨todo, htodo⟩ := hby
    have hheld : Holding s key id := ⟨_, htodo, .inl ⟨record', rfl, hrecord⟩⟩
    have hidle := ((h key).held id hheld).1
    grind
  | nobody => grind [OwnedBy]

theorem EffectCall.key_of_pendingRecord (h : call.pendingRecord = some record) :
    record.key = call.effect.key ∧ call.stage ≠ .ending := by
  rw [EffectCall.pendingRecord] at h
  cases hstage : call.stage <;> rw [hstage] at h <;> cases h <;> exact ⟨rfl, by simp⟩

/-- A record that waits for the lock is that of a call under way, or of the one sweep of its key. -/
theorem KeyKept.of_waiting (h : ∀ key, KeyKept s key) (hsweeps : SweepsKept s)
    (hwaiting : s.waiting owner = some record) :
    record.key ∈ s.startedKeys ∧ record.key ∉ s.terminals ∧ OwnedBy s record owner ∧
      ∀ id, Holding s record.key id → owner = .sweep id := by
  cases owner with
  | nobody => cases hwaiting
  | call own =>
    obtain ⟨call, hcall, hpending⟩ := Option.bind_eq_some_iff.1 hwaiting
    obtain ⟨heffect, hstage⟩ := EffectCall.key_of_pendingRecord hpending
    have hown : record.key = own := heffect.trans ((h own).live call hcall).2.1
    obtain ⟨hstarted, hholding⟩ := (h own).running hcall
    rw [hown]
    exact ⟨hstarted, (h own).pending call hcall hstage, ⟨hown.symm, call, hcall, hpending⟩,
      fun id hheld => absurd hheld (hholding id)⟩
  | sweep id =>
    rw [EffectEngine.waiting] at hwaiting
    split at hwaiting
    · rename_i settled todo hrun
      obtain rfl : settled = record := Option.some.inj hwaiting
      have hholding : Holding s settled.key id := ⟨_, hrun, .inl ⟨settled, rfl, rfl⟩⟩
      refine ⟨?_, ((h settled.key).held id hholding).2, ⟨todo, hrun⟩, ?_⟩
      · by_contra hfresh
        obtain ⟨run, hrun', -, hmem⟩ := hholding.not_started
        exact ((h settled.key).fresh hfresh).2.2.2.2 id run hrun' hmem
      · intro other hother
        obtain ⟨run, hrun', hstarted, -⟩ := hother.not_started
        rw [hsweeps.alone other id run _ hrun' hrun hstarted (by simp)]
    · cases hwaiting

theorem KeyKept.lock (h : ∀ key, KeyKept s key) (hsweeps : SweepsKept s)
    (hwaiting : s.waiting owner = some record) :
    KeyKept { s with lock := some (record, owner) } key := by
  by_cases hkey : record.key = key
  · subst hkey
    obtain ⟨hstarted, hterminals, hby, hheld⟩ := KeyKept.of_waiting h hsweeps hwaiting
    have hbefore := h record.key
    refine ⟨fun hfresh => absurd hstarted hfresh, hbefore.live, hbefore.pending, hbefore.held, ?_,
      hbefore.resolved, hbefore.once⟩
    intro record' owner' hjob _
    cases hjob
    exact ⟨hterminals, hby, hheld⟩
  · refine (h key).of_sameKey (SameKey.of_sweeps rfl Iff.rfl id rfl rfl rfl rfl ?_)
    intro record' owner' hjob hrecord
    cases hjob
    exact absurd hrecord hkey

end Steps

end PraxisPolicy
