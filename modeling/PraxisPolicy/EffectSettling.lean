import PraxisPolicy.EffectKeys

/-!
# Sweeps and appends keep the keys apart

The steps of a sweep, and the return of the append that holds the lock.
-/

namespace PraxisPolicy

open HashMaps

variable {s : EffectEngine}

section Sweeps

@[grind =] theorem lookup_setSweep (id other : ℕ) (run : SweepRun) :
    (s.setSweep id run).sweeps.lookup other = if other = id then some run else s.sweeps.lookup other :=
  lookup_insert_eq _ _ _ _

@[grind =] theorem lookup_endSweep (id other : ℕ) :
    (s.endSweep id).sweeps.lookup other = if other = id then none else s.sweeps.lookup other := by
  split_ifs with hid
  · subst hid
    exact Finmap.lookup_erase _ _
  · exact Finmap.lookup_erase_ne hid

variable {id : ℕ} {run next : SweepRun} {key : String} {todo : List EffectRecord}

theorem sameKey_setSweep (hrun : s.sweeps.lookup id = some run)
    (hlist : key ∈ next.keys → key ∈ run.keys)
    (hholding : Holding (s.setSweep id next) key id → Holding s key id)
    (hfree : ∀ record, s.lock ≠ some (record, .sweep id)) : SameKey s (s.setSweep id next) key where
  started := Iff.rfl
  calls := rfl
  openKeys := fun hmem => hmem
  log := fun hlog => hlog
  unresolved := fun hlog => hlog
  terminals := rfl
  lock record owner hjob _ := by
    refine ⟨hjob, ?_⟩
    have hunlocked := hfree record
    cases owner with
    | call other => exact fun hby => hby
    | nobody => exact fun hby => hby
    | sweep other =>
      rintro ⟨todo, htodo⟩
      exact ⟨todo, by grind [EffectEngine.setSweep]⟩
  keys other run' hrun' hmem := by grind
  holding other hother := by
    by_cases hid : other = id
    · grind
    · obtain ⟨run', hrun', hrest⟩ := hother
      exact ⟨run', by grind, hrest⟩

theorem keys_setSweep (hrun : s.sweeps.lookup id = some run) :
    (s.setSweep id next).sweeps.keys = s.sweeps.keys := by
  have hmem : id ∈ s.sweeps.keys := Finmap.mem_keys.2 (Finmap.mem_of_lookup_eq_some hrun)
  rw [EffectEngine.setSweep, keys_insert, Finset.insert_eq_of_mem hmem]

theorem SweepsKept.setSweep (h : SweepsKept s) (hrun : s.sweeps.lookup id = some run)
    (hstarted : run ≠ .started) (hdistinct : next.keys.Nodup) :
    SweepsKept (s.setSweep id next) where
  counted := h.counted.trans (congrArg Finset.card (keys_setSweep hrun).symm)
  alone := by
    have halone := h.alone
    grind
  distinct := by
    have hlists := h.distinct
    grind

theorem KeyKept.not_locked (h : ∀ key, KeyKept s key) (hrun : s.sweeps.lookup id = some run)
    (hidle : ∀ record todo, run ≠ .appending record todo) (record : EffectRecord) :
    s.lock ≠ some (record, .sweep id) := by
  intro hjob
  obtain ⟨-, ⟨todo, htodo⟩, -⟩ := (h record.key).job record (.sweep id) hjob rfl
  rw [hrun] at htodo
  exact hidle record todo (Option.some.inj htodo)

theorem sameKey_check (h : ∀ key, KeyKept s key) {record : EffectRecord}
    (hrun : s.sweeps.lookup id = some (.settling (record :: todo)))
    (hnext : next = .settling todo ∨ next = .asking record todo ∧ s.inFlight.isBusy record.key = false)
    (key : String) :
    SameKey s (s.setSweep id next) key := by
  refine sameKey_setSweep hrun ?_ ?_ (KeyKept.not_locked h hrun (by simp))
  · rcases hnext with rfl | ⟨rfl, -⟩
    · exact fun hmem => List.mem_cons_of_mem _ hmem
    · exact fun hmem => hmem
  · rintro ⟨run, hlookup, hrest⟩
    obtain rfl : next = run := by grind
    refine ⟨_, hrun, .inr ?_⟩
    rcases hnext with rfl | ⟨rfl, hidle⟩
    · grind [SweepRun.current, SweepRun.todo, EffectEngine.setSweep]
    · grind [SweepRun.current, SweepRun.todo, EffectEngine.setSweep]

theorem sameKey_answer (h : ∀ key, KeyKept s key) {record : EffectRecord}
    (hrun : s.sweeps.lookup id = some (.asking record todo))
    (hnext : next = .settling todo ∨ ∃ state, next = .appending (record.intoState state) todo)
    (key : String) :
    SameKey s (s.setSweep id next) key := by
  refine sameKey_setSweep hrun ?_ ?_ (KeyKept.not_locked h hrun (by simp))
  · rcases hnext with rfl | ⟨state, rfl⟩
    · exact fun hmem => List.mem_cons_of_mem _ hmem
    · exact fun hmem => hmem
  · rintro ⟨run, hlookup, hrest⟩
    obtain rfl : next = run := by grind
    refine ⟨_, hrun, ?_⟩
    rcases hnext with rfl | ⟨state, rfl⟩
    · grind [SweepRun.current, SweepRun.todo, EffectEngine.setSweep]
    · grind [SweepRun.current, SweepRun.todo, EffectEngine.setSweep, EffectRecord.intoState]

theorem Holding.of_endSweep (h : SweepsKept s) {other : ℕ} (hrun : s.sweeps.lookup id = some run)
    (hholding : Holding (s.endSweep id) key other) :
    other ≠ id ∧ Holding s key other := by
  obtain ⟨run', hlookup, hrest⟩ := hholding
  obtain ⟨hne, hother⟩ : other ≠ id ∧ s.sweeps.lookup other = some run' := by grind
  have hmore : 1 < s.inFlight.sweeps := by
    rw [h.counted, Finset.one_lt_card]
    exact ⟨other, Finmap.mem_keys.2 (Finmap.mem_of_lookup_eq_some hother), id,
      Finmap.mem_keys.2 (Finmap.mem_of_lookup_eq_some hrun), hne⟩
  have hbusy : (s.endSweep id).inFlight.isBusy key = s.inFlight.isBusy key :=
    isBusy_endSweep hmore
  rw [hbusy] at hrest
  exact ⟨hne, run', hother, hrest⟩

theorem SweepsKept.endSweep (h : SweepsKept s) (hrun : s.sweeps.lookup id = some run) :
    SweepsKept (s.endSweep id) where
  counted := by
    have hmem : id ∈ s.sweeps.keys := Finmap.mem_keys.2 (Finmap.mem_of_lookup_eq_some hrun)
    have hkeys : (s.sweeps.erase id).keys = s.sweeps.keys.erase id := Finmap.keys_erase id s.sweeps
    rw [EffectEngine.endSweep, hkeys, Finset.card_erase_of_mem hmem, ← h.counted]
    rfl
  alone := by
    have halone := h.alone
    grind
  distinct := by
    have hdistinct := h.distinct
    grind

theorem KeyKept.endSweep (h : KeyKept s key) (hsweeps : SweepsKept s)
    (hrun : s.sweeps.lookup id = some run) :
    KeyKept ((s.endSweep id).disown (.sweep id)) key := by
  have hholding : ∀ other, Holding ((s.endSweep id).disown (.sweep id)) key other →
      other ≠ id ∧ Holding s key other :=
    fun other hother => Holding.of_endSweep hsweeps hrun hother
  have hlock : ∀ record owner, ((s.endSweep id).disown (.sweep id)).lock = some (record, owner) →
      (s.lock = some (record, .sweep id) ∧ owner = .nobody) ∨
        (s.lock = some (record, owner) ∧ owner ≠ .sweep id) := by
    intro record owner hjob
    obtain ⟨⟨record', holder⟩, hold, heq⟩ := Option.map_eq_some_iff.1 hjob
    have hold' : s.lock = some (record', holder) := hold
    split_ifs at heq with hholder
    · cases heq
      cases hholder
      exact .inl ⟨hold', rfl⟩
    · cases heq
      exact .inr ⟨hold', hholder⟩
  refine ⟨?_, h.live, h.pending, fun other hother => h.held other (hholding other hother).2, ?_,
    h.resolved, h.once⟩
  · intro hfresh
    obtain ⟨hcalls, hlog, hterminals, hjob, hlists⟩ := h.fresh hfresh
    refine ⟨hcalls, hlog, hterminals, by grind, fun other run' hrun' => ?_⟩
    have hold : (s.endSweep id).sweeps.lookup other = some run' := hrun'
    exact hlists other run' (by grind)
  · intro record owner hnext hrecord
    rcases hlock record owner hnext with ⟨hold, rfl⟩ | ⟨hold, hne⟩
    · obtain ⟨hterminals, ⟨todo, htodo⟩, hheld⟩ := h.job record _ hold hrecord
      refine ⟨hterminals, ?_, by grind⟩
      rw [OwnedBy, hrecord]
      exact (h.held id ⟨_, htodo, .inl ⟨record, rfl, hrecord⟩⟩).1
    · obtain ⟨hterminals, hby, hheld⟩ := h.job record owner hold hrecord
      refine ⟨hterminals, ?_, fun other hother => hheld other (hholding other hother).2⟩
      cases owner with
      | call own => exact hby
      | nobody => exact hby
      | sweep other =>
        obtain ⟨todo, htodo⟩ := hby
        have hother : other ≠ id := fun heq => hne (congrArg AppendOwner.sweep heq)
        exact ⟨todo, (Finmap.lookup_erase_ne hother).trans htodo⟩

theorem disown_eq_self {owner : AppendOwner} (h : ∀ record, s.lock ≠ some (record, owner)) :
    s.disown owner = s := by
  obtain ⟨log, received, lock, inFlight, calls, startedKeys, sweeps⟩ := s
  rcases lock with _ | ⟨record, holder⟩
  · rfl
  · have hne : holder ≠ owner := by
      rintro rfl
      exact h record rfl
    simp [EffectEngine.disown, hne]

theorem sameKey_sweep (hnew : id ∉ s.sweeps) (key : String) :
    SameKey s { s.setSweep id .started with inFlight := s.inFlight.sweep } key where
  started := Iff.rfl
  calls := rfl
  openKeys := fun hmem => hmem
  log := fun hlog => hlog
  unresolved := fun hlog => hlog
  terminals := rfl
  lock record owner hjob _ := by
    refine ⟨hjob, ?_⟩
    cases owner with
    | call other => exact fun hby => hby
    | nobody => exact fun hby => hby
    | sweep other =>
      rintro ⟨todo, htodo⟩
      have hmem := Finmap.mem_of_lookup_eq_some htodo
      exact ⟨todo, by grind⟩
  keys other run hrun hmem := by
    have hstarted : key ∉ SweepRun.started.keys := List.not_mem_nil
    grind
  holding other hother := by
    obtain ⟨run, hrun, hrest⟩ := hother
    have hne : run ≠ .started := by
      rintro rfl
      rcases hrest with ⟨record, hcurrent, -⟩ | ⟨hmem, -⟩
      · cases hcurrent
      · cases hmem
    exact ⟨run, by grind, hrest⟩

theorem SweepsKept.sweep (h : SweepsKept s) (hnew : id ∉ s.sweeps) :
    SweepsKept { s.setSweep id .started with inFlight := s.inFlight.sweep } where
  counted := by
    have hmem : id ∉ s.sweeps.keys := fun hmem => hnew (Finmap.mem_keys.1 hmem)
    have hkeys : ({ s.setSweep id .started with inFlight := s.inFlight.sweep } :
        EffectEngine).sweeps.keys = insert id s.sweeps.keys := keys_insert _ _ _
    rw [hkeys, Finset.card_insert_of_notMem hmem, ← h.counted]
    rfl
  alone := by
    have halone := h.alone
    grind
  distinct := by
    have hnil : SweepRun.started.keys.Nodup := List.nodup_nil
    have hdistinct := h.distinct
    grind

theorem ofKey_unresolvedRecords_ne_nil {log : List EffectRecord}
    (h : key ∈ (unresolvedRecords log).map EffectRecord.key) :
    ofKey key (unresolvedRecords log) ≠ [] := by
  obtain ⟨record, hrecord, hkey⟩ := List.mem_map.1 h
  exact List.ne_nil_of_mem (List.mem_filter.2 ⟨hrecord, by simpa using hkey⟩)

/-- The list a sweep reads names open keys; those not busy have no owner left. -/
theorem KeyKept.read (h : ∀ key, KeyKept s key) (hfree : s.lock = none)
    (hrun : s.sweeps.lookup id = some .started)
    (hok : ∀ other run, s.sweeps.lookup other = some run → other ≠ id → run = .started) :
    KeyKept ({ s with log := unresolvedRecords s.log }.setSweep id
      (.settling (unresolvedRecords s.log))) key := by
  have hbefore := (h key).of_sameKey (sameKey_compact s key)
  have hholding : ∀ other, Holding ({ s with log := unresolvedRecords s.log }.setSweep id
      (.settling (unresolvedRecords s.log))) key other →
      key ∈ (unresolvedRecords s.log).map EffectRecord.key ∧ s.inFlight.isBusy key = false := by
    rintro other ⟨run, hlookup, hrest⟩
    have hread : run = .settling (unresolvedRecords s.log) ∨ run = .started := by grind
    rcases hread with rfl | rfl
    · rcases hrest with ⟨record, hcurrent, -⟩ | hrest
      · cases hcurrent
      · exact hrest
    · rcases hrest with ⟨record, hcurrent, -⟩ | ⟨hmem, -⟩
      · cases hcurrent
      · cases hmem
  refine ⟨?_, hbefore.live, hbefore.pending, ?_, ?_, hbefore.resolved, hbefore.once⟩
  · intro hfresh
    obtain ⟨hcalls, hlog, hterminals, hjob, hlists⟩ := hbefore.fresh hfresh
    refine ⟨hcalls, hlog, hterminals, hjob, fun other run hlookup => ?_⟩
    have hlist : key ∉ (SweepRun.settling (unresolvedRecords s.log)).keys :=
      fun hmem => ofKey_unresolvedRecords_ne_nil hmem hlog
    grind
  · intro other hother
    obtain ⟨hmem, hbusy⟩ := hholding other hother
    refine ⟨?_, fun hterminal => ofKey_unresolvedRecords_ne_nil hmem ((h key).resolved hterminal)⟩
    have hlive := (h key).live
    have hclosed : key ∉ s.inFlight.openKeys := fun hopen => by
      rw [isBusy_iff.2 (.inl hopen)] at hbusy
      cases hbusy
    exact Option.eq_none_iff_forall_ne_some.2 fun call hcall => hclosed (hlive call hcall).2.2
  · intro record owner hjob
    cases hfree.symm.trans hjob

theorem SweepsKept.read (h : SweepsKept s) (hrun : s.sweeps.lookup id = some .started)
    (hok : ∀ other run, s.sweeps.lookup other = some run → other ≠ id → run = .started) :
    SweepsKept ({ s with log := unresolvedRecords s.log }.setSweep id
      (.settling (unresolvedRecords s.log))) where
  counted := h.counted.trans (congrArg Finset.card (keys_setSweep hrun).symm)
  alone := by grind
  distinct := by
    have hlist : (SweepRun.settling (unresolvedRecords s.log)).keys.Nodup :=
      nodup_keys_unresolvedRecords s.log
    have hdistinct := h.distinct
    grind

end Sweeps

section Landing

variable {record : EffectRecord} {owner : AppendOwner} {arrived : List EffectRecord}

def EffectEngine.land (s : EffectEngine) (arrived : List EffectRecord) : EffectEngine :=
  { s with lock := none, log := s.log ++ arrived, received := s.received ++ arrived }

theorem SweepsKept.land (h : SweepsKept s) : SweepsKept (s.land arrived) :=
  ⟨h.counted, h.alone, h.distinct⟩

theorem resolvedKeys_arrived (harrived : arrived = [record] ∨ arrived = []) :
    resolvedKeys arrived = [record.key] ∧ record.state.terminal = true ∧ arrived = [record] ∨
      resolvedKeys arrived = [] := by
  rcases harrived with rfl | rfl
  · rw [resolvedKeys_singleton]
    cases hterminal : record.state.terminal with
    | true => exact .inl ⟨rfl, rfl, rfl⟩
    | false => exact .inr rfl
  · exact .inr rfl

theorem sameKey_land (harrived : arrived = [record] ∨ arrived = []) {key : String}
    (hkey : record.key ≠ key) : SameKey s (s.land arrived) key where
  started := Iff.rfl
  calls := rfl
  openKeys := fun hmem => hmem
  log := by
    intro hlog
    rcases harrived with rfl | rfl
    · rw [EffectEngine.land, ofKey_append, hlog, ofKey_singleton_of_ne hkey]
      rfl
    · rwa [EffectEngine.land, List.append_nil]
  unresolved := by
    intro hlog
    rcases harrived with rfl | rfl
    · rwa [EffectEngine.land, ofKey_unresolvedRecords_append_of_ne hkey]
    · rwa [EffectEngine.land, List.append_nil]
  terminals := by
    have hnone : (resolvedKeys arrived).count key = 0 := by
      rcases harrived with rfl | rfl
      · exact List.count_eq_zero.2 (notMem_resolvedKeys_singleton hkey)
      · rfl
    rw [EffectEngine.terminals, EffectEngine.terminals, EffectEngine.land, resolvedKeys_append,
      List.count_append, hnone, Nat.add_zero]
  lock record' owner' hjob := by cases hjob
  keys _ run hrun hmem := ⟨run, hrun, hmem⟩
  holding _ hholding := hholding

variable {t : EffectEngine}

/-- After a terminal record nobody has another of the key to bring. -/
theorem KeyKept.landed (h : KeyKept s record.key) (hjob : s.lock = some (record, owner))
    (harrived : arrived = [record] ∨ arrived = [])
    (hlog : t.log = s.log ++ arrived) (hreceived : t.received = s.received ++ arrived)
    (hstarted : t.startedKeys = s.startedKeys) (hlock : t.lock = none)
    (hlive : ∀ call, t.calls record.key = some call → call.opened = true ∧
      call.effect.key = record.key ∧ record.key ∈ t.inFlight.openKeys ∧
      (call.stage ≠ .ending → record.state.terminal = false))
    (hheld : ∀ id, ¬ Holding t record.key id) : KeyKept t record.key := by
  obtain ⟨hbefore, -, -⟩ := h.job record owner hjob rfl
  have hterminals : t.terminals = s.terminals ++ resolvedKeys arrived := by
    rw [EffectEngine.terminals, hreceived, resolvedKeys_append]
    rfl
  refine ⟨?_, fun call hcall => ?_, fun call hcall hstage => ?_,
    fun id hholding => absurd hholding (hheld id), by simp [hlock], fun hmem => ?_, ?_⟩
  · intro hfresh
    rw [hstarted] at hfresh
    exact absurd rfl ((h.fresh hfresh).2.2.2.1 record owner hjob)
  · obtain ⟨hopened, heffect, hopen, -⟩ := hlive call hcall
    exact ⟨hopened, heffect, hopen⟩
  · have hstate := (hlive call hcall).2.2.2 hstage
    rw [hterminals]
    rcases resolvedKeys_arrived harrived with ⟨-, hterminal, -⟩ | hnone
    · rw [hstate] at hterminal
      cases hterminal
    · rwa [hnone, List.append_nil]
  · rw [hterminals, List.mem_append] at hmem
    rw [ofKey_unresolvedRecords, if_pos]
    rw [hlog, resolvedKeys_append]
    exact List.mem_append_right _ (hmem.resolve_left hbefore)
  · rw [hterminals, List.count_append, List.count_eq_zero.2 hbefore]
    rcases resolvedKeys_arrived harrived with ⟨hone, -, -⟩ | hnone
    · simp [hone]
    · simp [hnone]

theorem KeyKept.landed_dead (h : KeyKept s record.key) (hjob : s.lock = some (record, owner))
    (harrived : arrived = [record] ∨ arrived = [])
    (hlog : t.log = s.log ++ arrived) (hreceived : t.received = s.received ++ arrived)
    (hstarted : t.startedKeys = s.startedKeys) (hlock : t.lock = none)
    (hdead : t.calls record.key = none) (hheld : ∀ id, ¬ Holding t record.key id) :
    KeyKept t record.key := by
  refine h.landed hjob harrived hlog hreceived hstarted hlock ?_ hheld
  intro call hcall
  rw [hdead] at hcall
  cases hcall

theorem KeyKept.deliver_call (h : ∀ key, KeyKept s key) {own : String}
    (hjob : s.lock = some (record, .call own)) (harrived : arrived = [record] ∨ arrived = [])
    (acknowledged : Bool) (key : String) :
    KeyKept ((s.land arrived).deliver acknowledged (.call own)) key := by
  obtain ⟨-, ⟨hown, call, hcall, hpending⟩, hnone⟩ := (h record.key).job record _ hjob rfl
  obtain ⟨hopened, heffect, hopen⟩ := (h own).live call hcall
  have hheld : ∀ id, ¬ Holding s record.key id := by
    intro id hholding
    cases hnone id hholding
  -- the stage it goes on to, and that an intent does not end anything
  obtain ⟨stage, hdeliver, hstage⟩ : ∃ stage, (s.land arrived).deliver acknowledged (.call own) =
      (s.land arrived).setCall own (some { call with stage := stage }) ∧
      (stage ≠ .ending → record.state.terminal = false) := by
    have hcall' : (s.land arrived).calls own = some call := hcall
    rw [EffectCall.pendingRecord] at hpending
    cases hcase : call.stage <;> rw [hcase] at hpending <;> cases hpending
    · refine ⟨if acknowledged then .acting else .ending, ?_, fun _ => rfl⟩
      simp only [EffectEngine.deliver, hcall', hcase]
    · refine ⟨.ending, ?_, fun hne => absurd rfl hne⟩
      simp only [EffectEngine.deliver, hcall', hcase]
  rw [hdeliver]
  by_cases hkey : record.key = key
  · subst hkey
    refine (h record.key).landed hjob harrived rfl rfl rfl rfl ?_ hheld
    intro call' hcall'
    rw [← hown] at hcall' ⊢
    obtain rfl : _ = call' := by simpa [EffectEngine.setCall] using hcall'
    exact ⟨hopened, heffect, hopen, hstage⟩
  · have hland := (h key).of_sameKey (sameKey_land harrived hkey)
    refine hland.of_sameKey (SameKey.of_sweeps ?_ Iff.rfl (fun hmem => hmem) rfl rfl rfl rfl
      (fun _ _ hlock _ => hlock))
    have hne : key ≠ own := fun heq => hkey (hown.symm.trans heq.symm)
    exact Function.update_of_ne hne _ _

theorem KeyKept.deliver_sweep (h : ∀ key, KeyKept s key) (hsweeps : SweepsKept s) {id : ℕ}
    (hjob : s.lock = some (record, .sweep id)) (harrived : arrived = [record] ∨ arrived = [])
    (acknowledged : Bool) (key : String) :
    KeyKept ((s.land arrived).deliver acknowledged (.sweep id)) key := by
  obtain ⟨-, ⟨todo, hrun⟩, hnone⟩ := (h record.key).job record _ hjob rfl
  have hrun' : (s.land arrived).sweeps.lookup id = some (.appending record todo) := hrun
  have hland : SweepsKept (s.land arrived) := hsweeps.land
  have hdead : s.calls record.key = none :=
    ((h record.key).held id ⟨_, hrun, .inl ⟨record, rfl, rfl⟩⟩).1
  have hdeliver : (s.land arrived).deliver acknowledged (.sweep id) =
      if acknowledged then (s.land arrived).setSweep id (.settling todo)
      else (s.land arrived).endSweep id := by
    simp only [EffectEngine.deliver, hrun']
  rw [hdeliver]
  by_cases hkey : record.key = key
  · subst hkey
    cases acknowledged with
    | true =>
      refine (h record.key).landed_dead hjob harrived rfl rfl rfl rfl hdead ?_
      -- the key is not on the rest of the list, and no other sweep holds it
      rintro other ⟨run, hlookup, hrest⟩
      by_cases hid : other = id
      · obtain rfl : SweepRun.settling todo = run := by grind
        have hdistinct := hsweeps.distinct _ _ hrun
        rcases hrest with ⟨record', hcurrent, -⟩ | ⟨hmem, -⟩
        · cases hcurrent
        · exact (List.nodup_cons.1 hdistinct).1 hmem
      · have hother : Holding s record.key other :=
          ⟨run, (Finmap.lookup_insert_of_ne _ hid).symm.trans hlookup, hrest⟩
        cases hnone other hother
        exact hid rfl
    | false =>
      refine (h record.key).landed_dead hjob harrived rfl rfl rfl rfl hdead ?_
      intro other hother
      obtain ⟨hid, hbefore⟩ := Holding.of_endSweep hland hrun' hother
      cases hnone other hbefore
      exact hid rfl
  · have hbefore := (h key).of_sameKey (sameKey_land harrived hkey)
    have hunlocked : ∀ record', (s.land arrived).lock ≠ some (record', .sweep id) := by
      intro record' hlock
      cases hlock
    cases acknowledged with
    | true =>
      refine hbefore.of_sameKey (sameKey_setSweep hrun' ?_ ?_ hunlocked)
      · exact fun hmem => List.mem_cons_of_mem _ hmem
      · rintro ⟨run, hlookup, hrest⟩
        obtain rfl : SweepRun.settling todo = run := by grind
        rcases hrest with ⟨record', hcurrent, -⟩ | hrest
        · cases hcurrent
        · exact ⟨_, hrun', .inr hrest⟩
    | false =>
      have hended := hbefore.endSweep hland hrun'
      rwa [disown_eq_self] at hended
      intro record' hlock
      cases hlock

theorem KeyKept.deliver_nobody (h : ∀ key, KeyKept s key)
    (hjob : s.lock = some (record, .nobody)) (harrived : arrived = [record] ∨ arrived = [])
    (key : String) : KeyKept (s.land arrived) key := by
  by_cases hkey : record.key = key
  · subst hkey
    obtain ⟨-, hdead, hnone⟩ := (h record.key).job record _ hjob rfl
    refine (h record.key).landed_dead hjob harrived rfl rfl rfl rfl hdead ?_
    intro id hholding
    cases hnone id hholding
  · exact (h key).of_sameKey (sameKey_land harrived hkey)

theorem SweepsKept.deliver (hsweeps : SweepsKept s) (h : ∀ key, KeyKept s key)
    (hjob : s.lock = some (record, owner)) (acknowledged : Bool) :
    SweepsKept ((s.land arrived).deliver acknowledged owner) := by
  have hland : SweepsKept (s.land arrived) := hsweeps.land
  cases owner with
  | nobody => exact hland
  | call own =>
    rw [EffectEngine.deliver]
    split
    · exact hland
    · split
      · exact ⟨hland.counted, hland.alone, hland.distinct⟩
      · exact ⟨hland.counted, hland.alone, hland.distinct⟩
      · exact hland
  | sweep id =>
    obtain ⟨-, ⟨todo, hrun⟩, -⟩ := (h record.key).job record _ hjob rfl
    have hrun' : (s.land arrived).sweeps.lookup id = some (.appending record todo) := hrun
    have hdistinct : (SweepRun.settling todo).keys.Nodup :=
      (List.nodup_cons.1 (hsweeps.distinct _ _ hrun)).2
    simp only [EffectEngine.deliver, hrun']
    split_ifs
    · exact hland.setSweep hrun' (by simp) hdistinct
    · exact hland.endSweep hrun'

end Landing

end PraxisPolicy
