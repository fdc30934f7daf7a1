import PraxisPolicy.EffectDurability

/-!
# Compaction of the effect log is invisible

The loop of `recover` keeps the keys in first-seen order and respects leaving keys out, so it does
not matter whether resolved keys are left out before more records arrive or after.
-/

namespace PraxisPolicy

open LineFraming

section Loop

variable {resolved : List String} {records unresolved : List EffectRecord} {record : EffectRecord}

def keepLatest (resolved : List String) (unresolved records : List EffectRecord) :
    List EffectRecord :=
  records.foldl (fun unresolved record =>
    if record.key ∈ resolved then unresolved else placeLatest unresolved record) unresolved

def dropKeys (keys : List String) (records : List EffectRecord) : List EffectRecord :=
  records.filter fun record => record.key ∉ keys

theorem keepLatest_cons :
    keepLatest resolved unresolved (record :: records) =
      keepLatest resolved
        (if record.key ∈ resolved then unresolved else placeLatest unresolved record) records := rfl

theorem keepLatest_append (more : List EffectRecord) :
    keepLatest resolved unresolved (records ++ more) =
      keepLatest resolved (keepLatest resolved unresolved records) more :=
  List.foldl_append

theorem keepLatest_concat :
    keepLatest resolved unresolved (records ++ [record]) =
      if record.key ∈ resolved then keepLatest resolved unresolved records
      else placeLatest (keepLatest resolved unresolved records) record :=
  keepLatest_append [record]

theorem keepLatest_congr {resolved' : List String}
    (h : ∀ record ∈ records, record.key ∈ resolved ↔ record.key ∈ resolved') :
    keepLatest resolved unresolved records = keepLatest resolved' unresolved records := by
  induction records generalizing unresolved with
  | nil => rfl
  | cons record records ih =>
    obtain ⟨hrecord, hrecords⟩ := List.forall_mem_cons.1 h
    rw [keepLatest_cons, keepLatest_cons, ih hrecords]
    simp only [hrecord]

theorem dropKeys_placeLatest (keys : List String) (unresolved : List EffectRecord) :
    dropKeys keys (placeLatest unresolved record) =
      if record.key ∈ keys then dropKeys keys unresolved
      else placeLatest (dropKeys keys unresolved) record := by
  induction unresolved with
  | nil => by_cases h : record.key ∈ keys <;> simp [dropKeys, placeLatest, h]
  | cons slot rest ih =>
    unfold dropKeys at ih ⊢
    by_cases hsame : slot.key = record.key <;> by_cases hslot : slot.key ∈ keys <;>
      by_cases h : record.key ∈ keys <;> simp_all [placeLatest]

theorem keepLatest_dropKeys (unresolved : List EffectRecord) (keys : List String) :
    keepLatest (resolved ++ keys) (dropKeys keys unresolved) records =
      dropKeys keys (keepLatest resolved unresolved records) := by
  induction records generalizing unresolved with
  | nil => rfl
  | cons record records ih =>
    rw [keepLatest_cons, keepLatest_cons, ← ih]
    by_cases hskip : record.key ∈ resolved
    · simp [hskip]
    · by_cases hkey : record.key ∈ keys <;> simp [hskip, hkey, dropKeys_placeLatest]

theorem placeLatest_of_notMem (h : record.key ∉ unresolved.map EffectRecord.key) :
    placeLatest unresolved record = unresolved ++ [record] := by
  induction unresolved with
  | nil => rfl
  | cons slot rest ih =>
    rw [List.map_cons, List.mem_cons, not_or] at h
    rw [placeLatest, if_neg (Ne.symm h.1), ih h.2, List.cons_append]

theorem map_key_placeLatest_of_mem (h : record.key ∈ unresolved.map EffectRecord.key) :
    (placeLatest unresolved record).map EffectRecord.key = unresolved.map EffectRecord.key := by
  induction unresolved with
  | nil => cases h
  | cons slot rest ih =>
    rw [placeLatest]
    split_ifs with hsame
    · simp [hsame]
    · rw [List.map_cons, List.map_cons, ih ((List.mem_cons.1 h).resolve_left (Ne.symm hsame))]

theorem map_key_keepLatest (resolved : List String) (records : List EffectRecord) :
    (keepLatest resolved [] records).map EffectRecord.key =
      (records.map EffectRecord.key).eraseDups.filter (· ∉ resolved) := by
  induction records using List.reverseRecOn with
  | nil => rfl
  | append_singleton records record ih =>
    have hseen : record.key ∈ (keepLatest resolved [] records).map EffectRecord.key ↔
        record.key ∈ records.map EffectRecord.key ∧ record.key ∉ resolved := by
      rw [ih, List.mem_filter, List.mem_eraseDups, decide_eq_true_iff]
    have hlast : ([record.key].removeAll (records.map EffectRecord.key)).eraseDups =
        if record.key ∈ records.map EffectRecord.key then [] else [record.key] := by
      rw [List.removeAll, List.filter_singleton, List.elem_eq_mem]
      split_ifs with hold
      · rw [decide_eq_true hold]
        rfl
      · rw [decide_eq_false hold]
        rfl
    rw [keepLatest_concat, List.map_append, List.eraseDups_append, List.filter_append, ← ih,
      List.map_singleton, hlast]
    by_cases hskip : record.key ∈ resolved
    · split_ifs <;> simp [hskip]
    · rw [if_neg hskip]
      split_ifs with hold
      · rw [List.filter_nil, List.append_nil]
        exact map_key_placeLatest_of_mem (hseen.2 ⟨hold, hskip⟩)
      · rw [placeLatest_of_notMem (fun h => hold (hseen.1 h).1), List.map_append]
        simp [hskip]

theorem keepLatest_of_nodup (hnodup : (records.map EffectRecord.key).Nodup) :
    keepLatest resolved [] records = dropKeys resolved records := by
  induction records using List.reverseRecOn with
  | nil => rfl
  | append_singleton records record ih =>
    rw [List.map_append, List.nodup_append] at hnodup
    obtain ⟨hrecords, -, hdisjoint⟩ := hnodup
    have hnew : record.key ∉ (dropKeys resolved records).map EffectRecord.key := by
      intro hmem
      obtain ⟨other, hother, hkey⟩ := List.mem_map.1 hmem
      exact hdisjoint _ (List.mem_map_of_mem (List.mem_filter.1 hother).1) _
        List.mem_cons_self hkey
    rw [keepLatest_concat, ih hrecords, placeLatest_of_notMem hnew]
    split_ifs with hskip <;> simp [dropKeys, hskip]

end Loop

theorem unresolvedRecords_eq (records : List EffectRecord) :
    unresolvedRecords records = keepLatest (resolvedKeys records) [] records := rfl

theorem resolvedKeys_unresolvedRecords (records : List EffectRecord) :
    resolvedKeys (unresolvedRecords records) = [] := by
  refine List.eq_nil_iff_forall_not_mem.2 fun key => ?_
  exact (noTerminal_iff key _).1 (noTerminal_unresolvedRecords key records)

theorem unresolvedRecords_compacted {records more : List EffectRecord}
    (h : ∀ record ∈ more, record.key ∉ resolvedKeys records) :
    unresolvedRecords (unresolvedRecords records ++ more) = unresolvedRecords (records ++ more) := by
  have hold : keepLatest (resolvedKeys records ++ resolvedKeys more) [] records =
      keepLatest (resolvedKeys more) [] (unresolvedRecords records) := by
    rw [keepLatest_of_nodup (nodup_keys_unresolvedRecords records)]
    exact keepLatest_dropKeys [] _
  rw [unresolvedRecords_eq (records ++ more), unresolvedRecords_eq (_ ++ more),
    resolvedKeys_append, resolvedKeys_append, resolvedKeys_unresolvedRecords, keepLatest_append,
    keepLatest_append, hold]
  refine keepLatest_congr fun record hrecord => ?_
  simp [h record hrecord]

theorem unresolvedRecords_idem (records : List EffectRecord) :
    unresolvedRecords (unresolvedRecords records) = unresolvedRecords records := by
  have hnone : ∀ record ∈ ([] : List EffectRecord), record.key ∉ resolvedKeys records := by simp
  simpa using unresolvedRecords_compacted hnone

section Recover

variable [EffectCodec]

/-- Compaction does not show in what is unresolved later, recovering twice is recovering once, and
recovery returns the latest record of each open key in the order of the keys. -/
theorem recover_compaction :
    (∀ records more : List EffectRecord,
      (∀ record ∈ more, record.key ∉ resolvedKeys records) →
      unresolvedRecords (unresolvedRecords records ++ more) =
        unresolvedRecords (records ++ more)) ∧
    (∀ file summary file', recover file = .ok (summary, file') →
      ∃ summary', recover file' = .ok (summary', file') ∧
        summary'.unresolved = summary.unresolved) ∧
    ∀ raw records, readLog raw = .ok records →
      ∃ summary file, recover (some raw) = .ok (summary, file) ∧
        summary.unresolved.map EffectRecord.key =
          (records.map EffectRecord.key).eraseDups.filter (· ∉ resolvedKeys records) ∧
        ∀ record ∈ summary.unresolved,
          (ofKey record.key records).getLast? = some record ∧ record.state.terminal = false := by
  refine ⟨fun _ _ => unresolvedRecords_compacted, ?_, ?_⟩
  · intro file summary file' h
    cases file with
    | none =>
      cases h
      exact ⟨⟨0, []⟩, rfl, rfl⟩
    | some raw =>
      rw [recover] at h
      cases hread : readLog raw with
      | error e => simp [hread] at h
      | ok records =>
        rw [hread] at h
        cases h
        have hagain : readLog ((unresolvedRecords records).map logLine).flatten =
            .ok (unresolvedRecords records) :=
          readLog_of_finished (cut_lines isLine_of_mem_map_logLine).1
        refine ⟨⟨(resolvedKeys (unresolvedRecords records)).dedup.length, _⟩, ?_, rfl⟩
        rw [recover, hagain]
        simp only [unresolvedRecords_idem]
  · intro raw records hread
    refine ⟨_, _, by rw [recover, hread], map_key_keepLatest _ records, fun record h => ?_⟩
    have hof : record ∈ ofKey record.key (unresolvedRecords records) := by simpa [ofKey] using h
    rw [ofKey_unresolvedRecords] at hof
    split_ifs at hof
    · cases hof
    · exact ⟨Option.mem_toList.1 hof, noTerminal_unresolvedRecords record.key records record h rfl⟩

end Recover

end PraxisPolicy
