import PraxisPolicy.EncodedText
import PraxisPolicy.StepRuns
import PraxisPolicy.TextScanning

/-!
# The write-ahead log of effects

A crash may leave any part of a line.  How records are printed and parsed is the JSON library's: a
parameter with the properties used of it.
-/

namespace PraxisPolicy

open LineFraming EncodedText TextScanning StepRuns

inductive EffectState where
  | prepared
  | confirmed
  | rejected
  | unknown
  deriving DecidableEq, Repr

def EffectState.terminal : EffectState → Bool
  | .confirmed => true
  | .rejected => true
  | .prepared => false
  | .unknown => false

/-- Without its free-form details. -/
structure EffectRecord where
  kind : String
  description : String
  key : String
  state : EffectState
  pluginName : Option String
  epoch : Option ℕ
  streamId : Option String
  streamSeq : Option ℕ
  emissionSeq : Option ℕ
  deriving DecidableEq, Repr

def EffectRecord.prepared (kind description key : String) : EffectRecord :=
  ⟨kind, description, key, .prepared, none, none, none, none, none⟩

def EffectRecord.intoState (record : EffectRecord) (state : EffectState) : EffectRecord :=
  { record with state := state }

/-- `serde_json::to_vec` and `from_str`: an object on one line, which reads back. -/
class EffectCodec where
  toText : EffectRecord → String
  fromStr : String → Option EffectRecord
  object : ∀ record, ∃ body, toText record = "\x7b" ++ body ++ "\x7d"
  oneLine : ∀ record, '\n' ∉ (toText record).toList
  fromStr_toText : ∀ record, fromStr (toText record) = some record

structure LogError where
  pluginName : String
  message : String
  code : Option String
  deriving DecidableEq, Repr

def walError (what : String) : LogError :=
  ⟨"effect-log", "effect log: could not " ++ what, some "effect_log_failed"⟩

section Recovery

def resolvedKeys (records : List EffectRecord) : List String :=
  (records.filter fun record => record.state.terminal).map EffectRecord.key

def placeLatest : List EffectRecord → EffectRecord → List EffectRecord
  | [], record => [record]
  | slot :: rest, record =>
    if slot.key = record.key then record :: rest else slot :: placeLatest rest record

def unresolvedRecords (records : List EffectRecord) : List EffectRecord :=
  records.foldl (fun unresolved record =>
    if record.key ∈ resolvedKeys records then unresolved else placeLatest unresolved record) []

def ofKey (key : String) (records : List EffectRecord) : List EffectRecord :=
  records.filter fun record => record.key = key

theorem ofKey_append (key : String) (records more : List EffectRecord) :
    ofKey key (records ++ more) = ofKey key records ++ ofKey key more :=
  List.filter_append records more

variable {record : EffectRecord}

theorem ofKey_placeLatest_of_ne {key : String} (h : record.key ≠ key)
    (unresolved : List EffectRecord) :
    ofKey key (placeLatest unresolved record) = ofKey key unresolved := by
  unfold ofKey
  induction unresolved with
  | nil => simp [placeLatest, h]
  | cons slot rest ih =>
    rw [placeLatest]
    split_ifs with hslot
    · have hne : slot.key ≠ key := hslot ▸ h
      simp [h, hne]
    · simp [List.filter_cons, ih]

theorem ofKey_placeLatest_self {unresolved : List EffectRecord}
    (h : (ofKey record.key unresolved).length ≤ 1) :
    ofKey record.key (placeLatest unresolved record) = [record] := by
  unfold ofKey at h ⊢
  induction unresolved with
  | nil => simp [placeLatest]
  | cons slot rest ih =>
    rw [placeLatest]
    split_ifs with hslot
    · have hrest : rest.filter (fun r => r.key = record.key) = [] := by
        simpa [hslot] using h
      simp [hrest]
    · simp only [List.filter_cons, hslot, decide_false, Bool.false_eq_true, if_false] at h ⊢
      exact ih h

theorem ofKey_foldl_placeLatest (resolved : List String) (key : String)
    (records unresolved : List EffectRecord) (hone : (ofKey key unresolved).length ≤ 1) :
    ofKey key (records.foldl (fun unresolved record =>
      if record.key ∈ resolved then unresolved else placeLatest unresolved record) unresolved) =
    if key ∈ resolved then ofKey key unresolved
    else ((ofKey key unresolved ++ ofKey key records).getLast?).toList := by
  induction records generalizing unresolved with
  | nil =>
    have hnil : ofKey key [] = [] := rfl
    rw [List.foldl_nil, hnil, List.append_nil]
    split_ifs
    · rfl
    · rcases hlist : ofKey key unresolved with _ | ⟨a, _ | ⟨b, more⟩⟩
      · rfl
      · rfl
      · simp [hlist] at hone
  | cons record records ih =>
    have hcons : ofKey key (record :: records) =
        (if record.key = key then [record] else []) ++ ofKey key records := by
      rw [ofKey, List.filter_cons]
      split_ifs <;> simp_all [ofKey]
    rw [List.foldl_cons, hcons]
    by_cases hskip : record.key ∈ resolved
    · rw [if_pos hskip, ih unresolved hone]
      split_ifs with hkey hsame
      · rfl
      · exact absurd (hsame ▸ hskip) hkey
      · rw [List.nil_append]
    · rw [if_neg hskip]
      by_cases hsame : record.key = key
      · subst hsame
        have hplaced := ofKey_placeLatest_self hone
        rw [ih _ (by rw [hplaced]; rfl), hplaced, if_neg hskip, if_neg hskip, if_pos rfl,
          ← List.append_assoc, List.getLast?_append, List.getLast?_append]
        simp
      · have hplaced := ofKey_placeLatest_of_ne hsame unresolved
        rw [ih _ (by rw [hplaced]; exact hone), hplaced, if_neg hsame, List.nil_append]

theorem ofKey_unresolvedRecords (key : String) (records : List EffectRecord) :
    ofKey key (unresolvedRecords records) =
      if key ∈ resolvedKeys records then [] else (ofKey key records).getLast?.toList := by
  rw [unresolvedRecords, ofKey_foldl_placeLatest _ _ _ _ (by simp [ofKey])]
  rfl

theorem resolvedKeys_append (records more : List EffectRecord) :
    resolvedKeys (records ++ more) = resolvedKeys records ++ resolvedKeys more := by
  simp [resolvedKeys]

theorem nodup_keys_unresolvedRecords (records : List EffectRecord) :
    ((unresolvedRecords records).map EffectRecord.key).Nodup := by
  rw [List.nodup_iff_count_le_one]
  intro key
  have hcount : ((unresolvedRecords records).map EffectRecord.key).count key =
      (ofKey key (unresolvedRecords records)).length := by
    rw [List.count_eq_length_filter, ofKey, List.filter_map, List.length_map]
    congr 2
  rw [hcount, ofKey_unresolvedRecords]
  split_ifs
  · exact Nat.zero_le 1
  · cases (ofKey key records).getLast? <;> simp

end Recovery

section Files

variable [EffectCodec]

def logLine (record : EffectRecord) : List UInt8 :=
  encode (EffectCodec.toText record) ++ [newline]

/-- Up to the last newline: behind it is an append that was interrupted. -/
def completePart (raw : List UInt8) : List UInt8 := raw.rdropWhile (· ≠ newline)

def parseLines : ℕ → List String → Except LogError (List EffectRecord)
  | _, [] => .ok []
  | i, line :: lines =>
    if trim line = "" then parseLines (i + 1) lines
    else match EffectCodec.fromStr line with
      | none => .error (walError ("parse line " ++ toString (i + 1)))
      | some record => match parseLines (i + 1) lines with
        | .ok records => .ok (record :: records)
        | .error e => .error e

def readLog (raw : List UInt8) : Except LogError (List EffectRecord) :=
  match decode (completePart raw) with
  | none => .error (walError "decode the log")
  | some data => parseLines 0 (textLines data)

structure RecoverySummary where
  compacted : ℕ
  unresolved : List EffectRecord
  deriving DecidableEq, Repr

/-- What `recover` returns, and the file it renames over the old one. -/
def recover : Option (List UInt8) → Except LogError (RecoverySummary × Option (List UInt8))
  | none => .ok (⟨0, []⟩, none)
  | some raw => match readLog raw with
    | .error e => .error e
    | .ok records => .ok (⟨(resolvedKeys records).dedup.length, unresolvedRecords records⟩,
        some ((unresolvedRecords records).map logLine).flatten)

/-- Acknowledged; refused, with the file cut back; or given up with the first bytes of its line left
in the file. -/
inductive AppendOutcome where
  | acknowledged
  | rolledBack
  | left (bytes : ℕ)
  deriving DecidableEq, Repr

inductive LogMark where
  | reached (record : EffectRecord) (acknowledged : Bool)
  | compacted
  deriving DecidableEq, Repr

structure LogState where
  file : Option (List UInt8)
  appendsSinceCompaction : ℕ
  marks : List LogMark

def LogState.empty : LogState := ⟨none, 0, []⟩

/-- `renamed`: a recovery gets as far as the rename. -/
inductive LogEvent where
  | append (record : EffectRecord) (outcome : AppendOutcome) (renamed : Bool)
  | recover (renamed : Bool)
  | restart
  deriving DecidableEq, Repr

def staying (record : EffectRecord) : AppendOutcome → List UInt8
  | .acknowledged => logLine record
  | .rolledBack => []
  | .left n => (logLine record).take n

def marksOf (record : EffectRecord) (outcome : AppendOutcome) : List LogMark :=
  if staying record outcome = logLine record then
    [.reached record (outcome == .acknowledged)]
  else []

def LogState.recoverStep (s : LogState) (renamed : Bool) : LogState :=
  match recover s.file with
  | .error _ => s
  | .ok (_, file) =>
    if renamed then { s with file := file, marks := s.marks ++ [.compacted] } else s

/-- The threshold `0` turns this off. -/
def LogState.autoCompact (s : LogState) (threshold : ℕ) (renamed : Bool) : LogState :=
  if threshold = 0 then s
  else if threshold ≤ s.appendsSinceCompaction + 1 then
    { s with appendsSinceCompaction := 0 }.recoverStep renamed
  else { s with appendsSinceCompaction := s.appendsSinceCompaction + 1 }

def LogState.step (threshold : ℕ) (s : LogState) : LogEvent → LogState
  | .append record outcome renamed =>
    let written : LogState := { s with
      file := some (s.file.getD [] ++ staying record outcome)
      marks := s.marks ++ marksOf record outcome }
    if outcome = .acknowledged then written.autoCompact threshold renamed else written
  | .recover renamed => s.recoverStep renamed
  | .restart => { s with appendsSinceCompaction := 0 }

end Files

end PraxisPolicy
