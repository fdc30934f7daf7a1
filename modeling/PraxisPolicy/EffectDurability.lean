import Mathlib.Logic.Equiv.List
import PraxisPolicy.EffectLog

/-!
# Acknowledged effects survive in the log

Read as records, the file is what the history of appends and compactions made of it: whole lines are
records, and a torn rest is none.
-/

namespace PraxisPolicy

open LineFraming EncodedText TextScanning StepRuns

section Reading

variable [EffectCodec]

def logOf (marks : List LogMark) : List EffectRecord :=
  marks.foldl (fun records mark => match mark with
    | .reached record _ => records ++ [record]
    | .compacted => unresolvedRecords records) []

def endsLine (byte : UInt8) : Bool := byte == newline

/-- The file holds these records: its whole lines are theirs. -/
def Holds (file : Option (List UInt8)) (records : List EffectRecord) : Prop :=
  finished endsLine (file.getD []) = records.map logLine

/-- A completed line is that of one append and does not go behind a torn one. -/
def CompletesOwnLine (s : LogState) : LogEvent → Prop
  | .append record outcome _ =>
    staying record outcome = logLine record → unfinished endsLine (s.file.getD []) = []
  | _ => True

omit [EffectCodec] in
theorem isLine_encode {text : String} (h : '\n' ∉ text.toList) :
    IsLine endsLine (encode text ++ [newline]) := by
  refine ⟨encode text, newline, rfl, rfl, fun byte hbyte => ?_⟩
  have hne : byte ≠ newline := by
    rintro rfl
    exact h (newline_mem_encode.1 hbyte)
  simpa [endsLine] using hne

theorem isLine_logLine (record : EffectRecord) : IsLine endsLine (logLine record) :=
  isLine_encode (EffectCodec.oneLine record)

variable {records : List EffectRecord} {s : LogState}

theorem isLine_of_mem_map_logLine :
    ∀ line ∈ records.map logLine, IsLine endsLine line := by
  intro line hline
  obtain ⟨record, -, rfl⟩ := List.mem_map.1 hline
  exact isLine_logLine record

omit [EffectCodec] in
theorem completePart_eq (raw : List UInt8) :
    completePart raw = (finished endsLine raw).flatten := by
  obtain ⟨hlines, hrest, hraw⟩ := cut_spec endsLine raw
  have hdrop : ∀ (whole rest : List UInt8), (∀ b ∈ rest, endsLine b = false) →
      (whole = [] ∨ whole.getLast? = some newline) →
      (whole ++ rest).rdropWhile (· ≠ newline) = whole := by
    intro whole rest hrest hwhole
    induction rest using List.reverseRecOn with
    | nil =>
      rw [List.append_nil]
      rcases hwhole with rfl | hlast
      · rfl
      · obtain ⟨init, rfl⟩ := List.getLast?_eq_some_iff.1 hlast
        simp
    | append_singleton rest b ih =>
      have hb : b ≠ newline := by simpa [endsLine] using hrest b (by simp)
      rw [← List.append_assoc, List.rdropWhile_concat_pos _ _ _ (by simpa using hb)]
      exact ih fun c hc => hrest c (List.mem_append_left _ hc)
  conv_lhs => rw [completePart, ← hraw]
  apply hdrop _ _ hrest
  rcases List.eq_nil_or_concat (finished endsLine raw) with hnil | ⟨init, line, hfinished⟩
  · exact .inl (by rw [hnil]; rfl)
  · obtain ⟨body, e, rfl, he, -⟩ := hlines line (by simp [hfinished])
    have hend : e = newline := by simpa [endsLine] using he
    exact .inr (by simp [hfinished, hend])

theorem trim_toText_ne_empty (record : EffectRecord) : trim (EffectCodec.toText record) ≠ "" := by
  obtain ⟨body, hbody⟩ := EffectCodec.object record
  rw [hbody]
  exact trim_ne_empty (c := '\x7b') (by simp) (by decide)

theorem getLast?_toText_ne (record : EffectRecord) :
    (EffectCodec.toText record).toList.getLast? ≠ some '\r' := by
  obtain ⟨body, hbody⟩ := EffectCodec.object record
  rw [hbody, String.toList_append, List.getLast?_append]
  simp

theorem parseLines_toText (i : ℕ) (records : List EffectRecord) :
    parseLines i (records.map EffectCodec.toText) = .ok records := by
  induction records generalizing i with
  | nil => rfl
  | cons record records ih =>
    rw [List.map_cons, parseLines, if_neg (trim_toText_ne_empty record),
      EffectCodec.fromStr_toText, ih]

structure IsLogText (text : String) : Prop where
  feed : '\n' ∉ text.toList
  carriage : text.toList.getLast? ≠ some '\r'

theorem isLogText_toText (record : EffectRecord) : IsLogText (EffectCodec.toText record) :=
  ⟨EffectCodec.oneLine record, getLast?_toText_ne record⟩

variable {texts : List String}

omit [EffectCodec] in
theorem completePart_joinLines (h : ∀ text ∈ texts, IsLogText text) :
    completePart (encode (joinLines texts)) = encode (joinLines texts) := by
  have hlines : ∀ line ∈ texts.map (fun text => encode text ++ [newline]),
      IsLine endsLine line := by
    intro line hline
    obtain ⟨text, htext, rfl⟩ := List.mem_map.1 hline
    exact isLine_encode (h text htext).feed
  rw [completePart_eq, encode_joinLines, (cut_lines hlines).1]

variable {raw : List UInt8}

theorem readLog_of_texts
    (hraw : completePart raw = encode (joinLines texts)) (h : ∀ text ∈ texts, IsLogText text) :
    readLog raw = parseLines 0 texts := by
  have hlines := textLines_joinLines (fun text htext => (h text htext).feed)
    (fun text htext => (h text htext).carriage)
  rw [readLog, hraw, decode_encode]
  simp only [hlines]

theorem readLog_of_finished (h : finished endsLine raw = records.map logLine) :
    readLog raw = .ok records := by
  have hbytes : completePart raw = encode (joinLines (records.map EffectCodec.toText)) := by
    rw [completePart_eq, h, encode_joinLines, List.map_map]
    rfl
  have htexts : ∀ text ∈ records.map EffectCodec.toText, IsLogText text := by
    intro text htext
    obtain ⟨record, -, rfl⟩ := List.mem_map.1 htext
    exact isLogText_toText record
  rw [readLog_of_texts hbytes htexts, parseLines_toText]

/-- On a file of records `recover` succeeds, and leaves the unresolved ones. -/
theorem recover_of_holds {file : Option (List UInt8)} (h : Holds file records) :
    ∃ summary file', recover file = .ok (summary, file') ∧
      summary.unresolved = unresolvedRecords records ∧ Holds file' (unresolvedRecords records) := by
  cases file with
  | none =>
    obtain rfl : records = [] := by
      have hnil : records.map logLine = [] := h.symm
      simpa using hnil
    exact ⟨⟨0, []⟩, none, rfl, rfl, rfl⟩
  | some raw =>
    have hread : readLog raw = .ok records := readLog_of_finished h
    refine ⟨⟨(resolvedKeys records).dedup.length, unresolvedRecords records⟩,
      some ((unresolvedRecords records).map logLine).flatten, ?_, rfl, ?_⟩
    · rw [recover, hread]
    · exact (cut_lines isLine_of_mem_map_logLine).1

omit [EffectCodec] in
theorem logOf_append (marks : List LogMark) (mark : LogMark) :
    logOf (marks ++ [mark]) = match mark with
      | .reached record _ => logOf marks ++ [record]
      | .compacted => unresolvedRecords (logOf marks) := by
  rw [logOf, List.foldl_append]
  rfl

theorem holds_recoverStep (h : Holds s.file (logOf s.marks)) (renamed : Bool) :
    Holds (s.recoverStep renamed).file (logOf (s.recoverStep renamed).marks) := by
  obtain ⟨summary, file', hrecover, -, hfile'⟩ := recover_of_holds h
  rw [LogState.recoverStep, hrecover]
  cases renamed with
  | false => exact h
  | true => simpa [logOf_append] using hfile'

theorem endsLine_of_torn {record : EffectRecord} {outcome : AppendOutcome}
    (h : staying record outcome ≠ logLine record) :
    ∀ byte ∈ staying record outcome, endsLine byte = false := by
  cases outcome with
  | acknowledged => exact absurd rfl h
  | rolledBack => exact fun _ hbyte => by cases hbyte
  | left n =>
    have hlt : n < (logLine record).length := by
      by_contra hge
      exact h (List.take_of_length_le (not_lt.1 hge))
    have hrest := (cut_spec endsLine ((logLine record).take n)).2.1
    rwa [unfinished, cut_take_line (isLine_logLine record) hlt] at hrest

theorem holds_append (h : Holds s.file (logOf s.marks)) {record : EffectRecord}
    {outcome : AppendOutcome}
    (hok : staying record outcome = logLine record → unfinished endsLine (s.file.getD []) = []) :
    Holds (some (s.file.getD [] ++ staying record outcome))
      (logOf (s.marks ++ marksOf record outcome)) := by
  rw [Holds, Option.getD_some]
  by_cases hwhole : staying record outcome = logLine record
  · have hone : ∀ line ∈ [logLine record], IsLine endsLine line := by
      simpa using isLine_logLine record
    have hcut := (cut_lines hone).1
    rw [List.flatten_singleton] at hcut
    rw [marksOf, if_pos hwhole, logOf_append, (cut_append (hok hwhole) _).1, h, hwhole,
      List.map_append, hcut]
    rfl
  · rw [marksOf, if_neg hwhole, List.append_nil,
      finished_append_of_no_end (endsLine_of_torn hwhole)]
    exact h

theorem holds_step (threshold : ℕ) (h : Holds s.file (logOf s.marks)) (event : LogEvent)
    (hok : CompletesOwnLine s event) :
    Holds (s.step threshold event).file (logOf (s.step threshold event).marks) := by
  cases event with
  | append record outcome renamed =>
    have hwritten := holds_append h hok
    rw [LogState.step]
    split_ifs
    · rw [LogState.autoCompact]
      split_ifs
      · exact hwritten
      · refine holds_recoverStep ?_ renamed
        exact hwritten
      · exact hwritten
    · exact hwritten
  | recover renamed => exact holds_recoverStep h renamed
  | restart => exact h

end Reading

section Tracking

def reachedRecords (marks : List LogMark) : List EffectRecord :=
  marks.filterMap fun mark => match mark with
    | .reached record _ => some record
    | .compacted => none

def sinceCompaction (marks : List LogMark) : List LogMark :=
  marks.rtakeWhile fun mark => mark != .compacted

def NoTerminal (key : String) (records : List EffectRecord) : Prop :=
  ∀ record ∈ records, record.key = key → record.state.terminal = false

theorem noTerminal_iff (key : String) (records : List EffectRecord) :
    NoTerminal key records ↔ key ∉ resolvedKeys records := by
  unfold NoTerminal resolvedKeys
  constructor
  · intro h hmem
    obtain ⟨record, hrecord, hkey⟩ := List.mem_map.1 hmem
    obtain ⟨hmem', hterminal⟩ := List.mem_filter.1 hrecord
    rw [h record hmem' hkey] at hterminal
    cases hterminal
  · intro h record hmem hkey
    by_contra hterminal
    exact h (List.mem_map.2 ⟨record, List.mem_filter.2 ⟨hmem, by simpa using hterminal⟩, hkey⟩)

variable {key : String} {records : List EffectRecord} {latest : EffectRecord}

theorem noTerminal_append {more : List EffectRecord} :
    NoTerminal key (records ++ more) ↔ NoTerminal key records ∧ NoTerminal key more := by
  simp [NoTerminal, or_imp, forall_and]

theorem noTerminal_unresolvedRecords (key : String) (records : List EffectRecord) :
    NoTerminal key (unresolvedRecords records) := by
  intro record hmem hkey
  have hof : record ∈ ofKey key (unresolvedRecords records) := by
    simpa [ofKey] using ⟨hmem, hkey⟩
  rw [ofKey_unresolvedRecords] at hof
  split_ifs at hof with hresolved
  · cases hof
  · -- what is left of an unresolved key was in the log before
    have hlast : (ofKey key records).getLast? = some record := by simpa using hof
    have hbefore : record ∈ ofKey key records := List.mem_of_getLast? hlast
    exact (noTerminal_iff key records).2 hresolved record (List.mem_filter.1 hbefore).1 hkey

/-- The key is open in the log, with this record as its latest. -/
structure Open (key : String) (latest : EffectRecord) (records : List EffectRecord) : Prop where
  unresolved : NoTerminal key records
  latest : (ofKey key records).getLast? = some latest

theorem Open.ofKey_unresolvedRecords (h : Open key latest records) :
    ofKey key (unresolvedRecords records) = [latest] := by
  rw [PraxisPolicy.ofKey_unresolvedRecords, if_neg ((noTerminal_iff key records).1 h.unresolved),
    h.latest]
  rfl

theorem Open.compact (h : Open key latest records) :
    Open key latest (unresolvedRecords records) := by
  refine ⟨noTerminal_unresolvedRecords key records, ?_⟩
  rw [h.ofKey_unresolvedRecords]
  rfl

theorem Open.append (h : Open key latest records) {record : EffectRecord}
    (hrecord : NoTerminal key [record]) :
    Open key (if record.key = key then record else latest) (records ++ [record]) := by
  refine ⟨noTerminal_append.2 ⟨h.unresolved, hrecord⟩, ?_⟩
  rw [ofKey_append]
  by_cases hkey : record.key = key
  · simp [ofKey, hkey]
  · have hnil : ofKey key [record] = [] := by simp [ofKey, hkey]
    rw [hnil, List.append_nil, if_neg hkey, h.latest]

variable {marks : List LogMark}

theorem noTerminal_logOf (h : NoTerminal key (reachedRecords (sinceCompaction marks))) :
    NoTerminal key (logOf marks) := by
  induction marks using List.reverseRecOn with
  | nil =>
    intro record hmem
    cases hmem
  | append_singleton marks mark ih =>
    rw [logOf_append]
    cases mark with
    | compacted => exact noTerminal_unresolvedRecords key (logOf marks)
    | reached record acknowledged =>
      have hsince : sinceCompaction (marks ++ [.reached record acknowledged]) =
          sinceCompaction marks ++ [.reached record acknowledged] :=
        List.rtakeWhile_concat_pos _ _ _ rfl
      rw [hsince, reachedRecords, List.filterMap_append] at h
      obtain ⟨hmarks, hrecord⟩ := noTerminal_append.1 h
      exact noTerminal_append.2 ⟨ih hmarks, hrecord⟩

theorem open_logOf_append (h : Open key latest (logOf marks))
    {after : List LogMark} (hafter : NoTerminal key (reachedRecords after)) :
    ∃ newest, Open key newest (logOf (marks ++ after)) ∧
      (latest :: ofKey key (reachedRecords after)).getLast? = some newest := by
  induction after generalizing marks latest with
  | nil => exact ⟨latest, by simpa using h, rfl⟩
  | cons mark after ih =>
    have hassoc : marks ++ mark :: after = (marks ++ [mark]) ++ after := by simp
    rw [hassoc]
    cases mark with
    | compacted =>
      have hopen : Open key latest (logOf (marks ++ [.compacted])) := by
        rw [logOf_append]
        exact h.compact
      exact ih hopen hafter
    | reached record acknowledged =>
      have hsplit : reachedRecords (.reached record acknowledged :: after) =
          [record] ++ reachedRecords after := rfl
      rw [hsplit] at hafter ⊢
      obtain ⟨hrecord, hrest⟩ := noTerminal_append.1 hafter
      have hopen : Open key (if record.key = key then record else latest)
          (logOf (marks ++ [.reached record acknowledged])) := by
        rw [logOf_append]
        exact h.append hrecord
      obtain ⟨newest, hnewest, hlast⟩ := ih hopen hrest
      refine ⟨newest, hnewest, ?_⟩
      rw [ofKey_append]
      by_cases hkey : record.key = key
      · rw [if_pos hkey] at hlast
        simpa [ofKey, hkey, List.getLast?_cons_cons] using hlast
      · rw [if_neg hkey] at hlast
        simpa [ofKey, hkey] using hlast

end Tracking

section Histories

variable [EffectCodec]

theorem recover_of_allSteps {threshold : ℕ} {events : List LogEvent}
    (h : AllSteps (LogState.step threshold) CompletesOwnLine .empty events) :
    let s := run (LogState.step threshold) .empty events
    ∃ summary file, recover s.file = .ok (summary, file) ∧
      summary.unresolved = unresolvedRecords (logOf s.marks) := by
  have hempty : Holds LogState.empty.file (logOf LogState.empty.marks) := rfl
  have hholds : Holds (run (LogState.step threshold) .empty events).file
      (logOf (run (LogState.step threshold) .empty events).marks) :=
    invariant_of_allSteps (I := fun s : LogState => Holds s.file (logOf s.marks))
      (fun _ event hs hok => holds_step threshold hs event hok) hempty h
  obtain ⟨summary, file, hrecover, hunresolved, -⟩ := recover_of_holds hholds
  exact ⟨summary, file, hrecover, hunresolved⟩

/-- If no line is completed behind a torn one, `recover` succeeds, and for an acknowledged record
that no terminal record of its key has settled it returns the last of the key from then on. -/
theorem recover_returns_acknowledged (threshold : ℕ) (events : List LogEvent)
    (h : AllSteps (LogState.step threshold) CompletesOwnLine .empty events) :
    let s := run (LogState.step threshold) .empty events
    ∃ summary file, recover s.file = .ok (summary, file) ∧
      ∀ before record after, s.marks = before ++ .reached record true :: after →
        record.state.terminal = false →
        NoTerminal record.key (reachedRecords (sinceCompaction before)) →
        NoTerminal record.key (reachedRecords after) →
        ∃ newest, ofKey record.key summary.unresolved = [newest] ∧
          (record :: ofKey record.key (reachedRecords after)).getLast? = some newest := by
  obtain ⟨summary, file, hrecover, hunresolved⟩ := recover_of_allSteps h
  refine ⟨summary, file, hrecover, ?_⟩
  intro before record after hmarks hstate hbefore hafter
  have hrecord : NoTerminal record.key [record] := by
    intro other hmem _
    rw [List.mem_singleton.1 hmem]
    exact hstate
  have hopen : Open record.key record (logOf (before ++ [.reached record true])) := by
    rw [logOf_append]
    refine ⟨noTerminal_append.2 ⟨noTerminal_logOf hbefore, hrecord⟩, ?_⟩
    rw [ofKey_append]
    simp [ofKey]
  obtain ⟨newest, hnewest, hlast⟩ := open_logOf_append hopen hafter
  refine ⟨newest, ?_, hlast⟩
  rw [hunresolved, hmarks]
  have hassoc : before ++ .reached record true :: after =
      (before ++ [.reached record true]) ++ after := by simp
  rw [hassoc]
  exact hnewest.ofKey_unresolvedRecords

end Histories

section Appends

variable [EffectCodec]

theorem unfinished_logLine (record : EffectRecord) :
    unfinished endsLine (logLine record) = [] := by
  have hone : ∀ line ∈ [logLine record], IsLine endsLine line := by
    simpa using isLine_logLine record
  simpa using (cut_lines hone).2

theorem step_zero_append (s : LogState) (record : EffectRecord) (outcome : AppendOutcome)
    (renamed : Bool) : s.step 0 (.append record outcome renamed) = { s with
      file := some (s.file.getD [] ++ staying record outcome)
      marks := s.marks ++ marksOf record outcome } := by
  simp [LogState.step, LogState.autoCompact]

theorem marksOf_left_one (record : EffectRecord) : marksOf record (.left 1) = [] := by
  have hlength : 1 < (logLine record).length := by
    obtain ⟨body, hbody⟩ := EffectCodec.object record
    have hbrace : encode "\x7b" = [123] := rfl
    simp only [logLine, hbody, encode_append, hbrace, List.length_append, List.length_singleton]
    omega
  rw [marksOf, if_neg]
  intro hwhole
  have hcut := congrArg List.length hwhole
  simp only [staying, List.length_take] at hcut
  omega

theorem staying_acknowledged (record : EffectRecord) :
    staying record .acknowledged = logLine record := rfl

theorem staying_whole (record : EffectRecord) :
    staying record (.left (logLine record).length) = logLine record :=
  List.take_length

def twoAppends (first second : EffectRecord) (outcome : AppendOutcome) : List LogEvent :=
  [.append first .acknowledged false, .append second outcome false]

theorem allSteps_twoAppends (first second : EffectRecord) (outcome : AppendOutcome) :
    AllSteps (LogState.step 0) CompletesOwnLine .empty (twoAppends first second outcome) := by
  refine ⟨fun _ => rfl, fun _ => ?_, trivial⟩
  rw [step_zero_append]
  exact unfinished_logLine first

theorem recover_twoAppends {first second : EffectRecord} {outcome : AppendOutcome}
    (hwhole : staying second outcome = logLine second) :
    ∃ summary file, recover (run (LogState.step 0) .empty (twoAppends first second outcome)).file =
      .ok (summary, file) ∧ summary.unresolved = unresolvedRecords [first, second] := by
  obtain ⟨summary, file, hrecover, hunresolved⟩ :=
    recover_of_allSteps (allSteps_twoAppends first second outcome)
  refine ⟨summary, file, hrecover, ?_⟩
  have hmarks : (run (LogState.step 0) .empty (twoAppends first second outcome)).marks =
      [.reached first true, .reached second (outcome == .acknowledged)] := by
    have hfirst : staying first .acknowledged = logLine first := rfl
    simp [twoAppends, run, step_zero_append, marksOf, hfirst, hwhole, LogState.empty]
  rw [hunresolved, hmarks]
  rfl

theorem marks_tornAppend (first second : EffectRecord) :
    (run (LogState.step 0) .empty (twoAppends first second (.left 1))).marks =
      [.reached first true] := by
  have hfirst : marksOf first .acknowledged = [.reached first true] := if_pos rfl
  simp [twoAppends, run, step_zero_append, marksOf_left_one, hfirst, LogState.empty]

/-- An append behind the first byte of one that a crash broke off. -/
def behindTorn (first second : EffectRecord) : List LogEvent :=
  [.append first .acknowledged false, .append second (.left 1) false, .restart,
    .append second .acknowledged false]

/-- What is left of one record, and then another, make one line. -/
theorem file_behindTorn (first second : EffectRecord) :
    (run (LogState.step 0) .empty (behindTorn first second)).file = some (encode (joinLines
      [EffectCodec.toText first, "\x7b" ++ EffectCodec.toText second])) := by
  have hbrace : encode "\x7b" = [123] := rfl
  have htorn : (logLine second).take 1 = encode "\x7b" := by
    obtain ⟨body, hbody⟩ := EffectCodec.object second
    rw [logLine, hbody, encode_append, encode_append, hbrace]
    rfl
  have hrestart : ∀ s : LogState, s.step 0 .restart = { s with appendsSinceCompaction := 0 } :=
    fun _ => rfl
  rw [encode_joinLines]
  simp only [behindTorn, run, List.foldl_cons, List.foldl_nil, step_zero_append, hrestart, staying,
    htorn, LogState.empty, Option.getD_none, Option.getD_some, List.nil_append]
  simp [logLine]

theorem recover_behindTorn (first second : EffectRecord)
    (hrefused : EffectCodec.fromStr ("\x7b" ++ EffectCodec.toText second) = none) :
    recover (run (LogState.step 0) .empty (behindTorn first second)).file =
      .error (walError "parse line 2") := by
  have hlast : ("\x7b" ++ EffectCodec.toText second).toList.getLast? = some '\x7d' := by
    obtain ⟨body, hbody⟩ := EffectCodec.object second
    have htext : ("\x7b" ++ EffectCodec.toText second).toList =
        ('\x7b' :: '\x7b' :: body.toList) ++ ['\x7d'] := by
      simp [hbody]
    rw [htext, List.getLast?_concat]
  have hbehind : IsLogText ("\x7b" ++ EffectCodec.toText second) :=
    ⟨by simpa using (isLogText_toText second).feed, by rw [hlast]; decide⟩
  have htexts : ∀ text ∈ [EffectCodec.toText first, "\x7b" ++ EffectCodec.toText second],
      IsLogText text := by
    simpa using ⟨isLogText_toText first, hbehind⟩
  have hblank : trim ("\x7b" ++ EffectCodec.toText second) ≠ "" :=
    trim_ne_empty (c := '\x7b') (by simp) (by decide)
  rw [file_behindTorn, recover, readLog_of_texts (completePart_joinLines htexts) htexts,
    parseLines, if_neg (trim_toText_ne_empty first), EffectCodec.fromStr_toText, parseLines,
    if_neg hblank, hrefused]
  rfl

end Appends

section Cases

@[irreducible] def recordNumbers : Encodable EffectRecord :=
  letI : Encodable Char := .ofLeftInverse Char.toNat Char.ofNat Char.ofNat_toNat
  letI : Encodable String := .ofLeftInverse String.toList String.ofList fun _ => String.ofList_toList
  letI : Encodable EffectState := .ofLeftInverse
    (fun state => (state.terminal, decide (state = .prepared ∨ state = .confirmed)))
    (fun
      | (false, true) => .prepared
      | (true, true) => .confirmed
      | (true, false) => .rejected
      | (false, false) => .unknown)
    fun state => by cases state <;> rfl
  .ofLeftInverse
    (fun r => (r.kind, r.description, r.key, r.state, r.pluginName, r.epoch, r.streamId,
      r.streamSeq, r.emissionSeq))
    (fun (kind, description, key, state, pluginName, epoch, streamId, streamSeq, emissionSeq) =>
      ⟨kind, description, key, state, pluginName, epoch, streamId, streamSeq, emissionSeq⟩)
    fun _ => rfl

def strokes (n : ℕ) : List Char := '\x7b' :: (List.replicate n '1' ++ ['\x7d'])

def strokeText (record : EffectRecord) : String :=
  String.ofList (strokes (recordNumbers.encode record))

/-- The properties asked of the JSON library can be met, by a record told in strokes. -/
@[reducible] def strokeCodec : EffectCodec where
  toText := strokeText
  fromStr line :=
    let n := line.toList.length - 2
    if line.toList = strokes n then recordNumbers.decode n else none
  object record := ⟨String.ofList (List.replicate (recordNumbers.encode record) '1'), by
    rw [← String.toList_inj]
    simp [strokeText, strokes]⟩
  oneLine record := by simp [strokeText, strokes]
  fromStr_toText record := by simp [strokeText, strokes]

local instance strokePrinting : EffectCodec := strokeCodec

theorem fromStr_torn (record : EffectRecord) :
    EffectCodec.fromStr ("\x7b" ++ EffectCodec.toText record) = none := by
  refine if_neg fun h => ?_
  have hbraces := congrArg (List.count '\x7b') h
  simp [EffectCodec.toText, strokeText, strokes, List.count_replicate] at hbraces

def mintIntent : EffectRecord := .prepared "token_mint" "mint a token" "first"
def mintUnknown : EffectRecord := mintIntent.intoState .unknown
def mintConfirmed : EffectRecord := mintIntent.intoState .confirmed
def otherIntent : EffectRecord := .prepared "token_mint" "mint a token" "second"

/-- Only the latest record of a key is returned, and none of a key with a terminal record in the
file, even one that nobody was told of.  Behind a torn record the log cannot be recovered. -/
theorem recover_misses_acknowledged :
    (∃ summary file,
      recover (run (LogState.step 0) .empty (twoAppends mintIntent mintUnknown .acknowledged)).file =
        .ok (summary, file) ∧ summary.unresolved = [mintUnknown]) ∧
    (∃ summary file,
      recover (run (LogState.step 0) .empty
        (twoAppends mintConfirmed mintIntent .acknowledged)).file =
        .ok (summary, file) ∧ summary.unresolved = []) ∧
    (∃ summary file,
      recover (run (LogState.step 0) .empty (twoAppends mintIntent mintConfirmed
        (.left (logLine mintConfirmed).length))).file =
        .ok (summary, file) ∧ summary.unresolved = []) ∧
    recover (run (LogState.step 0) .empty (behindTorn mintIntent otherIntent)).file =
      .error (walError "parse line 2") := by
  have hunknown : unresolvedRecords [mintIntent, mintUnknown] = [mintUnknown] := by decide
  have hreused : unresolvedRecords [mintConfirmed, mintIntent] = [] := by decide
  have hsettled : unresolvedRecords [mintIntent, mintConfirmed] = [] := by decide
  refine ⟨?_, ?_, ?_, recover_behindTorn _ _ (fromStr_torn _)⟩
  · rw [← hunknown]
    exact recover_twoAppends (staying_acknowledged _)
  · rw [← hreused]
    exact recover_twoAppends (staying_acknowledged _)
  · rw [← hsettled]
    exact recover_twoAppends (staying_whole mintConfirmed)

theorem recover_returns_acknowledged_tornAppend :
    let s := run (LogState.step 0) .empty (twoAppends mintIntent otherIntent (.left 1))
    ∃ summary file, recover s.file = .ok (summary, file) ∧
      ofKey "first" summary.unresolved = [mintIntent] := by
  obtain ⟨summary, file, hrecover, hreturned⟩ := recover_returns_acknowledged 0
    (twoAppends mintIntent otherIntent (.left 1)) (allSteps_twoAppends _ _ _)
  refine ⟨summary, file, hrecover, ?_⟩
  obtain ⟨newest, hnewest, hlast⟩ := hreturned [] mintIntent [] (marks_tornAppend _ _) rfl
    (fun _ h => by cases h) (fun _ h => by cases h)
  obtain rfl : mintIntent = newest := by simpa [reachedRecords, ofKey] using hlast
  exact hnewest

end Cases

end PraxisPolicy
