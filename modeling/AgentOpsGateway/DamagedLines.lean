import AgentOpsGateway.Appending
import AgentOpsGateway.ByteLines
import AgentOpsGateway.Filters
import AgentOpsGateway.IsoFormat

/-!
# Damaged Lines of the Audit File

The admin page is to skip what is damaged in the audit file. But only the JSON of a line is
read under a `try`. The file is decoded as a whole, so one byte that is no UTF-8 takes all
lines away; and a line that is JSON but no record reaches the report and the table, which ask
a row for its fields, compare its time and sort by its agent.

Records are what `record` writes, at a time in UTC. The bytes of the file are taken apart at
its newlines, and every line that is no record counts as damaged.

## Main results

* `rowsOf_eq`: **the file is read line by line**: it decodes where its lines do, and gives
  their rows.
* `damage_isolated_iff`: **damage stays in its line** exactly where every damaged line
  decodes, is not nested too deeply, and holds, if it is JSON, a row that neither the report
  counts nor the table shows.
-/

namespace AgentOpsGateway

open Python Appending

/-! ### The pipeline -/

/-- What the admin page raises before it is rendered. -/
inductive AdminError
  | unicodeDecodeError
  | recursionError
  | report (e : ReportError)

/-- `read_audit(path)`, on the bytes of the file. -/
def readAuditFile (py : Interpreter) (file : Option Bytes) : Except AdminError (List Json) :=
  match file with
  | none => .ok []
  | some b =>
    match decodeUtf8 b with
    | none => .error .unicodeDecodeError
    | some text => (readAudit py (some text)).mapError fun _ => .recursionError

/-- The kinds of keys that Python compares with each other; those that are not hashable are
none. -/
inductive KeyKind
  | text
  | number
  | null
  deriving DecidableEq

/-- The kind of an agent in the `Counter`. -/
def kindOf : Json → KeyKind
  | .str _ => .text
  | .null => .null
  | .bool _ | .int _ | .float _ | .arr _ | .obj _ => .number

/-- `sorted(summary.items())`, by the increments that the items count and without their order.
Wherever there are agents of two kinds, some of them are compared. -/
def sortedItems (summary : List (Json × Str)) : Except ReportError (List (Json × Str)) :=
  if summary.all fun a => summary.all fun b => kindOf a.1 = kindOf b.1 then .ok summary
  else .error .typeError

/-- What the page shows of the file: the items of its summary and the rows of its table. -/
structure AdminView where
  summary : List (Json × Str)
  rows : List Json

/-- The summary and the table of the rows of the file. -/
def viewOf (py : Interpreter) (rows : List Json) (now : DateTime) (f : Filters) :
    Except ReportError AdminView := do
  let summary ← summarizeDenials py rows now 24
  let filtered ← applyFilters py rows { f with now := some now }
  let items ← sortedItems summary
  return ⟨items, filtered⟩

/-- The part of `admin` that reads the file: `read_audit`, `summarize_denials`, `apply_filters`
and `sorted(summary.items())`. -/
def adminPipeline (py : Interpreter) (file : Option Bytes) (now : DateTime) (f : Filters) :
    Except AdminError AdminView :=
  match readAuditFile py file with
  | .error e => .error e
  | .ok rows => (viewOf py rows now f).mapError .report

/-! ### Records and damage -/

/-- The line is a record: what `record` writes for some call at some time in UTC, without the
newline. -/
def IsRecordLine (line : Bytes) : Prop :=
  ∃ (r : Recording) (t : DateTime),
    t.offset = some 0 ∧ r.ts = t.isoformat ∧ line = asciiBytes r.line.text

open Classical in
/-- The file with every line removed that is no record. -/
noncomputable def recordsOnly (file : Bytes) : Bytes :=
  ((byteLines file).filter fun line => IsRecordLine line).flatMap fun line => line ++ [0x0A]

/-- **What the admin page is for**, on a damaged file: it does not raise, its summary counts
what the records alone give, and its table has their rows. -/
def Isolated (py : Interpreter) (file : Option Bytes) (now : DateTime) (f : Filters) : Prop :=
  ∃ view clean, adminPipeline py file now f = .ok view ∧
    adminPipeline py (file.map recordsOnly) now f = .ok clean ∧
    view.summary.Perm clean.summary ∧ view.rows = clean.rows

/-- The time of a row, if it has one, has an offset and is before the cutoff. -/
def IsPast (py : Interpreter) (cutoff : DateTime) (r : List (Str × Json)) : Prop :=
  ∀ ts, parseTs py r = some ts → ts.offset.isSome ∧ ts.instant < cutoff.instant

/-- A filter on a field is set, and the row has another value or none. -/
def Misses (field : Str) (value : Option Str) (r : List (Str × Json)) : Prop :=
  ∃ c s, value = some (c :: s) ∧ hasField field (c :: s) r = false

/-- **A row that leaves no trace**: a dict that is no denial of the last day and that a filter
takes out of the table, before its time is compared if it has no offset. -/
def Traceless (py : Interpreter) (now : DateTime) (f : Filters) (row : Json) : Prop :=
  ∃ r, row = .obj r ∧
    (hasField (lit "decision") (lit "denied") r = false ∨
      ∃ cutoff, now.add (-(24 * 3600000000)) = some cutoff ∧ IsPast py cutoff r) ∧
    (Misses (lit "agent") f.agent r ∨ Misses (lit "decision") f.decision r ∨
      ∃ hours cutoff, f.sinceHours = some hours ∧
        now.add (-(hours * 3600000000)) = some cutoff ∧ IsPast py cutoff r)

/-- **A line that can be skipped**: it decodes, and each of its parts between other line breaks
is not nested too deeply, and no JSON or a row that leaves no trace. -/
def Skippable (py : Interpreter) (now : DateTime) (f : Filters) (line : Bytes) : Prop :=
  ∃ text, decodeUtf8 line = some text ∧
    ∀ part ∈ splitlines (universalNewlines text), strip part ≠ [] →
      loads (py.spareLevels + 1) (strip part) ≠ .error .recursionError ∧
        ∀ row, loads (py.spareLevels + 1) (strip part) = .ok row → Traceless py now f row

/-! ### Reading line by line -/

section Reading

variable {depth : ℕ} {py : Interpreter}

/-- Empty lines are skipped. -/
theorem readLines_nonempty (depth : ℕ) (lines : List Str) :
    readLines depth (nonempty lines) = readLines depth lines := by
  induction lines with
  | nil => rfl
  | cons line lines ih =>
      rw [nonempty_cons]
      by_cases h : line = []
      · have hstrip : strip line = [] := by rw [h]; rfl
        rw [if_pos h, List.nil_append, ih, readLines, if_pos hstrip]
      · rw [if_neg h, List.singleton_append, readLines, readLines, ih]

/-- What is read of one line. -/
def readLine (depth : ℕ) (line : Str) : Except LoadsError (List Json) :=
  if strip line = [] then .ok []
  else
    match loads depth (strip line) with
    | .ok row => .ok [row]
    | .error .valueError => .ok []
    | .error .recursionError => .error .recursionError

/-- **Lines are read one after the other.** -/
theorem appends_readLines (depth : ℕ) : Appends (readLines depth) := by
  have hcons : ∀ line lines, readLines depth (line :: lines) =
      (readLine depth line).bind fun x => (readLines depth lines).map fun y => x ++ y := by
    intro line lines
    rw [readLines, readLine]
    split
    · cases readLines depth lines <;> rfl
    · cases loads depth (strip line) with
      | ok row => rfl
      | error e => cases e <;> cases readLines depth lines <;> rfl
  exact .of_cons rfl hcons

/-- The rows of a line, where it is read. -/
def rowsOfLine (py : Interpreter) (line : Bytes) : Option (List Json) :=
  (decodeUtf8 line).bind fun text => (readAudit py (some text)).toOption

/-- The rows of lines, where all of them are read. -/
def rowsOfLines (py : Interpreter) : List Bytes → Option (List Json)
  | [] => some []
  | line :: lines =>
    (rowsOfLine py line).bind fun x => (rowsOfLines py lines).map fun y => x ++ y

/-- The rows of a line come before those of the next ones. -/
theorem rowsOfLines_cons_eq_some_iff {line : Bytes} {lines : List Bytes} {rows : List Json} :
    rowsOfLines py (line :: lines) = some rows ↔
      ∃ x y, rowsOfLine py line = some x ∧ rowsOfLines py lines = some y ∧ rows = x ++ y := by
  simp only [rowsOfLines, Option.bind_eq_some_iff, Option.map_eq_some_iff, exists_and_left,
    @eq_comm _ rows]

/-- The lines of the file. -/
def linesIn (file : Option Bytes) : List Bytes := (file.map byteLines).getD []

/-- A newline parts the rows. -/
theorem readAudit_newline (py : Interpreter) (s t : Str) :
    (readAudit py (some (s ++ 0x0A :: t))).toOption =
      (readAudit py (some s)).toOption.bind fun x =>
        (readAudit py (some t)).toOption.map fun y => x ++ y := by
  simp only [readAudit]
  rw [← readLines_nonempty, nonempty_splitlines_newline, (appends_readLines _).toOption,
    readLines_nonempty, readLines_nonempty]

/-- A newline parts the rows of bytes. -/
theorem rowsOfLine_newline (py : Interpreter) (line rest : Bytes) :
    rowsOfLine py (line ++ 0x0A :: rest) =
      (rowsOfLine py line).bind fun x => (rowsOfLine py rest).map fun y => x ++ y := by
  rw [rowsOfLine, rowsOfLine, rowsOfLine, decodeUtf8_newline]
  cases decodeUtf8 line with
  | none => rfl
  | some s =>
      cases decodeUtf8 rest with
      | none => simp [joinLines]
      | some t => exact readAudit_newline py s t

/-- **A file is read line by line.** -/
theorem rowsOf_eq (py : Interpreter) (file : Option Bytes) :
    (readAuditFile py file).toOption = rowsOfLines py (linesIn file) := by
  cases file with
  | none => rfl
  | some file =>
      have hfile : (readAuditFile py (some file)).toOption = rowsOfLine py file := by
        rw [readAuditFile, rowsOfLine]
        cases decodeUtf8 file with
        | none => rfl
        | some text =>
            dsimp only [Option.bind_some]
            cases readAudit py (some text) <;> rfl
      rw [hfile]
      clear hfile
      change rowsOfLine py file = rowsOfLines py (byteLines file)
      induction file using byteLines_induction with
      | one file hone =>
          rw [hone, rowsOfLines, rowsOfLines]
          cases rowsOfLine py file <;> simp
      | more line rest hlines ih =>
          rw [hlines, rowsOfLines, rowsOfLine_newline, ih]

end Reading

/-! ### Rows one by one -/

section Rows

variable {py : Interpreter} {f : Filters} {cutoff now : DateTime} {r : List (Str × Json)}

theorem appends_keepRows (test : Json → Except ReportError Bool) : Appends (keepRows test) := by
  have hcons : ∀ row rows, keepRows test (row :: rows) =
      ((test row).map fun keep => if keep then [row] else []).bind fun x =>
        (keepRows test rows).map fun y => x ++ y := by
    intro row rows
    rw [keepRows]
    cases test row with
    | error e => rfl
    | ok keep => cases keep <;> cases keepRows test rows <;> rfl
  exact .of_cons rfl hcons

/-- **The report takes the rows one after the other.** -/
theorem appends_denialKeys : Appends (denialKeys py cutoff) := by
  have hcons : ∀ row rows, denialKeys py cutoff (row :: rows) =
      ((denialKey py cutoff row).map Option.toList).bind fun x =>
        (denialKeys py cutoff rows).map fun y => x ++ y := by
    intro row rows
    rw [denialKeys]
    cases denialKey py cutoff row with
    | error e => rfl
    | ok key => cases denialKeys py cutoff rows <;> rfl
  exact .of_cons rfl hcons

theorem appends_filterField (field : Str) (value : Option Str) :
    Appends (filterField field value) := by
  rcases value with _ | _ | ⟨c, s⟩
  · exact .ok
  · exact .ok
  · exact appends_keepRows _

theorem appends_filterSince : Appends (filterSince py f) := by
  intro a b out
  simp only [filterSince]
  cases f.sinceHours with
  | none => exact Appends.ok a b out
  | some hours =>
      cases f.now with
      | none => exact Appends.ok a b out
      | some now =>
          dsimp only
          cases now.add (-(hours * 3600000000)) with
          | none => simp
          | some cutoff => exact appends_keepRows _ a b out

/-- **The table takes the rows one after the other.** -/
theorem appends_applyFilters : Appends fun rows => applyFilters py rows f :=
  (appends_filterField _ _).bind ((appends_filterField _ _).bind appends_filterSince)

/-- Times are compared with a cutoff that has an offset where they have one. -/
theorem isRecent_eq_false_iff (hcutoff : cutoff.offset.isSome) :
    isRecent py cutoff (.obj r) = .ok false ↔ IsPast py cutoff r := by
  simp only [isRecent, IsPast]
  cases parseTs py r with
  | none => simp
  | some ts =>
      cases hts : ts.offset.isSome with
      | false => simp [isSince, hts, hcutoff]
      | true => simp [isSince, hts, hcutoff]

/-- **What the report does not count** among dicts: no denials, and denials before the
cutoff. -/
theorem denialKey_obj_eq_none_iff (hcutoff : cutoff.offset.isSome) :
    denialKey py cutoff (.obj r) = .ok none ↔
      hasField (lit "decision") (lit "denied") r = false ∨ IsPast py cutoff r := by
  by_cases hdenied : hasField (lit "decision") (lit "denied") r = true
  · have hdecision := hasField_eq_true_iff.mp hdenied
    rw [hdenied, ← isRecent_eq_false_iff hcutoff]
    simp only [denialKey, hdecision, if_true, isRecent, isBefore_eq, reduceCtorEq, false_or]
    cases parseTs py r with
    | none => simp
    | some ts =>
        dsimp only
        cases isSince ts cutoff with
        | error e => simp [Except.map]
        | ok keep =>
            cases keep with
            | false => simp [Except.map]
            | true =>
                simp only [Except.map, Bool.not_true, Except.ok.injEq, Bool.true_eq_false,
                  iff_false]
                split
                · simp
                · split <;> simp
  · have hnone : denialKey py cutoff (.obj r) = .ok none := by
      simp only [denialKey]
      split
      · next s hs =>
          rw [if_neg]
          rintro rfl
          exact hdenied (hasField_eq_true_iff.mpr hs)
      · rfl
    simp [hnone, hdenied]

/-- A round of the report leaves nothing behind where it counts nothing. -/
theorem denialKeys_singleton {row : Json} :
    denialKeys py cutoff [row] = .ok [] ↔ denialKey py cutoff row = .ok none := by
  simp only [denialKeys]
  cases denialKey py cutoff row with
  | error e => simp
  | ok key => cases key <;> simp [Except.map]

/-- The filter on a field takes out the dicts that miss it. -/
theorem filterField_singleton (field : Str) (value : Option Str)
    [Decidable (Misses field value r)] :
    filterField field value [.obj r] = .ok (if Misses field value r then [] else [.obj r]) := by
  rcases value with _ | _ | ⟨c, s⟩
  · rw [if_neg (by simp [Misses])]
    rfl
  · rw [if_neg (by simp [Misses])]
    rfl
  · have hmisses : Misses field (some (c :: s)) r ↔ hasField field (c :: s) r = false := by
      simp [Misses]
    cases h : hasField field (c :: s) r with
    | false =>
        rw [if_pos (hmisses.mpr h)]
        simp [filterField, keepRows, fieldIs, h, Except.map]
    | true =>
        rw [if_neg (by simp [hmisses, h])]
        simp [filterField, keepRows, fieldIs, h, Except.map]

/-- The filter on the time takes out the dicts before its cutoff. -/
theorem filterSince_singleton
    (hsince : ∀ hours ∈ f.sinceHours, (now.add (-(hours * 3600000000))).isSome)
    (hnow : now.offset.isSome) :
    filterSince py { f with now := some now } [.obj r] = .ok [] ↔
      ∃ hours cutoff, f.sinceHours = some hours ∧
        now.add (-(hours * 3600000000)) = some cutoff ∧ IsPast py cutoff r := by
  simp only [filterSince]
  cases hhours : f.sinceHours with
  | none => simp
  | some hours =>
      obtain ⟨cutoff, hcutoff⟩ := Option.isSome_iff_exists.mp (hsince hours hhours)
      have hoffset : cutoff.offset.isSome := by rwa [(DateTime.add_eq_some hcutoff).2]
      have hpast := @isRecent_eq_false_iff py cutoff r hoffset
      simp only [Option.some.injEq, exists_and_left, exists_eq_left', hcutoff, keepRows, ← hpast]
      cases isRecent py cutoff (.obj r) with
      | error e => simp
      | ok keep => cases keep <;> simp [Except.map]

/-- Nothing is filtered out of nothing. -/
theorem filterField_nil (field : Str) (value : Option Str) :
    filterField field value [] = .ok [] := by
  rcases value with _ | _ | ⟨c, s⟩ <;> rfl

theorem filterSince_nil
    (hsince : ∀ hours ∈ f.sinceHours, (now.add (-(hours * 3600000000))).isSome) :
    filterSince py { f with now := some now } [] = .ok [] := by
  simp only [filterSince]
  cases hhours : f.sinceHours with
  | none => rfl
  | some hours =>
      obtain ⟨cutoff, hcutoff⟩ := Option.isSome_iff_exists.mp (hsince hours hhours)
      simp only [hcutoff]
      rfl

theorem applyFilters_nil
    (hsince : ∀ hours ∈ f.sinceHours, (now.add (-(hours * 3600000000))).isSome) :
    applyFilters py [] { f with now := some now } = .ok [] := by
  simp only [applyFilters, filterField_nil, bind, Except.bind]
  exact filterSince_nil hsince

/-- **What the table does not show**: dicts that miss a filter, where no time without an
offset is compared. -/
theorem applyFilters_eq_nil_iff
    (hsince : ∀ hours ∈ f.sinceHours, (now.add (-(hours * 3600000000))).isSome)
    (hnow : now.offset.isSome) :
    applyFilters py [.obj r] { f with now := some now } = .ok [] ↔
      Misses (lit "agent") f.agent r ∨ Misses (lit "decision") f.decision r ∨
        ∃ hours cutoff, f.sinceHours = some hours ∧
          now.add (-(hours * 3600000000)) = some cutoff ∧ IsPast py cutoff r := by
  classical
  have hlast := @filterSince_singleton py f now r hsince hnow
  have hagent := @filterField_singleton r (lit "agent") f.agent _
  have hdecision := @filterField_singleton r (lit "decision") f.decision _
  simp only [applyFilters, hagent, bind, Except.bind]
  by_cases h : Misses (lit "agent") f.agent r
  · simp only [h, if_true, filterField_nil, filterSince_nil hsince, true_or]
  · simp only [h, if_false, hdecision, false_or]
    by_cases h' : Misses (lit "decision") f.decision r
    · simp only [h', if_true, filterSince_nil hsince, true_or]
    · simp only [h', if_false, false_or]
      exact hlast

/-- **A row leaves no trace** where neither the report counts it nor the table shows it. -/
theorem traceless_iff
    (hsince : ∀ hours ∈ f.sinceHours, (now.add (-(hours * 3600000000))).isSome)
    (hnow : now.offset.isSome) (hcutoff : now.add (-(24 * 3600000000)) = some cutoff)
    {row : Json} :
    Traceless py now f row ↔ denialKeys py cutoff [row] = .ok [] ∧
      applyFilters py [row] { f with now := some now } = .ok [] := by
  have hoffset : cutoff.offset.isSome := by rwa [(DateTime.add_eq_some hcutoff).2]
  rw [denialKeys_singleton]
  cases row with
  | obj r =>
      rw [denialKey_obj_eq_none_iff hoffset, applyFilters_eq_nil_iff hsince hnow]
      simp only [Traceless, Json.obj.injEq, exists_eq_left', hcutoff, Option.some.injEq]
  | null | bool | int | float | str | arr => simp [Traceless, denialKey]

/-- **A line that goes unnoticed**: it is read, and neither the report counts nor the table shows
anything of it. -/
def Unnoticed (py : Interpreter) (cutoff now : DateTime) (f : Filters) (line : Bytes) : Prop :=
  ∃ rows, rowsOfLine py line = some rows ∧ denialKeys py cutoff rows = .ok [] ∧
    applyFilters py rows { f with now := some now } = .ok []

/-- What the loop over the lines reads, row by row. Induction on the lines. -/
theorem readLines_forall {depth : ℕ} {P : Json → Prop} (lines : List Str) :
    (∃ rows, readLines depth lines = .ok rows ∧ ∀ row ∈ rows, P row) ↔
      ∀ part ∈ lines, strip part ≠ [] →
        loads depth (strip part) ≠ .error .recursionError ∧
          ∀ row, loads depth (strip part) = .ok row → P row := by
  induction lines with
  | nil => simp [readLines]
  | cons line lines ih =>
      rw [List.forall_mem_cons, ← ih, readLines]
      by_cases hblank : strip line = []
      · simp [hblank]
      · rw [if_neg hblank]
        cases loads depth (strip line) with
        | error e => cases e <;> simp [hblank]
        | ok row =>
            cases readLines depth lines with
            | error e => simp [Except.map]
            | ok rows => simp [Except.map, hblank]

/-- **The lines that can be skipped are those that go unnoticed.** -/
theorem skippable_iff
    (hsince : ∀ hours ∈ f.sinceHours, (now.add (-(hours * 3600000000))).isSome)
    (hnow : now.offset.isSome) (hcutoff : now.add (-(24 * 3600000000)) = some cutoff)
    (line : Bytes) : Skippable py now f line ↔ Unnoticed py cutoff now f line := by
  have hreport := (@appends_denialKeys py cutoff).eq_nil_iff rfl
  have htable := (@appends_applyFilters py { f with now := some now }).eq_nil_iff
    (applyFilters_nil hsince)
  have hrows : ∀ rows, (denialKeys py cutoff rows = .ok [] ∧
      applyFilters py rows { f with now := some now } = .ok []) ↔
        ∀ row ∈ rows, Traceless py now f row := by
    intro rows
    rw [hreport, htable, ← forall₂_and]
    simp only [traceless_iff hsince hnow hcutoff]
  simp only [Skippable, Unnoticed, hrows, rowsOfLine, readAudit, Option.bind_eq_some_iff,
    ← readLines_forall]
  constructor
  · rintro ⟨text, htext, rows, hread, htraceless⟩
    exact ⟨rows, ⟨text, htext, by rw [hread]; rfl⟩, htraceless⟩
  · rintro ⟨rows, ⟨text, htext, hread⟩, htraceless⟩
    refine ⟨text, htext, rows, ?_, htraceless⟩
    cases hlines : readLines (py.spareLevels + 1) (splitlines (universalNewlines text)) with
    | error e => simp [hlines, Except.toOption] at hread
    | ok rows' => simpa [hlines, Except.toOption] using hread

end Rows

/-! ### Records -/

/-- A record is read as its row. -/
theorem rowsOfLine_text (py : Interpreter) (line : LogLine) :
    rowsOfLine py (asciiBytes line.text) = some [line.row] := by
  have hfile : fileAfter [line.write] = some (line.text ++ [0x0A]) := by
    simp [fileAfter, LogLine.write, Write.run]
  have hread := readAudit_write py [line]
  have hnewline := readAudit_newline py line.text []
  have hnil : readAudit py (some []) = .ok [] := rfl
  rw [List.map_singleton, List.map_singleton, hfile] at hread
  rw [hread, hnil] at hnewline
  rw [rowsOfLine, decodeUtf8_asciiBytes line.printable_text, Option.bind_some]
  cases h : readAudit py (some line.text) with
  | error e => simp [h, Except.toOption] at hnewline
  | ok rows => simpa [h, Except.toOption] using hnewline.symm

/-- The row of a record is a row of the report whose time has an offset. -/
theorem typedRow_record (py : Interpreter) (r : Recording) {t : DateTime}
    (hoffset : t.offset = some 0) (hts : r.ts = t.isoformat) : TypedRow py r.line.row := by
  constructor
  · exact ⟨r.line.dict, joinSurrogates r.agent, joinSurrogates r.tool, rfl,
      (r.readAs_dict.strings (lit "agent", r.agent) (by simp [Recording.strings])).1,
      (r.readAs_dict.strings (lit "tool", r.tool) (by simp [Recording.strings])).1⟩
  · intro dict ts hdict hparse
    obtain rfl : r.line.dict = dict := Json.obj.inj hdict
    have hprint : Printable t.isoformat := by
      intro c hc
      have := inStamp_isoformat t c hc
      simp only [isPrintableAscii, Bool.and_eq_true, decide_eq_true_eq]
      omega
    have hget := r.line.dictGet_dict (p := (lit "ts", r.ts)) List.mem_cons_self
    rw [hts, joinSurrogates_of_printable hprint] at hget
    simp only [parseTs, hget, fromisoformat_isoformat] at hparse
    obtain rfl := Option.some.inj hparse
    rw [hoffset]
    rfl

/-- The lines that are records give rows of the report. Induction on the lines. -/
theorem rowsOfLines_records (py : Interpreter) (lines : List Bytes)
    (hlines : ∀ line ∈ lines, IsRecordLine line) :
    ∃ rows, rowsOfLines py lines = some rows ∧ ∀ row ∈ rows, TypedRow py row := by
  induction lines with
  | nil => exact ⟨[], rfl, by simp⟩
  | cons line lines ih =>
      obtain ⟨rows, hrows, htyped⟩ := ih fun l hl => hlines l (List.mem_cons_of_mem _ hl)
      obtain ⟨r, t, hoffset, hts, rfl⟩ := hlines line List.mem_cons_self
      refine ⟨r.line.row :: rows, ?_, List.forall_mem_cons.mpr
        ⟨typedRow_record py r hoffset hts, htyped⟩⟩
      exact rowsOfLines_cons_eq_some_iff.mpr ⟨_, rows, rowsOfLine_text py r.line, hrows, rfl⟩


/-- A record is a line of its own. -/
theorem newline_not_mem_record {line : Bytes} (h : IsRecordLine line) : (0x0A : UInt8) ∉ line := by
  obtain ⟨r, t, -, -, rfl⟩ := h
  rw [asciiBytes, List.mem_map]
  rintro ⟨c, hc, hnewline⟩
  have hprint := r.line.printable_text c hc
  simp only [isPrintableAscii, Bool.and_eq_true, decide_eq_true_eq] at hprint
  have hval := congrArg UInt8.toNat hnewline
  simp only [UInt8.toNat_ofNat', UInt8.reduceToNat] at hval
  omega

open Classical in
/-- The file of the records alone is read as the records among the lines. -/
theorem rowsOf_recordsOnly (py : Interpreter) (file : Option Bytes) :
    (readAuditFile py (file.map recordsOnly)).toOption =
      rowsOfLines py ((linesIn file).filter fun line => IsRecordLine line) := by
  cases file with
  | none => rfl
  | some file =>
      have hlines : linesIn (some (recordsOnly file)) =
          ((byteLines file).filter fun line => IsRecordLine line) ++ [[]] := by
        refine byteLines_flatMap _ fun line hline => ?_
        exact newline_not_mem_record (by simpa using (List.mem_filter.mp hline).2)
      rw [Option.map_some, rowsOf_eq, hlines]
      change _ = rowsOfLines py ((byteLines file).filter fun line => IsRecordLine line)
      generalize (byteLines file).filter _ = lines
      induction lines with
      | nil => rfl
      | cons line lines ih => rw [List.cons_append, rowsOfLines, rowsOfLines, ih]

/-! ### The page -/

section Page

variable {py : Interpreter} {f : Filters} {cutoff now : DateTime}

/-- What the page shows of rows: what the report counts and the table shows, where the agents
can be sorted. -/
theorem viewOf_eq_ok_iff (hcutoff : now.add (-(24 * 3600000000)) = some cutoff) {rows : List Json}
    {view : AdminView} : viewOf py rows now f = .ok view ↔
      denialKeys py cutoff rows = .ok view.summary ∧
        applyFilters py rows { f with now := some now } = .ok view.rows ∧
        sortedItems view.summary = .ok view.summary := by
  have hitems : ∀ summary items, sortedItems summary = .ok items → items = summary := by
    intro summary items h
    simp only [sortedItems] at h
    split at h
    · exact (Except.ok.inj h).symm
    · cases h
  simp only [viewOf, summarizeDenials, hcutoff, bind, Except.bind, pure, Except.pure]
  cases denialKeys py cutoff rows with
  | error e => simp
  | ok summary =>
      cases applyFilters py rows { f with now := some now } with
      | error e => simp
      | ok table =>
          dsimp only
          cases hsorted : sortedItems summary with
          | error e =>
              simp only [reduceCtorEq, Except.ok.injEq, false_iff]
              rintro ⟨rfl, -, h⟩
              rw [hsorted] at h
              cases h
          | ok items =>
              obtain rfl := hitems _ _ hsorted
              obtain ⟨summary', rows'⟩ := view
              simp only [Except.ok.injEq, AdminView.mk.injEq]
              constructor
              · rintro ⟨rfl, rfl⟩
                exact ⟨rfl, rfl, hsorted⟩
              · rintro ⟨rfl, rfl, -⟩
                exact ⟨rfl, rfl⟩

/-- A page without its report is none. -/
theorem viewOf_of_none (hnone : now.add (-(24 * 3600000000)) = none) (rows : List Json) :
    viewOf py rows now f = .error .overflowError := by
  simp only [viewOf, summarizeDenials, hnone, bind, Except.bind]

/-- Agents that are texts can be sorted. -/
theorem sortedItems_of_text {summary : List (Json × Str)}
    (h : ∀ item ∈ summary, kindOf item.1 = .text) : sortedItems summary = .ok summary := by
  rw [sortedItems, if_pos]
  rw [List.all_eq_true]
  intro a ha
  rw [List.all_eq_true]
  intro b hb
  rw [h a ha, h b hb, decide_eq_true_eq]

/-- **The page of rows of the report**: the keys of the denials of the last day, and the rows
that pass the filters. -/
theorem viewOf_records (hsince : ∀ hours ∈ f.sinceHours, (now.add (-(hours * 3600000000))).isSome)
    (hnow : now.offset.isSome) (hcutoff : now.add (-(24 * 3600000000)) = some cutoff)
    {rows : List Json} (hrows : ∀ row ∈ rows, TypedRow py row) :
    viewOf py rows now f = .ok
      { summary := (rows.filter ((denialsSince 24 now).passes py)).map rowKey
        rows := rows.filter (Filters.passes py { f with now := some now }) } := by
  have hreport := fun row hrow => (hrows row hrow).isReportRow
  have husable : ∀ g : Filters, g.now = some now →
      (∀ hours ∈ g.sinceHours, (now.add (-(hours * 3600000000))).isSome) → g.Usable := by
    intro g hg hin hours now' hhours hnow'
    obtain rfl := Option.some.inj (hg.symm.trans hnow')
    exact ⟨hnow, hin hours hhours⟩
  have htable := applyFilters_eq_filter (husable { f with now := some now } rfl hsince) hrows
  have hday : ∀ hours ∈ (denialsSince 24 now).sinceHours,
      (now.add (-(hours * 3600000000))).isSome := by
    simp only [denialsSince, Option.mem_some_iff, forall_eq', hcutoff, Option.isSome_some]
  have hcounted := applyFilters_eq_filter (husable (denialsSince 24 now) rfl hday) hrows
  have hsummary := @summarizeDenials_eq py rows now 24 hreport
  rw [hcounted] at hsummary
  simp only [summarizeDenials, hcutoff] at hsummary
  refine (viewOf_eq_ok_iff hcutoff).mpr ⟨hsummary, htable, sortedItems_of_text ?_⟩
  intro item hitem
  obtain ⟨row, hrow, rfl⟩ := List.mem_map.mp hitem
  obtain ⟨r, agent, tool, rfl, hagent, htool⟩ := hreport row (List.mem_of_mem_filter hrow)
  simp only [rowKey, hagent, htool, kindOf]

open Classical in
/-- **What damaged lines add.** Next to what the records alone give, the lines give no less, and
give the same only where every other line goes unnoticed. Induction on the lines. -/
theorem lines_add (lines : List Bytes) {rows records : List Json}
    {summary summary' : List (Json × Str)} {table table' : List Json}
    (hrows : rowsOfLines py lines = some rows)
    (hrecords : rowsOfLines py (lines.filter fun line => IsRecordLine line) = some records)
    (hsummary : denialKeys py cutoff rows = .ok summary)
    (hsummary' : denialKeys py cutoff records = .ok summary')
    (htable : applyFilters py rows { f with now := some now } = .ok table)
    (htable' : applyFilters py records { f with now := some now } = .ok table') :
    summary'.length ≤ summary.length ∧ table'.length ≤ table.length ∧
      (summary.length = summary'.length → table.length = table'.length →
        ∀ line ∈ lines, ¬IsRecordLine line → Unnoticed py cutoff now f line) := by
  induction lines generalizing rows records summary summary' table table' with
  | nil =>
      obtain rfl := Option.some.inj hrows
      obtain rfl := Option.some.inj hrecords
      obtain rfl := Except.ok.inj (hsummary.symm.trans hsummary')
      obtain rfl := Except.ok.inj (htable.symm.trans htable')
      simp
  | cons line lines ih =>
      obtain ⟨first, rest, hfirst, hrest, rfl⟩ := rowsOfLines_cons_eq_some_iff.mp hrows
      obtain ⟨s₁, s₂, hs₁, hs₂, rfl⟩ := (appends_denialKeys _ _ _).mp hsummary
      obtain ⟨t₁, t₂, ht₁, ht₂, rfl⟩ := (appends_applyFilters _ _ _).mp htable
      by_cases hline : IsRecordLine line
      · rw [List.filter_cons_of_pos (by simpa using hline)] at hrecords
        obtain ⟨first', rest', hfirst', hrest', rfl⟩ := rowsOfLines_cons_eq_some_iff.mp hrecords
        obtain rfl := Option.some.inj (hfirst.symm.trans hfirst')
        obtain ⟨s₁', s₂', hs₁', hs₂', rfl⟩ := (appends_denialKeys _ _ _).mp hsummary'
        obtain ⟨t₁', t₂', ht₁', ht₂', rfl⟩ := (appends_applyFilters _ _ _).mp htable'
        obtain rfl := Except.ok.inj (hs₁.symm.trans hs₁')
        obtain rfl := Except.ok.inj (ht₁.symm.trans ht₁')
        obtain ⟨hs, ht, hall⟩ := ih hrest hrest' hs₂ hs₂' ht₂ ht₂'
        simp only [List.length_append, Nat.add_le_add_iff_left, Nat.add_left_cancel_iff]
        refine ⟨hs, ht, fun h h' => List.forall_mem_cons.mpr ⟨fun hnot => (hnot hline).elim, ?_⟩⟩
        exact hall h h'
      · rw [List.filter_cons_of_neg (by simpa using hline)] at hrecords
        obtain ⟨hs, ht, hall⟩ := ih hrest hrecords hs₂ hsummary' ht₂ htable'
        simp only [List.length_append]
        refine ⟨by omega, by omega, fun h h' => List.forall_mem_cons.mpr ⟨fun _ => ?_, ?_⟩⟩
        · obtain rfl : s₁ = [] := List.length_eq_zero_iff.mp (by omega)
          obtain rfl : t₁ = [] := List.length_eq_zero_iff.mp (by omega)
          exact ⟨first, hfirst, hs₁, ht₁⟩
        · exact hall (by omega) (by omega)

open Classical in
/-- **Lines that go unnoticed add nothing** to what the records alone give. Induction on the
lines. -/
theorem lines_keep (lines : List Bytes) {records : List Json}
    {summary : List (Json × Str)} {table : List Json}
    (hunnoticed : ∀ line ∈ lines, ¬IsRecordLine line → Unnoticed py cutoff now f line)
    (hrecords : rowsOfLines py (lines.filter fun line => IsRecordLine line) = some records)
    (hsummary : denialKeys py cutoff records = .ok summary)
    (htable : applyFilters py records { f with now := some now } = .ok table) :
    ∃ rows, rowsOfLines py lines = some rows ∧ denialKeys py cutoff rows = .ok summary ∧
      applyFilters py rows { f with now := some now } = .ok table := by
  induction lines generalizing records summary table with
  | nil => exact ⟨records, hrecords, hsummary, htable⟩
  | cons line lines ih =>
      obtain ⟨hline, hlines⟩ := List.forall_mem_cons.mp hunnoticed
      by_cases hrecord : IsRecordLine line
      · rw [List.filter_cons_of_pos (by simpa using hrecord)] at hrecords
        obtain ⟨first, rest, hfirst, hrest, rfl⟩ := rowsOfLines_cons_eq_some_iff.mp hrecords
        obtain ⟨s₁, s₂, hs₁, hs₂, rfl⟩ := (appends_denialKeys _ _ _).mp hsummary
        obtain ⟨t₁, t₂, ht₁, ht₂, rfl⟩ := (appends_applyFilters _ _ _).mp htable
        obtain ⟨rows, hrows, hs, ht⟩ := ih hlines hrest hs₂ ht₂
        exact ⟨first ++ rows, rowsOfLines_cons_eq_some_iff.mpr ⟨first, rows, hfirst, hrows, rfl⟩,
          (appends_denialKeys _ _ _).mpr ⟨s₁, s₂, hs₁, hs, rfl⟩,
          (appends_applyFilters _ _ _).mpr ⟨t₁, t₂, ht₁, ht, rfl⟩⟩
      · rw [List.filter_cons_of_neg (by simpa using hrecord)] at hrecords
        obtain ⟨first, hfirst, hs₁, ht₁⟩ := hline hrecord
        obtain ⟨rows, hrows, hs, ht⟩ := ih hlines hrecords hsummary htable
        exact ⟨first ++ rows, rowsOfLines_cons_eq_some_iff.mpr ⟨first, rows, hfirst, hrows, rfl⟩,
          (appends_denialKeys _ _ _).mpr ⟨[], summary, hs₁, hs, rfl⟩,
          (appends_applyFilters _ _ _).mpr ⟨[], table, ht₁, ht, rfl⟩⟩

/-- The page shows what is read of the file. -/
theorem adminPipeline_eq_ok_iff {file : Option Bytes} {view : AdminView} :
    adminPipeline py file now f = .ok view ↔
      ∃ rows, (readAuditFile py file).toOption = some rows ∧ viewOf py rows now f = .ok view := by
  rw [adminPipeline]
  cases readAuditFile py file with
  | error e => simp [Except.toOption]
  | ok rows =>
      simp only [Except.toOption, Option.some.injEq, exists_eq_left']
      cases viewOf py rows now f <;> simp [Except.mapError]

end Page

/-- **Damage stays in its line** exactly where the day before is one of the calendar and every
line that is no record can be skipped. -/
theorem damage_isolated_iff (py : Interpreter) (file : Option Bytes) {now : DateTime} {f : Filters}
    (hnow : now.offset = some 0)
    (hsince : ∀ hours ∈ f.sinceHours, (now.add (-(hours * 3600000000))).isSome) :
    Isolated py file now f ↔ (now.add (-(24 * 3600000000))).isSome ∧
      ∀ line ∈ linesIn file, ¬IsRecordLine line → Skippable py now f line := by
  classical
  have haware : now.offset.isSome := by rw [hnow]; rfl
  cases hcutoff : now.add (-(24 * 3600000000)) with
  | none =>
      simp only [Isolated, adminPipeline_eq_ok_iff, viewOf_of_none hcutoff]
      simp
  | some cutoff =>
      have hrecords : ∀ line ∈ (linesIn file).filter fun line => IsRecordLine line,
          IsRecordLine line := fun line hline => by simpa using (List.mem_filter.mp hline).2
      obtain ⟨records, hread, htyped⟩ := rowsOfLines_records py _ hrecords
      obtain ⟨clean, hclean⟩ : ∃ clean, viewOf py records now f = .ok clean :=
        ⟨_, viewOf_records hsince haware hcutoff htyped⟩
      obtain ⟨hsummary', htable', hsorted'⟩ := (viewOf_eq_ok_iff hcutoff).mp hclean
      simp only [Option.isSome_some, true_and, skippable_iff hsince haware hcutoff, Isolated,
        adminPipeline_eq_ok_iff, (rowsOf_recordsOnly py file).trans hread]
      rw [rowsOf_eq]
      constructor
      · rintro ⟨view, clean', ⟨rows, hrows, hview⟩, ⟨records', hrecords', hclean'⟩, hperm, hsame⟩
        obtain rfl := Option.some.inj hrecords'
        obtain rfl := Except.ok.inj (hclean.symm.trans hclean')
        obtain ⟨hsummary, htable, -⟩ := (viewOf_eq_ok_iff hcutoff).mp hview
        exact (lines_add _ hrows hread hsummary hsummary' htable htable').2.2 hperm.length_eq
          (congrArg List.length hsame)
      · intro hunnoticed
        obtain ⟨rows, hrows, hsummary, htable⟩ := lines_keep _ hunnoticed hread hsummary' htable'
        exact ⟨clean, clean, ⟨rows, hrows, (viewOf_eq_ok_iff hcutoff).mpr
          ⟨hsummary, htable, hsorted'⟩⟩, ⟨records, rfl, hclean⟩, .rfl, rfl⟩

/-- A line that was cut off behind its first byte is skipped. -/
theorem damage_isolated_sample :
    Isolated ⟨100, fun _ => true⟩ (some [0x7B, 0x0A]) sampleNoon {} := by
  have hlines : linesIn (some [0x7B, 0x0A]) = [[0x7B], []] := by decide +kernel
  have hparts : splitlines (universalNewlines [0x7B]) = [[0x7B]] := by decide +kernel
  have hstrip : strip [0x7B] = [0x7B] := by decide +kernel
  have hloads : loads 101 [0x7B] = .error .valueError := by
    have hskip : skipSpace [0x7B] = [0x7B] := by decide +kernel
    rw [loads, if_neg (by decide), hskip, List.length_singleton, scanOnce, if_neg (by decide),
      if_pos rfl]
    simp [skipSpace]
  refine (damage_isolated_iff ⟨100, fun _ => true⟩ (some [0x7B, 0x0A]) rfl
    (fun _ h => by cases h)).mpr ⟨by decide +kernel, ?_⟩
  rw [hlines]
  refine List.forall_mem_cons.mpr ⟨fun _ => ?_, List.forall_mem_singleton.mpr fun _ => ?_⟩
  · refine ⟨[0x7B], by decide +kernel, ?_⟩
    rw [hparts, List.forall_mem_singleton]
    intro _
    rw [hstrip, hloads]
    simp
  · exact ⟨[], rfl, fun part hpart => absurd hpart List.not_mem_nil⟩

/-- **One byte that is no UTF-8 takes the page away.** -/
theorem damage_isolated_fails :
    ¬∀ (py : Interpreter) (file : Option Bytes) (now : DateTime) (f : Filters),
    now.offset = some 0 →
    (∀ hours ∈ f.sinceHours, (now.add (-(hours * 3600000000))).isSome) →
    Isolated py file now f := by
  intro hclaim
  obtain ⟨view, -, hview, -⟩ := hclaim ⟨100, fun _ => true⟩ (some [0xFF]) sampleNoon {} rfl
    (fun _ h => by cases h)
  have hdecode : decodeUtf8 [0xFF] = none := by decide +kernel
  simp [adminPipeline, readAuditFile, hdecode] at hview

end AgentOpsGateway
