import AgentOpsGateway.Audit
import AgentOpsGateway.JsonPrefix

/-!
# The Audit File and its Reader

`record` appends a line of JSON to the audit file, in one write that can stop anywhere when
the disk is full; what has been written stays, and the next call goes on behind it.
`readAudit` splits the file into lines and skips those that are no JSON.

The writer emits ASCII, so the characters of the file are also its bytes; on its way through
`open` a newline stays a newline.

## Main results

* `readAudit_fileAfter`: **what is read of a file is decided line by line**: the reader fails
  where a line uses up its stack, and otherwise gives the lines that hold one whole record.
* `audit_round_trip`: **complete writes are read back**, one row for each in their order.
* `partial_writes_iff`: exactly the complete records are read where no complete line stands
  behind a partial one and no record lacks only its newline.
-/

namespace AgentOpsGateway

open Python

/-! ### The writer -/

/-- The dictionary `line` of `record`. -/
structure LogLine where
  ts : Str
  agent : Str
  tool : Str
  argsSummary : Str
  decision : Str
  traceId : Str

/-- The fields of a line behind the first one, in the order they are written. -/
def LogLine.others (line : LogLine) : List (Str × Str) :=
  [(lit "agent", line.agent), (lit "tool", line.tool), (lit "args_summary", line.argsSummary),
    (lit "decision", line.decision), (lit "trace_id", line.traceId)]

/-- `json.dumps(line)`. -/
def LogLine.text (line : LogLine) : Str :=
  dumps (.obj (((lit "ts", line.ts) :: line.others).map strField))

/-- The dictionary as it is read back. -/
def LogLine.row (line : LogLine) : Json :=
  .obj (dictOf (((lit "ts", line.ts) :: line.others).map joinField))

/-- The arguments of a call of `record` and the time it reads. -/
structure Recording where
  ts : Str
  agent : Str
  tool : Str
  args : Arguments
  /-- The floats among the arguments are kept as Python prints them. -/
  printed : fieldsFloatsPrinted args
  decision : Str
  traceId : Str

/-- The line of a call. -/
def Recording.line (r : Recording) : LogLine :=
  { ts := r.ts, agent := r.agent, tool := r.tool, argsSummary := argsSummary r.args
    decision := r.decision, traceId := r.traceId }

/-- A line on its way to the file: how many of its characters are written before the write
fails, or `none` where the file cannot be opened. -/
structure Write where
  line : LogLine
  written : Option ℕ

/-- The characters that reach the file. -/
def Write.count (w : Write) : ℕ := w.written.getD 0

/-- The line has been written, with its newline. -/
def Write.complete (w : Write) : Bool := w.line.text.length < w.count

/-- The writing part of `record`, on the text of the file, `none` where there is no file yet;
an `OSError` is logged and forgotten. -/
def Write.run (file : Option Str) (w : Write) : Option Str :=
  match w.written with
  | none => file
  | some n => some (file.getD [] ++ (w.line.text ++ [0x0A]).take n)

/-- The file after a sequence of writes. -/
def fileAfter (ws : List Write) : Option Str := ws.foldl Write.run none

/-- A write that succeeds. -/
def LogLine.write (line : LogLine) : Write := ⟨line, some (line.text.length + 1)⟩

/-! ### The reader -/

/-- The loop of `read_audit` over the lines; a `ValueError` is logged and skipped. -/
def readLines (depth : ℕ) : List Str → Except LoadsError (List Json)
  | [] => .ok []
  | line :: lines =>
    if strip line = [] then readLines depth lines
    else
      match loads depth (strip line) with
      | .ok row => (readLines depth lines).map (row :: ·)
      | .error .valueError => readLines depth lines
      | .error .recursionError => .error .recursionError

/-- `read_audit(path)`. -/
def readAudit (py : Interpreter) (file : Option Str) : Except LoadsError (List Json) :=
  match file with
  | none => .ok []
  | some text => readLines (py.spareLevels + 1) (splitlines (universalNewlines text))

/-! ### The lines of the file -/

theorem blocking_ts : ((encodeString (lit "ts")).head?.any isBlocking) = true := by decide

/-- The beginning of a line. -/
def LogLine.cut (line : LogLine) (n : ℕ) (hn : 0 < n) : Cut :=
  { first := (lit "ts", line.ts), others := line.others, size := n, size_pos := hn
    blocking := blocking_ts }

/-- A line of the file: the beginnings of records it is made of, and whether the last of
them has its newline. -/
structure FileLine where
  cuts : List Cut
  cuts_ne : cuts ≠ []
  ended : Bool

/-- The lines of the file, `pending` being the beginnings of records on the current one. -/
def linesFrom (pending : List Cut) : List Write → List FileLine
  | [] => if h : pending = [] then [] else [⟨pending, h, false⟩]
  | w :: ws =>
    if hn : 0 < w.count then
      if w.complete then
        ⟨pending ++ [w.line.cut w.count hn], by simp, true⟩ :: linesFrom [] ws
      else linesFrom (pending ++ [w.line.cut w.count hn]) ws
    else linesFrom pending ws

/-- The lines of the file after a sequence of writes. -/
def fileLines (ws : List Write) : List FileLine := linesFrom [] ws

/-- The row that is read of a line. -/
def FileLine.kept (l : FileLine) : Option Json := (soleWhole l.cuts).map Cut.row

/-- Printable text holds no line break. -/
theorem plain_of_printable {s : Str} (hs : Printable s) : Plain s := by
  intro c hc
  have := hs c hc
  simp only [isPrintableAscii, Bool.and_eq_true, decide_eq_true_eq] at this
  simp only [isLineBreak, Bool.or_eq_false_iff, Bool.and_eq_false_iff, decide_eq_false_iff_not,
    beq_eq_false_iff_ne]
  omega

theorem LogLine.printable_text (line : LogLine) : Printable line.text :=
  printable_dumps _ (fieldsFloatsPrinted_strField _)

/-- The characters of a write that reach the file. -/
def Write.chars (w : Write) : Str := (w.line.text ++ [0x0A]).take w.count

/-- A complete write adds its line and the newline. -/
theorem Write.chars_of_complete {w : Write} (h : w.complete = true) :
    w.chars = w.line.text ++ [0x0A] := by
  rw [Write.complete, decide_eq_true_eq] at h
  refine List.take_of_length_le ?_
  rw [List.length_append, List.length_singleton]
  exact h

/-- Any other write adds the beginning of its line. -/
theorem Write.chars_of_partial {w : Write} (h : w.complete = false) :
    w.chars = w.line.text.take w.count := by
  rw [Write.complete, decide_eq_false_iff_not, Nat.not_lt] at h
  exact List.take_append_of_le_length h

/-- The text of the file. -/
theorem fileAfter_getD (ws : List Write) : (fileAfter ws).getD [] = ws.flatMap Write.chars := by
  suffices h : ∀ file : Option Str,
      (ws.foldl Write.run file).getD [] = file.getD [] ++ ws.flatMap Write.chars from h none
  induction ws with
  | nil => simp
  | cons w ws ih =>
      intro file
      rw [List.foldl_cons, ih, List.flatMap_cons, ← List.append_assoc]
      congr 1
      cases hw : w.written <;> simp [Write.run, Write.chars, Write.count, hw]

/-- **The lines of the file** are the rows of beginnings that `linesFrom` collects. Induction
on the writes. -/
theorem linesOf_writes (pending : List Cut) (hpending : Plain (cutsText pending))
    (ws : List Write) :
    linesOf (cutsText pending) (ws.flatMap Write.chars) =
      (linesFrom pending ws).map fun l => cutsText l.cuts := by
  induction ws generalizing pending with
  | nil =>
      by_cases h : pending = []
      · subst h
        rfl
      · have hne : cutsText pending ≠ [] := fun htext => h (cutsText_eq_nil.mp htext)
        simp [linesFrom, h, hne]
  | cons w ws ih =>
      have hline := w.line.printable_text
      rw [List.flatMap_cons, linesFrom]
      split
      · next hn =>
          have hcut : (w.line.cut w.count hn).text = w.line.text.take w.count := rfl
          have hconcat : cutsText (pending ++ [w.line.cut w.count hn]) =
              cutsText pending ++ w.line.text.take w.count := by
            simp [cutsText, hcut]
          cases hcomplete : w.complete with
          | true =>
              have hwhole : w.line.text.take w.count = w.line.text :=
                List.take_of_length_le (by simp [Write.complete] at hcomplete; omega)
              rw [w.chars_of_complete hcomplete, List.append_assoc,
                linesOf_append (plain_of_printable hline), List.singleton_append, linesOf_newline,
                if_pos rfl, List.map_cons, hconcat, hwhole]
              exact congrArg _ (ih [] (by simp [Plain, cutsText]))
          | false =>
              have hpart : Plain (w.line.text.take w.count) :=
                plain_of_printable (hline.of_sublist (List.take_sublist _ _))
              rw [w.chars_of_partial hcomplete, linesOf_append hpart, ← hconcat,
                if_neg Bool.false_ne_true]
              refine ih _ ?_
              rw [hconcat]
              exact List.forall_mem_append.mpr ⟨hpending, hpart⟩
      · next hn =>
          have hchars : w.chars = [] := by
            rw [Write.chars, Nat.eq_zero_of_not_pos hn, List.take_zero]
          rw [hchars, List.nil_append]
          exact ih pending hpending

/-- The reader on lines that are rows of beginnings. Induction on the lines. -/
theorem readLines_cuts (depth : ℕ) (ls : List FileLine) :
    readLines depth (ls.map fun l => cutsText l.cuts) =
      if ls.any (fun l => tooDeep depth l.cuts) then .error .recursionError
      else .ok (ls.filterMap FileLine.kept) := by
  induction ls with
  | nil => rfl
  | cons l ls ih =>
      rw [List.map_cons, readLines, if_neg (strip_cutsText_ne_nil l.cuts_ne), loads_strip_cutsText,
        loads_cutsText, ih, List.any_cons]
      cases hdeep : tooDeep depth l.cuts with
      | true => simp
      | false =>
          cases hsole : soleWhole l.cuts with
          | none => simp [FileLine.kept, hsole]
          | some c =>
              cases hrest : ls.any fun l => tooDeep depth l.cuts <;>
                simp [FileLine.kept, hsole, Except.map]

/-- **What is read of a file** is decided line by line. -/
theorem readAudit_fileAfter (py : Interpreter) (ws : List Write) :
    readAudit py (fileAfter ws) =
      if (fileLines ws).any (fun l => tooDeep (py.spareLevels + 1) l.cuts) then
        .error .recursionError
      else .ok ((fileLines ws).filterMap FileLine.kept) := by
  have hread : readAudit py (fileAfter ws) =
      readLines (py.spareLevels + 1) (linesOf [] ((fileAfter ws).getD [])) := by
    cases fileAfter ws with
    | none => rfl
    | some text => exact congrArg _ (splitlines_universalNewlines text)
  have hlines := linesOf_writes [] (by simp [Plain, cutsText]) ws
  rw [hread, fileAfter_getD, fileLines, ← readLines_cuts, ← hlines]
  rfl

/-! ### Complete writes -/

/-- The lines of a file whose writes have all succeeded. -/
theorem fileLines_write (lines : List LogLine) :
    (fileLines (lines.map LogLine.write)).filterMap FileLine.kept = lines.map LogLine.row ∧
      ∀ l ∈ fileLines (lines.map LogLine.write), l.cuts.length = 1 := by
  induction lines with
  | nil => exact ⟨rfl, fun _ h => absurd h List.not_mem_nil⟩
  | cons line lines ih =>
      have hcount : line.write.count = line.text.length + 1 := rfl
      have hn : 0 < line.write.count := by rw [hcount]; exact Nat.succ_pos _
      have hcomplete : line.write.complete = true := by
        rw [Write.complete, hcount, decide_eq_true_eq]
        exact Nat.lt_succ_self _
      have hwhole : (line.cut line.write.count hn).whole = true := by
        rw [Cut.whole, decide_eq_true_eq]
        exact Nat.le_succ line.text.length
      have hlines : fileLines ((line :: lines).map LogLine.write) =
          ⟨[line.cut line.write.count hn], by simp, true⟩ ::
            fileLines (lines.map LogLine.write) := by
        rw [fileLines, List.map_cons, linesFrom, dif_pos hn, if_pos hcomplete]
        rfl
      have hkept : FileLine.kept ⟨[line.cut line.write.count hn], by simp, true⟩ =
          some line.row := by
        rw [FileLine.kept, soleWhole]
        simp only [hwhole, if_true]
        rfl
      rw [hlines, List.filterMap_cons, hkept, ih.1]
      refine ⟨rfl, fun l hl => ?_⟩
      rcases List.mem_cons.mp hl with rfl | hl
      · rfl
      · exact ih.2 l hl

/-- **Complete writes are read back**, one row for each in their order. -/
theorem readAudit_write (py : Interpreter) (lines : List LogLine) :
    readAudit py (fileAfter (lines.map LogLine.write)) = .ok (lines.map LogLine.row) := by
  obtain ⟨hrows, hsingle⟩ := fileLines_write lines
  rw [readAudit_fileAfter, hrows, if_neg]
  rw [Bool.not_eq_true, List.any_eq_false]
  intro l hl
  obtain ⟨c, hc⟩ := List.length_eq_one_iff.mp (hsingle l hl)
  simp [hc, tooDeep]

/-- The strings of a call under the keys they are recorded under. -/
def Recording.strings (r : Recording) : List (Str × Str) :=
  [(lit "agent", r.agent), (lit "tool", r.tool), (lit "decision", r.decision),
    (lit "trace_id", r.traceId)]

/-- The row says what has been recorded: every string with its surrogate pairs joined, so
the string itself exactly where it has no such pair, and the beginning of the JSON text of
the arguments. -/
structure Recording.ReadAs (r : Recording) (row : List (Str × Json)) : Prop where
  strings : ∀ p ∈ r.strings, dictGet p.1 row = some (.str (joinSurrogates p.2)) ∧
    (dictGet p.1 row = some (.str p.2) ↔ hasSplitPair p.2 = false)
  argsSummary : dictGet (lit "args_summary") row = some (.str ((dumps (.obj r.args)).take 256))

/-- The dictionary that is read back. -/
def LogLine.dict (line : LogLine) : List (Str × Json) :=
  dictOf (((lit "ts", line.ts) :: line.others).map joinField)

/-- The entries of the dictionary that is read back. -/
theorem LogLine.dictGet_dict (line : LogLine) {p : Str × Str}
    (hp : p ∈ (lit "ts", line.ts) :: line.others) :
    dictGet p.1 line.dict = some (.str (joinSurrogates p.2)) := by
  have hkeys : [lit "ts", lit "agent", lit "tool", lit "args_summary", lit "decision",
      lit "trace_id"].map joinSurrogates = [lit "ts", lit "agent", lit "tool", lit "args_summary",
      lit "decision", lit "trace_id"] := by decide
  simp only [List.map_cons, List.map_nil, List.cons.injEq, and_true] at hkeys
  obtain ⟨hts, hagent, htool, hargs, hdecision, htrace⟩ := hkeys
  simp only [LogLine.dict, LogLine.others, List.map_cons, List.map_nil, joinField, dictOf,
    List.foldl_cons, List.foldl_nil, dictGet_dictSet, hts, hagent, htool, hargs, hdecision, htrace]
  simp only [LogLine.others, List.mem_cons, List.not_mem_nil, or_false] at hp
  rcases hp with rfl | rfl | rfl | rfl | rfl | rfl
  all_goals simp +decide

theorem Recording.readAs_dict (r : Recording) : r.ReadAs r.line.dict := by
  constructor
  · intro p hp
    have hmem : p ∈ (lit "ts", r.line.ts) :: r.line.others := by
      simp only [Recording.strings, List.mem_cons, List.not_mem_nil, or_false] at hp
      rcases hp with rfl | rfl | rfl | rfl <;> simp [LogLine.others, Recording.line]
    rw [r.line.dictGet_dict hmem]
    refine ⟨rfl, ?_⟩
    rw [Option.some.injEq, Json.str.injEq, joinSurrogates_eq_self_iff]
  · have hprint : Printable (argsSummary r.args) :=
      (printable_dumps (.obj r.args) r.printed).of_sublist (List.take_sublist _ _)
    have hget := r.line.dictGet_dict (p := (lit "args_summary", argsSummary r.args))
      (by simp [LogLine.others, Recording.line])
    rw [joinSurrogates_of_printable hprint] at hget
    exact hget

/-- **The audit round trip**: whatever the strings and the arguments, the file of complete
writes is read as one dictionary for each call, in the order of the calls, and each says
what has been recorded. -/
theorem audit_round_trip (py : Interpreter) (calls : List Recording) :
    ∃ rows : List (List (Str × Json)),
      readAudit py (fileAfter (calls.map fun r => r.line.write)) = .ok (rows.map .obj) ∧
      List.Forall₂ Recording.ReadAs calls rows := by
  refine ⟨calls.map fun r => r.line.dict, ?_, ?_⟩
  · have hread := readAudit_write py (calls.map Recording.line)
    rw [List.map_map, List.map_map] at hread
    rw [List.map_map]
    exact hread
  · rw [List.forall₂_map_right_iff, List.forall₂_same]
    exact fun r _ => r.readAs_dict

/-- A call whose agent is the two halves of an astral code point. -/
def splitRecording : Recording :=
  { ts := lit "1970-01-01T00:00:00+00:00", agent := [0xD83D, 0xDE00], tool := lit "ops__query_logs"
    args := [], printed := trivial, decision := lit "denied"
    traceId := lit "0123456789abcdef0123456789abcdef" }

/-- **Two halves do not come back as two**: they are read as the one code point that the
writer escapes in the same way. -/
theorem audit_round_trip_fails : ¬∀ (py : Interpreter) (calls : List Recording),
    ∃ rows : List (List (Str × Json)),
      readAudit py (fileAfter (calls.map fun r => r.line.write)) = .ok (rows.map .obj) ∧
      List.Forall₂ (fun (r : Recording) row => dictGet (lit "agent") row = some (.str r.agent))
        calls rows := by
  intro hclaim
  obtain ⟨rows, hread, hrows⟩ := hclaim ⟨0, fun _ => true⟩ [splitRecording]
  have hwritten := readAudit_write ⟨0, fun _ => true⟩ [splitRecording.line]
  rw [List.map_singleton] at hread hwritten
  rw [hwritten, Except.ok.injEq] at hread
  obtain ⟨row, rest, hagent, -, rfl⟩ := List.forall₂_cons_left_iff.mp hrows
  rw [List.map_singleton, List.map_cons, List.cons.injEq] at hread
  have hrow : splitRecording.line.dict = row := Json.obj.inj hread.1
  obtain ⟨-, hequal⟩ := splitRecording.readAs_dict.strings (lit "agent", splitRecording.agent)
    List.mem_cons_self
  rw [hrow] at hequal
  exact absurd (hequal.mp hagent) (by decide)

/-! ### Partial writes -/

/-- The row of the record that ends a line with its newline. -/
def FileLine.due (l : FileLine) : Option Json :=
  if l.ended then l.cuts.getLast?.map Cut.row else none

/-- The line holds one record with its newline and nothing else, or no newline and no record
that lacks nothing else. -/
def FileLine.Sound (l : FileLine) : Prop :=
  if l.ended then l.cuts.length = 1 else soleWhole l.cuts = none

/-- The record that ends a line lacks nothing. -/
def FileLine.EndsWhole (l : FileLine) : Prop :=
  l.ended = true → ∀ c ∈ l.cuts.getLast?, c.whole = true

/-- **A line is sound where the row that is read of it is the one that is due.** -/
theorem FileLine.kept_eq_due_iff {l : FileLine} (hwhole : l.EndsWhole) :
    l.kept = l.due ↔ l.Sound := by
  obtain ⟨cuts, hne, ended⟩ := l
  cases ended with
  | false => simp [FileLine.kept, FileLine.due, FileLine.Sound]
  | true =>
      match cuts, hne with
      | [c], _ =>
          have hc : c.whole = true := hwhole rfl c rfl
          simp [FileLine.kept, FileLine.due, FileLine.Sound, soleWhole, hc]
      | c :: d :: cs, _ => simp [FileLine.kept, FileLine.due, FileLine.Sound, soleWhole]

/-- What the lines of a file have in them: the records due are those of the complete writes,
and the rows of all beginnings are those of writes in their order. Induction on the writes. -/
theorem linesFrom_spec (pending : List Cut) (ws : List Write) :
    (linesFrom pending ws).filterMap FileLine.due =
        (ws.filter Write.complete).map (fun w => w.line.row) ∧
      (∀ l ∈ linesFrom pending ws, l.EndsWhole) ∧
      ((linesFrom pending ws).flatMap fun l => l.cuts.map Cut.row).Sublist
        (pending.map Cut.row ++ ws.map fun w => w.line.row) := by
  induction ws generalizing pending with
  | nil =>
      by_cases h : pending = []
      · simp [linesFrom, h]
      · simp [linesFrom, h, FileLine.due, FileLine.EndsWhole]
  | cons w ws ih =>
      by_cases hn : 0 < w.count
      · have hrow : (w.line.cut w.count hn).row = w.line.row := rfl
        cases hcomplete : w.complete with
        | true =>
            obtain ⟨hdue, hwhole, hrows⟩ := ih []
            simp only [linesFrom, hn, dif_pos, hcomplete, if_true]
            refine ⟨?_, ?_, ?_⟩
            · simp [FileLine.due, hdue, hcomplete, hrow]
            · refine List.forall_mem_cons.mpr ⟨fun _ c hc => ?_, hwhole⟩
              obtain rfl : w.line.cut w.count hn = c := by simpa using hc
              simp only [Write.complete, decide_eq_true_eq] at hcomplete
              exact decide_eq_true hcomplete.le
            · simpa [hrow] using hrows
        | false =>
            obtain ⟨hdue, hwhole, hrows⟩ := ih (pending ++ [w.line.cut w.count hn])
            simp only [linesFrom, hn, dif_pos, hcomplete]
            refine ⟨by simpa [hcomplete] using hdue, hwhole, ?_⟩
            simpa [hrow] using hrows
      · obtain ⟨hdue, hwhole, hrows⟩ := ih pending
        have hcomplete : w.complete = false := by
          simp [Write.complete, Nat.eq_zero_of_not_pos hn]
        simp only [linesFrom, hn, dif_neg, not_false_eq_true]
        refine ⟨by simpa [hcomplete] using hdue, hwhole, hrows.trans ?_⟩
        simp

/-- Two choices of at most one element of each of a list of disjoint collections give the same
elements only where they agree. Induction on the list. -/
theorem filterMap_eq_filterMap_iff {α β : Type*} {f g : α → Option β} {rows : α → List β}
    (hf : ∀ a, ∀ b ∈ f a, b ∈ rows a) (hg : ∀ a, ∀ b ∈ g a, b ∈ rows a) {ls : List α}
    (hdistinct : (ls.flatMap rows).Nodup) :
    ls.filterMap f = ls.filterMap g ↔ ∀ a ∈ ls, f a = g a := by
  have hmem : ∀ {h : α → Option β} {ls : List α}, (∀ a, ∀ b ∈ h a, b ∈ rows a) →
      ∀ b ∈ ls.filterMap h, b ∈ ls.flatMap rows := fun hh b hb => by
    obtain ⟨a, ha, hab⟩ := List.mem_filterMap.mp hb
    exact List.mem_flatMap.mpr ⟨a, ha, hh a b hab⟩
  refine ⟨fun heq => ?_, List.filterMap_congr⟩
  induction ls with
  | nil => exact fun _ h => absurd h List.not_mem_nil
  | cons a ls ih =>
      rw [List.flatMap_cons, List.nodup_append] at hdistinct
      obtain ⟨-, htail, hcross⟩ := hdistinct
      -- A choice made of the first collection is not made of a later one.
      have hfresh : ∀ {h k : α → Option β} {b : β} {bs : List β}, (∀ a, ∀ b ∈ h a, b ∈ rows a) →
          (∀ a, ∀ b ∈ k a, b ∈ rows a) → h a = some b → b :: bs = ls.filterMap k → False :=
        fun hh hk hb hbs => hcross _ (hh a _ hb) _
          (hmem hk _ (hbs ▸ List.mem_cons_self)) rfl
      cases hfa : f a with
      | none =>
          cases hga : g a with
          | none =>
              rw [List.filterMap_cons_none hfa, List.filterMap_cons_none hga] at heq
              exact List.forall_mem_cons.mpr ⟨hfa.trans hga.symm, ih htail heq⟩
          | some c =>
              rw [List.filterMap_cons_none hfa, List.filterMap_cons_some hga] at heq
              exact (hfresh hg hf hga heq.symm).elim
      | some b =>
          cases hga : g a with
          | none =>
              rw [List.filterMap_cons_some hfa, List.filterMap_cons_none hga] at heq
              exact (hfresh hf hg hfa heq).elim
          | some c =>
              rw [List.filterMap_cons_some hfa, List.filterMap_cons_some hga] at heq
              obtain ⟨rfl, hrest⟩ := List.cons.inj heq
              exact List.forall_mem_cons.mpr ⟨hfa.trans hga.symm, ih htail hrest⟩

/-- The row that is read of a line is that of one of its beginnings. -/
theorem FileLine.mem_of_kept (l : FileLine) : ∀ row ∈ l.kept, row ∈ l.cuts.map Cut.row := by
  obtain ⟨cuts, hne, ended⟩ := l
  intro row hrow
  match cuts, hne with
  | [c], _ =>
      cases hc : c.whole <;> simp [FileLine.kept, soleWhole, hc] at hrow ⊢
      exact hrow.symm
  | c :: d :: cs, _ => simp [FileLine.kept, soleWhole] at hrow

/-- The row that is due of a line is that of one of its beginnings. -/
theorem FileLine.mem_of_due (l : FileLine) : ∀ row ∈ l.due, row ∈ l.cuts.map Cut.row := by
  intro row hrow
  rw [FileLine.due] at hrow
  split at hrow
  · obtain ⟨c, hc, rfl⟩ := Option.map_eq_some_iff.mp hrow
    exact List.mem_map_of_mem (List.mem_of_getLast? hc)
  · simp at hrow

/-- The reader of `py` has the stack for every line of the file. -/
def FitsStack (py : Interpreter) (ws : List Write) : Prop :=
  ∀ l ∈ fileLines ws, tooDeep (py.spareLevels + 1) l.cuts = false

/-- **Partial writes**: the reader gives exactly the records written with their newline, in
their order, exactly when it has the stack for every line and the rows it keeps are the rows
that are due. Where no two writes record the same, these are the same rows exactly when every
line is sound: a complete write starts its line, and no record lacks only its newline. -/
theorem partial_writes_iff (py : Interpreter) (ws : List Write) :
    (readAudit py (fileAfter ws) = .ok ((ws.filter Write.complete).map fun w => w.line.row) ↔
      FitsStack py ws ∧ (fileLines ws).filterMap FileLine.kept =
        (ws.filter Write.complete).map fun w => w.line.row) ∧
    ((ws.map fun w => w.line.row).Nodup →
      ((fileLines ws).filterMap FileLine.kept =
          (ws.filter Write.complete).map (fun w => w.line.row) ↔
        ∀ l ∈ fileLines ws, l.Sound)) := by
  obtain ⟨hdue, hwhole, hrows⟩ := linesFrom_spec [] ws
  constructor
  · have hfits : (fileLines ws).any (fun l => tooDeep (py.spareLevels + 1) l.cuts) = false ↔
        FitsStack py ws := by simp [FitsStack, List.any_eq_false]
    rw [readAudit_fileAfter]
    split
    · next hdeep => simp [← hfits, hdeep]
    · next hdeep =>
        rw [Bool.not_eq_true] at hdeep
        rw [Except.ok.injEq]
        exact (and_iff_right (hfits.mp hdeep)).symm
  · intro hdistinct
    rw [← hdue]
    have hnodup : ((fileLines ws).flatMap fun l => l.cuts.map Cut.row).Nodup :=
      hdistinct.sublist (by simpa [fileLines] using hrows)
    rw [fileLines] at hnodup ⊢
    rw [filterMap_eq_filterMap_iff FileLine.mem_of_kept FileLine.mem_of_due hnodup]
    exact forall₂_congr fun l hl => FileLine.kept_eq_due_iff (hwhole l hl)

/-- The line of a denied call. -/
def deniedLine : LogLine := { splitRecording.line with agent := lit "support-agent" }

/-- Two writes of a line, the first of which stops after the opening brace. -/
def partialWrites : List Write := [⟨deniedLine, some 1⟩, deniedLine.write]

/-- **A partial write loses the record behind it**: the complete line goes on behind the
brace that the first write has left, and nothing is read. -/
theorem partial_writes_fail : ¬∀ (py : Interpreter) (ws : List Write),
    readAudit py (fileAfter ws) = .ok ((ws.filter Write.complete).map fun w => w.line.row) := by
  intro hclaim
  have hnone : (readAudit ⟨0, fun _ => true⟩ (fileAfter partialWrites)).toOption.any
      (fun rows => rows.isEmpty) = true := by decide +kernel
  have hone : (partialWrites.filter Write.complete).isEmpty = false := by decide +kernel
  rw [hclaim] at hnone
  simp only [Except.toOption, Option.any_some, List.isEmpty_map, hone, Bool.false_eq_true] at hnone

end AgentOpsGateway
