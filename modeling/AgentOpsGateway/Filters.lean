import AgentOpsGateway.Admin

/-!
# The Admin Table

The table below the report is cut down by `apply_filters`, which is written apart from
`summarize_denials`: one takes the denials of the window out of the rows and then looks at
their time, the other passes over rows that are no denial and counts the rest.

## Main results

* `applyFilters_eq_filter`: the table has the rows that pass every active filter, in order.
* `summarizeDenials_eq`: **the report counts the rows of the table**, whatever the times of
  the rows are, and raises where the table does.
* `report_agrees_with_table`: the counts, the total and the laws of the filters.
-/

namespace AgentOpsGateway

open Python

/-! ### The filters -/

/-- `[r for r in rows if test(r)]`, where the test may raise. -/
def keepRows (test : Json → Except ReportError Bool) : List Json → Except ReportError (List Json)
  | [] => .ok []
  | row :: rows =>
    match test row with
    | .error e => .error e
    | .ok keep => (keepRows test rows).map fun out => if keep then row :: out else out

/-- `r.get(field) == value` of a dict. -/
def hasField (field value : Str) (r : List (Str × Json)) : Bool :=
  match dictGet field r with
  | some (.str s) => s = value
  | _ => false

/-- `r.get(field) == value`. -/
def fieldIs (field value : Str) : Json → Except ReportError Bool
  | .obj r => .ok (hasField field value r)
  | .null | .bool _ | .int _ | .float _ | .str _ | .arr _ => .error .attributeError

/-- `ts >= cutoff`. -/
def isSince (ts cutoff : DateTime) : Except ReportError Bool :=
  if ts.offset.isSome = cutoff.offset.isSome then .ok (cutoff.instant ≤ ts.instant)
  else .error .typeError

/-- `ts is not None and ts >= cutoff` of `_parse_ts(r)`. Of what is no dict, `r["ts"]` raises a
`TypeError`, which `_parse_ts` catches. -/
def isRecent (py : Interpreter) (cutoff : DateTime) : Json → Except ReportError Bool
  | .obj r =>
    match parseTs py r with
    | none => .ok false
    | some ts => isSince ts cutoff
  | .null | .bool _ | .int _ | .float _ | .str _ | .arr _ => .ok false

/-- The keyword arguments of `apply_filters`. -/
structure Filters where
  agent : Option Str := none
  decision : Option Str := none
  sinceHours : Option ℤ := none
  now : Option DateTime := none

/-- `if value: out = [r for r in out if r.get(field) == value]`. -/
def filterField (field : Str) (value : Option Str) (rows : List Json) :
    Except ReportError (List Json) :=
  match value with
  | none | some [] => .ok rows
  | some (c :: s) => keepRows (fieldIs field (c :: s)) rows

/-- `if since_hours is not None and now is not None: …`. -/
def filterSince (py : Interpreter) (f : Filters) (rows : List Json) :
    Except ReportError (List Json) :=
  match f.sinceHours, f.now with
  | some hours, some now =>
    match now.add (-(hours * 3600000000)) with
    | none => .error .overflowError
    | some cutoff => keepRows (isRecent py cutoff) rows
  | _, _ => .ok rows

/-- `apply_filters(rows, agent=…, decision=…, since_hours=…, now=…)`. -/
def applyFilters (py : Interpreter) (rows : List Json) (f : Filters) :
    Except ReportError (List Json) := do
  let out ← filterField (lit "agent") f.agent rows
  let out ← filterField (lit "decision") f.decision out
  filterSince py f out

/-! ### What a filter keeps -/

/-- The row passes the filter on a field. -/
def passesField (field : Str) (value : Option Str) : Json → Bool
  | .obj r =>
    match value with
    | none | some [] => true
    | some (c :: s) => hasField field (c :: s) r
  | _ => false

/-- The row passes the filter on the time. -/
def passesSince (py : Interpreter) (f : Filters) : Json → Bool
  | .obj r =>
    match f.sinceHours, f.now with
    | some hours, some now =>
      match now.add (-(hours * 3600000000)), parseTs py r with
      | some cutoff, some ts => cutoff.instant ≤ ts.instant
      | _, _ => false
    | _, _ => true
  | _ => false

/-- The row passes every active filter. -/
def Filters.passes (py : Interpreter) (f : Filters) (row : Json) : Bool :=
  passesField (lit "agent") f.agent row && passesField (lit "decision") f.decision row &&
    passesSince py f row

/-- The filter on the time is off, or its cutoff is a datetime with an offset. -/
def Filters.Usable (f : Filters) : Prop :=
  ∀ hours now, f.sinceHours = some hours → f.now = some now →
    now.offset.isSome ∧ (now.add (-(hours * 3600000000))).isSome

/-- A row of the report: a dict with an agent and a tool. -/
def IsReportRow (row : Json) : Prop :=
  ∃ r agent tool, row = .obj r ∧ dictGet (lit "agent") r = some (.str agent) ∧
    dictGet (lit "tool") r = some (.str tool)

/-- A row of the report whose time, if it has one, has an offset. -/
structure TypedRow (py : Interpreter) (row : Json) : Prop where
  isReportRow : IsReportRow row
  aware : ∀ r ts, row = .obj r → parseTs py r = some ts → ts.offset.isSome

/-- What the report counts a row of the table under. -/
def rowKey : Json → Json × Str
  | .obj r =>
    match dictGet (lit "agent") r, dictGet (lit "tool") r with
    | some (.str agent), some (.str tool) => (.str agent, serverOf tool)
    | _, _ => (.null, [])
  | _ => (.null, [])

/-- `r["agent"] == agent and _server_of(r["tool"]) == server`. -/
def isRowOf (agent server : Str) : Json → Bool
  | .obj r =>
    match dictGet (lit "agent") r, dictGet (lit "tool") r with
    | some (.str a), some (.str tool) => a = agent && serverOf tool = server
    | _, _ => false
  | _ => false

/-! ### Tests that do not raise -/

/-- A dict has a value in a field. -/
theorem hasField_eq_true_iff {field value : Str} {r : List (Str × Json)} :
    hasField field value r = true ↔ dictGet field r = some (.str value) := by
  simp only [hasField]
  split
  · next s hs => simp [hs]
  · next hs => simpa using hs value

/-- Where the test does not raise, its rows are kept. Induction on the rows. -/
theorem keepRows_eq_filter {test : Json → Except ReportError Bool} {p : Json → Bool}
    {rows : List Json} (h : ∀ row ∈ rows, test row = .ok (p row)) :
    keepRows test rows = .ok (rows.filter p) := by
  induction rows with
  | nil => rfl
  | cons row rows ih =>
      have hrest := ih fun r hr => h r (List.mem_cons_of_mem row hr)
      rw [keepRows, h row List.mem_cons_self, List.filter_cons, hrest]
      rfl

theorem IsReportRow.isDict {row : Json} (h : IsReportRow row) : ∃ r, row = .obj r := by
  obtain ⟨r, -, -, hr, -⟩ := h
  exact ⟨r, hr⟩

section Tables

variable {py : Interpreter} {rows : List Json}

/-- A filter on a field does not raise on dicts. -/
theorem filterField_eq_filter (field : Str) (value : Option Str)
    (hrows : ∀ row ∈ rows, ∃ r, row = .obj r) :
    filterField field value rows = .ok (rows.filter (passesField field value)) := by
  have hall : (∀ r, passesField field value (.obj r) = true) →
      rows.filter (passesField field value) = rows := by
    intro h
    refine List.filter_eq_self.mpr fun row hrow => ?_
    obtain ⟨r, rfl⟩ := hrows row hrow
    exact h r
  rcases value with _ | _ | ⟨c, s⟩
  · rw [hall fun _ => rfl]
    rfl
  · rw [hall fun _ => rfl]
    rfl
  · refine keepRows_eq_filter fun row hrow => ?_
    obtain ⟨r, rfl⟩ := hrows row hrow
    rfl

/-- Times with an offset are compared. -/
theorem isSince_eq_ok {ts cutoff : DateTime} (hts : ts.offset.isSome)
    (hcutoff : cutoff.offset.isSome) :
    isSince ts cutoff = .ok (decide (cutoff.instant ≤ ts.instant)) := by
  rw [isSince, if_pos (by rw [hts, hcutoff])]

/-- The filter on the time does not raise where its cutoff is usable. -/
theorem filterSince_eq_filter {f : Filters} (hf : f.Usable)
    (hrows : ∀ row ∈ rows, TypedRow py row) :
    filterSince py f rows = .ok (rows.filter (passesSince py f)) := by
  have hoff : (f.sinceHours = none ∨ f.now = none) →
      filterSince py f rows = .ok (rows.filter (passesSince py f)) := by
    intro h
    have hall : ∀ row ∈ rows, passesSince py f row = true := by
      intro row hrow
      obtain ⟨r, -, -, rfl, -⟩ := (hrows row hrow).isReportRow
      rcases h with h | h <;> simp only [passesSince, h]
      cases f.sinceHours <;> rfl
    rw [List.filter_eq_self.mpr hall]
    rcases h with h | h <;> simp only [filterSince, h]
    cases f.sinceHours <;> rfl
  cases hhours : f.sinceHours with
  | none => exact hoff (.inl hhours)
  | some hours =>
      cases hnow : f.now with
      | none => exact hoff (.inr hnow)
      | some now =>
          obtain ⟨haware, hin⟩ := hf hours now hhours hnow
          obtain ⟨cutoff, hcutoff⟩ := Option.isSome_iff_exists.mp hin
          have hoffset : cutoff.offset.isSome := by
            rw [(DateTime.add_eq_some hcutoff).2]
            exact haware
          simp only [filterSince, hhours, hnow, hcutoff]
          refine keepRows_eq_filter fun row hrow => ?_
          obtain ⟨r, -, -, rfl, -⟩ := (hrows row hrow).isReportRow
          cases hts : parseTs py r with
          | none => simp only [isRecent, passesSince, hhours, hnow, hcutoff, hts]
          | some ts =>
              simp only [isRecent, passesSince, hhours, hnow, hcutoff, hts,
                isSince_eq_ok ((hrows _ hrow).aware r ts rfl hts) hoffset]

/-- **The table has exactly the rows that pass every active filter**, in their order. -/
theorem applyFilters_eq_filter {f : Filters} (hf : f.Usable)
    (hrows : ∀ row ∈ rows, TypedRow py row) :
    applyFilters py rows f = .ok (rows.filter (f.passes py)) := by
  have hobj := fun row hrow => (hrows row hrow).isReportRow.isDict
  have hagent := filterField_eq_filter (lit "agent") f.agent hobj
  have hobj' : ∀ row ∈ rows.filter (passesField (lit "agent") f.agent), ∃ r, row = .obj r :=
    fun row hrow => hobj row (List.mem_of_mem_filter hrow)
  have hdecision := filterField_eq_filter (lit "decision") f.decision hobj'
  have hrows' : ∀ row ∈ (rows.filter (passesField (lit "agent") f.agent)).filter
      (passesField (lit "decision") f.decision), TypedRow py row :=
    fun row hrow => hrows row (List.mem_of_mem_filter (List.mem_of_mem_filter hrow))
  have hsince := filterSince_eq_filter hf hrows'
  simp only [applyFilters, hagent, hdecision, hsince, bind, Except.bind]
  rw [List.filter_filter, List.filter_filter]
  congr 1
  refine List.filter_congr fun row _ => ?_
  simp only [Filters.passes]
  ac_rfl

/-! ### The report and the table -/

/-- The filters of the rows that the report counts. -/
def denialsSince (hours : ℤ) (now : DateTime) : Filters :=
  { decision := some (lit "denied"), sinceHours := some hours, now := some now }

/-- The report leaves out the times the table leaves out. -/
theorem isBefore_eq (ts cutoff : DateTime) : isBefore ts cutoff = (isSince ts cutoff).map (!·) := by
  by_cases h : ts.offset.isSome = cutoff.offset.isSome
  · simp only [isBefore, isSince, if_pos h, Except.map, ← not_le, decide_not]
  · simp only [isBefore, isSince, if_neg h, Except.map]

/-- What the report counts of one row is the row's key, where the row is a denial that the
table shows. -/
theorem denialKey_eq {r : List (Str × Json)} {agent tool : Str}
    (hagent : dictGet (lit "agent") r = some (.str agent))
    (htool : dictGet (lit "tool") r = some (.str tool)) (cutoff : DateTime) :
    denialKey py cutoff (.obj r) =
      if hasField (lit "decision") (lit "denied") r then
        (isRecent py cutoff (.obj r)).map fun keep => if keep then some (rowKey (.obj r)) else none
      else .ok none := by
  by_cases h : hasField (lit "decision") (lit "denied") r = true
  · rw [if_pos h]
    simp only [denialKey, hasField_eq_true_iff.mp h, if_true, isRecent]
    cases hts : parseTs py r with
    | none => rfl
    | some ts =>
        simp only [isBefore_eq]
        cases hsince : isSince ts cutoff with
        | error e => rfl
        | ok keep =>
            cases keep <;> simp [Except.map, rowKey, hagent, htool, serverOfValue, isHashable]
  · rw [if_neg h]
    simp only [denialKey]
    split
    · next s hs =>
        rw [if_neg]
        rintro rfl
        exact h (hasField_eq_true_iff.mpr hs)
    · rfl

/-- The loop of the report is the table's two filters, one after the other. Induction on the
rows. -/
theorem denialKeys_eq (cutoff : DateTime) (hrows : ∀ row ∈ rows, IsReportRow row) :
    denialKeys py cutoff rows =
      (keepRows (isRecent py cutoff)
        (rows.filter (passesField (lit "decision") (some (lit "denied"))))).map
          (List.map rowKey) := by
  induction rows with
  | nil => rfl
  | cons row rows ih =>
      obtain ⟨r, agent, tool, rfl, hagent, htool⟩ := hrows row List.mem_cons_self
      have hrest := ih fun row hrow => hrows row (List.mem_cons_of_mem _ hrow)
      have hpasses : passesField (lit "decision") (some (lit "denied")) (.obj r) =
          hasField (lit "decision") (lit "denied") r := rfl
      rw [denialKeys, denialKey_eq hagent htool, List.filter_cons, hpasses, hrest]
      by_cases hdenied : hasField (lit "decision") (lit "denied") r = true
      · rw [if_pos hdenied, if_pos hdenied, keepRows]
        cases isRecent py cutoff (.obj r) with
        | error e => rfl
        | ok keep =>
            cases keepRows (isRecent py cutoff) (rows.filter
              (passesField (lit "decision") (some (lit "denied")))) with
            | error e => cases keep <;> rfl
            | ok out => cases keep <;> rfl
      · rw [if_neg hdenied, if_neg hdenied]
        cases keepRows (isRecent py cutoff) (rows.filter
          (passesField (lit "decision") (some (lit "denied")))) <;> rfl

/-- **The report counts the rows of the table.** The two take the rows in different orders of
their tests, raise alike and count alike. -/
theorem summarizeDenials_eq (now : DateTime) (hours : ℤ) (hrows : ∀ row ∈ rows, IsReportRow row) :
    summarizeDenials py rows now hours =
      (applyFilters py rows (denialsSince hours now)).map (List.map rowKey) := by
  have hobj := fun row hrow => (hrows row hrow).isDict
  have hdecision := filterField_eq_filter (lit "decision") (some (lit "denied")) hobj
  have hagent : filterField (lit "agent") none rows = .ok rows := rfl
  simp only [summarizeDenials, applyFilters, denialsSince, hagent, hdecision, bind, Except.bind,
    filterSince]
  cases now.add (-(hours * 3600000000)) with
  | none => rfl
  | some cutoff => exact denialKeys_eq cutoff hrows

/-- Counts of the report are counts of the table. -/
theorem countOf_map_rowKey (hrows : ∀ row ∈ rows, IsReportRow row) (agent server : Str) :
    countOf (rows.map rowKey) agent server = rows.countP (isRowOf agent server) := by
  rw [countOf, List.countP_map]
  refine List.countP_congr fun row hrow => ?_
  obtain ⟨r, a, tool, rfl, hagent, htool⟩ := hrows row hrow
  simp [rowKey, isKey, isRowOf, hagent, htool]

/-- Filters applied in turn keep what passes both. -/
theorem applyFilters_bind {f g : Filters} (hf : f.Usable) (hg : g.Usable)
    (hrows : ∀ row ∈ rows, TypedRow py row) :
    (applyFilters py rows f).bind (fun out => applyFilters py out g) =
      .ok (rows.filter fun row => f.passes py row && g.passes py row) := by
  have hout : ∀ row ∈ rows.filter (f.passes py), TypedRow py row := fun row hrow =>
    hrows row (List.mem_of_mem_filter hrow)
  rw [applyFilters_eq_filter hf hrows, Except.bind, applyFilters_eq_filter hg hout,
    List.filter_filter]
  congr 1
  exact List.filter_congr fun row _ => Bool.and_comm _ _

/-- A filter is what its three parts are together. -/
theorem passes_eq (f : Filters) {row : Json} (hrow : IsReportRow row) :
    f.passes py row =
      (Filters.passes py { agent := f.agent } row &&
        (Filters.passes py { decision := f.decision } row &&
          Filters.passes py { sinceHours := f.sinceHours, now := f.now } row)) := by
  obtain ⟨r, -, -, rfl, -⟩ := hrow
  simp only [Filters.passes, passesField, passesSince, Bool.true_and, Bool.and_true]
  ac_rfl

end Tables

/-- **Report and table agree.** The report is the count of the rows in the table of its
denials, and raises where that table does; where the cutoff is a datetime with an offset
neither raises, the counts are those of the rows and the total is the length of the table. The
table always has the rows that pass every active filter, in their order: filters commute,
are what their parts are in turn, and filter once. -/
theorem report_agrees_with_table (py : Interpreter) (rows : List Json)
    (hrows : ∀ row ∈ rows, TypedRow py row) :
    (∀ (now : DateTime) (hours : ℤ), summarizeDenials py rows now hours =
      (applyFilters py rows (denialsSince hours now)).map (List.map rowKey)) ∧
    (∀ (now : DateTime) (hours : ℤ), now.offset.isSome →
      (now.add (-(hours * 3600000000))).isSome →
      ∃ counter table, summarizeDenials py rows now hours = .ok counter ∧
        applyFilters py rows (denialsSince hours now) = .ok table ∧
        (∀ agent server, countOf counter agent server = table.countP (isRowOf agent server)) ∧
        counter.length = table.length) ∧
    (∀ f : Filters, f.Usable → applyFilters py rows f = .ok (rows.filter (f.passes py))) ∧
    (∀ f g : Filters, f.Usable → g.Usable →
      (applyFilters py rows f).bind (fun out => applyFilters py out g) =
        .ok (rows.filter fun row => f.passes py row && g.passes py row) ∧
      (applyFilters py rows f).bind (fun out => applyFilters py out g) =
        (applyFilters py rows g).bind (fun out => applyFilters py out f) ∧
      (applyFilters py rows f).bind (fun out => applyFilters py out f) =
        applyFilters py rows f) ∧
    ∀ f : Filters, f.Usable → applyFilters py rows f =
      ((applyFilters py rows { agent := f.agent }).bind fun out =>
        applyFilters py out { decision := f.decision }).bind fun out =>
          applyFilters py out { sinceHours := f.sinceHours, now := f.now } := by
  have hreport := fun row hrow => (hrows row hrow).isReportRow
  refine ⟨fun now hours => summarizeDenials_eq now hours hreport, fun now hours haware hin => ?_,
    fun f hf => applyFilters_eq_filter hf hrows, fun f g hf hg => ⟨applyFilters_bind hf hg hrows,
      ?_, ?_⟩, fun f hf => ?_⟩
  · have husable : (denialsSince hours now).Usable := by
      intro hours' now' hhours hnow
      obtain rfl := Option.some.inj hhours
      obtain rfl := Option.some.inj hnow
      exact ⟨haware, hin⟩
    refine ⟨_, _, by rw [summarizeDenials_eq now hours hreport,
      applyFilters_eq_filter husable hrows]; rfl, applyFilters_eq_filter husable hrows, ?_,
      List.length_map ..⟩
    exact countOf_map_rowKey fun row hrow => hreport row (List.mem_of_mem_filter hrow)
  · rw [applyFilters_bind hf hg hrows, applyFilters_bind hg hf hrows]
    congr 1
    exact List.filter_congr fun row _ => Bool.and_comm _ _
  · rw [applyFilters_bind hf hf hrows, applyFilters_eq_filter hf hrows]
    simp only [Bool.and_self]
  · have hagent : Filters.Usable { agent := f.agent } := fun _ _ h => by cases h
    have hdecision : Filters.Usable { decision := f.decision } := fun _ _ h => by cases h
    have hsince : Filters.Usable { sinceHours := f.sinceHours, now := f.now } := hf
    rw [applyFilters_bind hagent hdecision hrows, Except.bind,
      applyFilters_eq_filter hsince fun row hrow => hrows row (List.mem_of_mem_filter hrow),
      applyFilters_eq_filter hf hrows, List.filter_filter]
    congr 1
    refine List.filter_congr fun row hrow => ?_
    rw [passes_eq f (hreport row hrow)]
    ac_rfl

/-- A denial at midnight, one without a time, and a call that was allowed. -/
def sampleDicts : List (List (Str × Json)) :=
  [[(lit "ts", .str (lit "2026-01-02T00:00:00+00:00")), (lit "agent", .str (lit "a")),
      (lit "tool", .str (lit "ops__query_logs")), (lit "decision", .str (lit "denied"))],
    [(lit "agent", .str (lit "a")), (lit "tool", .str (lit "ops__query_logs")),
      (lit "decision", .str (lit "denied"))],
    [(lit "ts", .str (lit "2026-01-02T01:00:00+00:00")), (lit "agent", .str (lit "a")),
      (lit "tool", .str (lit "ops__query_logs")), (lit "decision", .str (lit "allowed"))]]

/-- A moment past noon of that day. -/
def sampleNoon : DateTime :=
  { year := 2026, month := 1, day := 2, hour := 12, minute := 1, second := 2, microsecond := 3
    offset := some 0, year_range := by decide, month_range := by decide
    day_range := by decide, hour_range := by decide, minute_range := by decide
    second_range := by decide, microsecond_range := by decide
    offset_range := by simp [dayMicros] }

/-- Of the three rows, the report counts the first. -/
theorem report_agrees_with_table_sample :
    let py : Interpreter := ⟨100, fun _ => true⟩
    let rows := sampleDicts.map Json.obj
    ∃ counter table, summarizeDenials py rows sampleNoon 24 = .ok counter ∧
      applyFilters py rows (denialsSince 24 sampleNoon) = .ok table ∧
      (∀ agent server, countOf counter agent server = table.countP (isRowOf agent server)) ∧
      counter.length = table.length ∧ table.length = 1 := by
  intro py rows
  have hreport : ∀ row ∈ rows, IsReportRow row := by
    intro row hrow
    simp only [rows, sampleDicts, List.map_cons, List.map_nil, List.mem_cons, List.not_mem_nil,
      or_false] at hrow
    rcases hrow with rfl | rfl | rfl <;>
      exact ⟨_, lit "a", lit "ops__query_logs", rfl, rfl, rfl⟩
  have hall : sampleDicts.all (fun r => (parseTs py r).all fun ts => ts.offset.isSome) = true := by
    decide +kernel
  have haware : ∀ row ∈ rows, ∀ r ts, row = .obj r → parseTs py r = some ts →
      ts.offset.isSome := by
    intro row hrow r ts hr hts
    obtain ⟨r', hmem, rfl⟩ := List.mem_map.mp hrow
    obtain rfl := Json.obj.inj hr
    have hdict := List.all_eq_true.mp hall r' hmem
    rwa [hts] at hdict
  obtain ⟨counter, table, hcounter, htable, hcount, hlength⟩ :=
    (report_agrees_with_table py rows fun row hrow => ⟨hreport row hrow, haware row hrow⟩).2.1
      sampleNoon 24 rfl (by decide +kernel)
  have hone : (applyFilters py rows (denialsSince 24 sampleNoon)).toOption.map List.length =
      some 1 := by decide +kernel
  rw [htable] at hone
  exact ⟨counter, table, hcounter, htable, hcount, hlength, Option.some.inj hone⟩

end AgentOpsGateway
