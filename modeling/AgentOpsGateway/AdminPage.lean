import AgentOpsGateway.DamagedLines
import AgentOpsGateway.Numerals

/-!
# The Admin Page

`admin` answers every request itself: with the page, if the cookie or the query has the
admin token, and with `forbidden` otherwise. The texts of a request reach functions that are
made for fewer texts. `hmac.compare_digest` refuses what is not ASCII, before anyone is
known; behind it `int` refuses some of the digits that `str.isdigit` knows, and a time may
have no place so many hours before now.

The template shows strings as they are, and a page with half of a surrogate pair has no
encoding; a request has none, but a record may.

## Main results

* `admin_rows_eq_ok_iff`: **what the handler returns** for a file of records.
* `answered_iff`: **the handler answers as it should** exactly where the texts are compared,
  the hours are usable or no digits, and all that is shown has an encoding.
-/

namespace AgentOpsGateway

open Python

/-! ### The handler -/

/-- The string can be encoded. -/
def encodes (s : Str) : Bool := s.all fun c => !isSurrogate c

/-- A text of a request, which is decoded without surrogates. -/
structure RequestText where
  text : Str
  isUnicode : encodes text = true

/-- What `admin` reads of a request: the cookie `admin_session` and the query. -/
structure AdminRequest where
  cookie : Option RequestText
  token : Option RequestText
  agent : Option RequestText
  decision : Option RequestText
  since : Option RequestText

/-- What `admin` raises. -/
inductive PageError
  | typeError
  | valueError
  | unicodeEncodeError
  | admin (e : AdminError)

/-- What the template is rendered with. -/
structure AdminPage where
  summary : List (Json × Str)
  totalDenials : ℕ
  rows : List Json
  agent : Str
  decision : Str
  since : Str

/-- A response, and the cookie that is set with a page. -/
inductive AdminResponse
  | forbidden
  | page (content : AdminPage) (setCookie : Option Str)

def AdminResponse.status : AdminResponse → ℕ
  | .forbidden => 403
  | .page _ _ => 200

/-- `text.isascii()`. -/
def isascii (s : Str) : Bool := s.all fun c => c.val < 0x80

/-- `hmac.compare_digest(a, b)` of two strings. -/
def compareDigest (a b : Str) : Except PageError Bool :=
  if isascii a && isascii b then .ok (a = b) else .error .typeError

/-- A given value is the admin token, if there is one and neither is empty. -/
def isToken (adminToken : Option Str) : Option RequestText → Except PageError Bool
  | none => .ok false
  | some given =>
    match adminToken with
    | none | some [] => .ok false
    | some (c :: s) =>
      if given.text = [] then .ok false else compareDigest given.text (c :: s)

/-- `_cookie_ok(request)`. -/
def cookieOk (adminToken : Option Str) (req : AdminRequest) : Except PageError Bool :=
  isToken adminToken req.cookie

/-- `_token_ok(token)`. -/
def tokenOk (adminToken : Option Str) (token : Option RequestText) : Except PageError Bool :=
  isToken adminToken token

/-- `value or ""`. -/
def textOf (value : Option RequestText) : Str := (value.map RequestText.text).getD []

/-- `value or None`. -/
def orNone (value : Option RequestText) : Option Str :=
  if textOf value = [] then none else some (textOf value)

/-- `int(since_raw) if since_raw and since_raw.isdigit() else None`. -/
def parseSince (since : Option RequestText) : Except PageError (Option ℤ) :=
  if textOf since ≠ [] ∧ isdigit (textOf since) then
    match intOfDigits (textOf since) with
    | none => .error .valueError
    | some hours => .ok (some hours)
  else .ok none

/-- What the template shows of a value can be encoded. What is no string is shown by its `repr`,
which escapes surrogates. -/
def valueEncodes : Option Json → Bool
  | some (.str s) => encodes s
  | _ => true

/-- What the summary shows of an item can be encoded. -/
def itemEncodes (item : Json × Str) : Bool := valueEncodes (some item.1) && encodes item.2

/-- What the table shows of a row. -/
def shownFields : List Str :=
  [lit "ts", lit "agent", lit "tool", lit "decision", lit "args_summary", lit "trace_id"]

/-- What the table shows of a row can be encoded. -/
def rowEncodes : Json → Bool
  | .obj r => shownFields.all fun field => valueEncodes (dictGet field r)
  | _ => true

/-- The rendered page can be encoded. -/
def AdminPage.encodes (p : AdminPage) : Bool :=
  p.summary.all itemEncodes && p.rows.all rowEncodes && AgentOpsGateway.encodes p.agent &&
    AgentOpsGateway.encodes p.decision && AgentOpsGateway.encodes p.since

/-- The filters of a request, with the hours taken from `since`. -/
def AdminRequest.filters (req : AdminRequest) (hours : Option ℤ) : Filters :=
  { agent := orNone req.agent, decision := orNone req.decision, sinceHours := hours }

/-- The part of `admin` behind the access control. -/
def serve (py : Interpreter) (file : Option Bytes) (now : DateTime) (req : AdminRequest)
    (setCookie : Option Str) : Except PageError AdminResponse := do
  let rows ← (readAuditFile py file).mapError .admin
  let hours ← parseSince req.since
  let view ← (viewOf py rows now (req.filters hours)).mapError fun e => .admin (.report e)
  let page : AdminPage :=
    { summary := view.summary, totalDenials := view.summary.length, rows := view.rows.reverse
      agent := textOf req.agent, decision := textOf req.decision, since := textOf req.since }
  if page.encodes then .ok (.page page setCookie) else .error .unicodeEncodeError

/-- `admin(request)`. -/
def admin (py : Interpreter) (adminToken : Option Str) (file : Option Bytes) (now : DateTime)
    (req : AdminRequest) : Except PageError AdminResponse := do
  let byCookie ← cookieOk adminToken req
  if byCookie then serve py file now req none
  else
    let byToken ← tokenOk adminToken req.token
    if byToken then serve py file now req adminToken else .ok .forbidden

/-! ### What the page promises -/

/-- A record of the audit file, written at a time in UTC. -/
structure AuditRecord where
  call : Recording
  time : DateTime
  utc : time.offset = some 0
  stamped : call.ts = time.isoformat

/-- The row of a record. -/
def AuditRecord.row (record : AuditRecord) : Json := record.call.line.row

/-- The file of the records. -/
def auditBytes (records : List AuditRecord) : Bytes :=
  records.flatMap fun record => asciiBytes record.call.line.text ++ [0x0A]

/-- The value is the admin token. -/
def HasToken (adminToken : Option Str) (given : Option RequestText) : Prop :=
  ∃ token, adminToken = some token ∧ token ≠ [] ∧ given.map RequestText.text = some token

/-- The cookie or the query has the admin token. -/
def Authorised (adminToken : Option Str) (req : AdminRequest) : Prop :=
  HasToken adminToken req.cookie ∨ HasToken adminToken req.token

/-- The number of hours that `since` denotes, if there is a time so long before now. -/
def usableHours (now : DateTime) (since : Option RequestText) : Option ℤ :=
  if isdigit (textOf since) then
    (intOfDigits (textOf since)).bind fun hours =>
      if (now.add (-(hours * 3600000000))).isSome then some (hours : ℤ) else none
  else none

/-- A response but for `since` in its form. -/
def AdminResponse.withoutSince : AdminResponse → AdminResponse
  | .forbidden => .forbidden
  | .page content setCookie => .page { content with since := [] } setCookie

/-- **What the handler promises** for a request: a response, which is the page for those who
have the token and `forbidden` for all others, and the same as without `since` where that
denotes no usable number of hours. -/
def Answered (py : Interpreter) (adminToken : Option Str) (file : Option Bytes) (now : DateTime)
    (req : AdminRequest) : Prop :=
  ∃ resp, admin py adminToken file now req = .ok resp ∧
    (resp.status = 200 ↔ Authorised adminToken req) ∧
    (resp.status = 403 ↔ ¬Authorised adminToken req) ∧
    (usableHours now req.since = none →
      ∃ resp', admin py adminToken file now { req with since := none } = .ok resp' ∧
        resp.withoutSince = resp'.withoutSince)

/-- The value is compared with the admin token, if it is at all. -/
def Comparable (adminToken : Option Str) (given : Option RequestText) : Prop :=
  ∀ token g, adminToken = some token → token ≠ [] → given = some g → g.text ≠ [] →
    isascii g.text = true ∧ isascii token = true

/-- **A page that can be served**: the day before now is one of the calendar, `since` is no
text of digits or a usable number of hours, and all that is shown of the rows can be encoded. -/
structure Servable (py : Interpreter) (rows : List Json) (now : DateTime) (req : AdminRequest) :
    Prop where
  day : (now.add (-(24 * 3600000000))).isSome
  hours : isdigit (textOf req.since) = true → (usableHours now req.since).isSome
  summary : ∀ row ∈ rows, (denialsSince 24 now).passes py row = true →
    itemEncodes (rowKey row) = true
  table : ∀ row ∈ rows,
    Filters.passes py { req.filters (usableHours now req.since) with now := some now } row = true →
      rowEncodes row = true

/-- **A request that can be answered**: the values up to the admin token can be compared with it,
and if one of them is the token, the page can be served. -/
structure Answerable (py : Interpreter) (adminToken : Option Str) (rows : List Json)
    (now : DateTime) (req : AdminRequest) : Prop where
  cookie : Comparable adminToken req.cookie
  token : ¬HasToken adminToken req.cookie → Comparable adminToken req.token
  page : Authorised adminToken req → Servable py rows now req

/-! ### Access control -/

section Access

variable {adminToken : Option Str} {given : Option RequestText}

/-- A value that is not looked at. -/
theorem ok_false_iff (hcomparable : Comparable adminToken given)
    (hnot : ¬HasToken adminToken given) (b : Bool) :
    (Except.ok false : Except PageError Bool) = .ok b ↔
      Comparable adminToken given ∧ (b = true ↔ HasToken adminToken given) := by
  cases b <;> simp [hcomparable, hnot]

/-- **Who has the token** is known where the texts can be compared. -/
theorem isToken_eq_ok_iff (b : Bool) : isToken adminToken given = .ok b ↔
    Comparable adminToken given ∧ (b = true ↔ HasToken adminToken given) := by
  rcases given with _ | g
  · exact ok_false_iff (fun _ _ _ _ h => by cases h) (by simp [HasToken]) b
  rcases adminToken with _ | _ | ⟨c, s⟩
  · exact ok_false_iff (fun _ _ h => by cases h) (by simp [HasToken]) b
  · refine ok_false_iff (fun token _ h hne => ?_) (by simp [HasToken]) b
    exact (hne (Option.some.inj h).symm).elim
  · have hhas : HasToken (some (c :: s)) (some g) ↔ g.text = c :: s := by simp [HasToken]
    rw [isToken]
    by_cases hempty : g.text = []
    · rw [if_pos hempty]
      refine ok_false_iff (fun _ g' _ _ h hne => ?_) (by simp [hhas, hempty]) b
      obtain rfl := Option.some.inj h
      exact (hne hempty).elim
    · have hcomparable : Comparable (some (c :: s)) (some g) ↔
          isascii g.text = true ∧ isascii (c :: s) = true := by
        simp [Comparable, hempty]
      rw [if_neg hempty, hcomparable, hhas, compareDigest]
      by_cases hascii : (isascii g.text && isascii (c :: s)) = true
      · rw [if_pos hascii, ← Bool.and_eq_true, hascii, Except.ok.injEq]
        cases b <;> simp
      · rw [if_neg hascii, ← Bool.and_eq_true]
        simp [hascii]

/-- Texts that cannot be compared raise. -/
theorem not_comparable {e : PageError} (h : isToken adminToken given = .error e) :
    ¬Comparable adminToken given := by
  classical
  intro hcomparable
  have hok := (isToken_eq_ok_iff (decide (HasToken adminToken given))).mpr
    ⟨hcomparable, decide_eq_true_iff⟩
  rw [h] at hok
  cases hok

/-- **What the handler does**: a request with the token is served, and one without it is not,
where the values can be compared. -/
theorem admin_eq_ok_iff {py : Interpreter} {file : Option Bytes} {now : DateTime}
    {req : AdminRequest} {resp : AdminResponse} :
    admin py adminToken file now req = .ok resp ↔ Comparable adminToken req.cookie ∧
      (¬HasToken adminToken req.cookie → Comparable adminToken req.token) ∧
      (HasToken adminToken req.cookie → serve py file now req none = .ok resp) ∧
      (¬HasToken adminToken req.cookie → HasToken adminToken req.token →
        serve py file now req adminToken = .ok resp) ∧
      (¬Authorised adminToken req → resp = .forbidden) := by
  simp only [admin, cookieOk, tokenOk, bind, Except.bind, Authorised]
  cases hcookie : isToken adminToken req.cookie with
  | error e => simp [not_comparable hcookie]
  | ok byCookie =>
      obtain ⟨hcomparable, hhas⟩ := (isToken_eq_ok_iff byCookie).mp hcookie
      cases byCookie with
      | true => simp [hcomparable, hhas.mp rfl]
      | false =>
          have hnot : ¬HasToken adminToken req.cookie := by simpa using hhas
          cases htoken : isToken adminToken req.token with
          | error e => simp [hcomparable, hnot, not_comparable htoken]
          | ok byToken =>
              obtain ⟨hcomparable', hhas'⟩ := (isToken_eq_ok_iff byToken).mp htoken
              cases byToken with
              | true => simp [hcomparable, hcomparable', hnot, hhas'.mp rfl]
              | false =>
                  have hnot' : ¬HasToken adminToken req.token := by simpa using hhas'
                  simp [hcomparable, hcomparable', hnot, hnot', eq_comm]

end Access

/-! ### Serving the page -/

section Serving

variable {py : Interpreter} {rows : List Json} {now : DateTime} {req : AdminRequest}

/-- What `since` is read as: no filter, or a number of hours. -/
theorem parseSince_eq_ok_iff {since : Option RequestText} {hours : Option ℤ} :
    parseSince since = .ok hours ↔
      (isdigit (textOf since) = false ∧ hours = none) ∨
        (isdigit (textOf since) = true ∧
          ∃ n, intOfDigits (textOf since) = some n ∧ hours = some (n : ℤ)) := by
  rw [parseSince]
  cases h : isdigit (textOf since) with
  | false => simp [eq_comm]
  | true =>
      have hne : textOf since ≠ [] := by
        rintro hnil
        rw [hnil] at h
        cases h
      rw [if_pos ⟨hne, rfl⟩]
      cases intOfDigits (textOf since) <;> simp [eq_comm]

/-- A filter on the time raises where its cutoff is no datetime. -/
theorem applyFilters_of_none (hrows : ∀ row ∈ rows, TypedRow py row) {f : Filters} {hours : ℤ}
    (hhours : f.sinceHours = some hours) (hnow : f.now = some now)
    (hnone : now.add (-(hours * 3600000000)) = none) :
    applyFilters py rows f = .error .overflowError := by
  have hobj := fun row hrow => (hrows row hrow).isReportRow.isDict
  have hagent := filterField_eq_filter (lit "agent") f.agent hobj
  have hdecision := filterField_eq_filter (lit "decision") f.decision
    fun row (hrow : row ∈ rows.filter (passesField (lit "agent") f.agent)) =>
      hobj row (List.mem_of_mem_filter hrow)
  simp only [applyFilters, hagent, hdecision, bind, Except.bind, filterSince, hhours, hnow, hnone]

/-- **What is shown of records**: nothing where the day or the hours before now are out of
range, and otherwise the keys of the denials and the rows that pass the filters. -/
theorem viewOf_typed_eq_ok_iff (haware : now.offset.isSome) (hrows : ∀ row ∈ rows, TypedRow py row)
    {f : Filters} {view : AdminView} : viewOf py rows now f = .ok view ↔
      (now.add (-(24 * 3600000000))).isSome ∧
      (∀ hours ∈ f.sinceHours, (now.add (-(hours * 3600000000))).isSome) ∧
      view =
        { summary := (rows.filter ((denialsSince 24 now).passes py)).map rowKey
          rows := rows.filter (Filters.passes py { f with now := some now }) } := by
  cases hcutoff : now.add (-(24 * 3600000000)) with
  | none => simp [viewOf_of_none hcutoff]
  | some cutoff =>
      by_cases hsince : ∀ hours ∈ f.sinceHours, (now.add (-(hours * 3600000000))).isSome
      · rw [viewOf_records hsince haware hcutoff hrows]
        exact ⟨fun h => ⟨rfl, hsince, (Except.ok.inj h).symm⟩,
          fun h => congrArg Except.ok h.2.2.symm⟩
      · have hraises : ∀ view, viewOf py rows now f ≠ .ok view := by
          intro view hview
          obtain ⟨-, htable, -⟩ := (viewOf_eq_ok_iff hcutoff).mp hview
          simp only [not_forall, Option.not_isSome_iff_eq_none] at hsince
          obtain ⟨hours, hhours, hnone⟩ := hsince
          have hfar : applyFilters py rows { f with now := some now } = .error .overflowError :=
            applyFilters_of_none hrows hhours rfl hnone
          rw [hfar] at htable
          cases htable
        exact ⟨fun h => (hraises view h).elim, fun h => (hsince h.2.1).elim⟩

/-- The page of the rows. -/
def servedPage (py : Interpreter) (rows : List Json) (now : DateTime) (req : AdminRequest) :
    AdminPage :=
  let denials := rows.filter ((denialsSince 24 now).passes py)
  let filters := { req.filters (usableHours now req.since) with now := some now }
  { summary := denials.map rowKey, totalDenials := denials.length
    rows := (rows.filter (filters.passes py)).reverse
    agent := textOf req.agent, decision := textOf req.decision, since := textOf req.since }

/-- The texts of a request can be encoded. -/
theorem encodes_textOf (value : Option RequestText) : encodes (textOf value) = true := by
  cases value with
  | none => rfl
  | some value => exact value.isUnicode

/-- The page can be encoded where all that it shows of the rows can be. -/
theorem encodes_servedPage : (servedPage py rows now req).encodes = true ↔
    (∀ row ∈ rows, (denialsSince 24 now).passes py row = true →
      itemEncodes (rowKey row) = true) ∧
    ∀ row ∈ rows,
      Filters.passes py { req.filters (usableHours now req.since) with now := some now } row =
        true → rowEncodes row = true := by
  simp only [AdminPage.encodes, servedPage, encodes_textOf, Bool.and_true, Bool.and_eq_true,
    List.all_map, List.all_eq_true, List.mem_filter, List.mem_reverse, and_imp,
    Function.comp_apply]

/-- **The hours of a request** are read and subtracted where they are usable or no digits. -/
theorem hours_usable_iff {since : Option RequestText} {hours : Option ℤ} :
    (parseSince since = .ok hours ∧ ∀ n ∈ hours, (now.add (-(n * 3600000000))).isSome) ↔
      (isdigit (textOf since) = true → (usableHours now since).isSome) ∧
        hours = usableHours now since := by
  rw [parseSince_eq_ok_iff, usableHours]
  cases isdigit (textOf since) with
  | false =>
      simp only [true_and, Bool.false_eq_true, false_and, or_false, if_false, false_implies]
      constructor
      · rintro ⟨rfl, -⟩
        rfl
      · rintro rfl
        simp
  | true =>
      cases intOfDigits (textOf since) with
      | none => simp
      | some n =>
          simp only [Bool.true_eq_false, false_and, true_and, Option.some.injEq, exists_eq_left',
            false_or, if_true, Option.bind_some, true_implies]
          by_cases hn : (now.add (-((n : ℤ) * 3600000000))).isSome
          · rw [if_pos hn]
            constructor
            · rintro ⟨rfl, -⟩
              exact ⟨rfl, rfl⟩
            · rintro ⟨-, rfl⟩
              exact ⟨rfl, fun m hm => by rwa [← Option.some.inj hm]⟩
          · rw [if_neg hn]
            constructor
            · rintro ⟨rfl, husable⟩
              exact (hn (husable n rfl)).elim
            · rintro ⟨hsome, -⟩
              cases hsome

/-- **What becomes of a request that is let in**: a page of the rows, where it can be served. -/
theorem serve_eq_ok_iff (haware : now.offset.isSome) (hrows : ∀ row ∈ rows, TypedRow py row)
    {file : Option Bytes} (hfile : readAuditFile py file = .ok rows) {setCookie : Option Str}
    {resp : AdminResponse} : serve py file now req setCookie = .ok resp ↔
      Servable py rows now req ∧ resp = .page (servedPage py rows now req) setCookie := by
  have hview := @viewOf_typed_eq_ok_iff py rows now haware hrows
  have hlength : ((rows.filter ((denialsSince 24 now).passes py)).map rowKey).length =
      (rows.filter ((denialsSince 24 now).passes py)).length := List.length_map ..
  constructor
  · intro h
    simp only [serve, hfile, Except.mapError, bind, Except.bind] at h
    cases hhours : parseSince req.since with
    | error e => simp [hhours] at h
    | ok hours =>
        cases hshown : viewOf py rows now (req.filters hours) with
        | error e => simp [hhours, hshown] at h
        | ok view =>
            obtain ⟨hday, hin, rfl⟩ := hview.mp hshown
            obtain ⟨husable, rfl⟩ := hours_usable_iff.mp ⟨hhours, hin⟩
            simp only [hhours, hshown, hlength] at h
            split at h
            · next hencodes =>
                obtain ⟨hsummary, htable⟩ := encodes_servedPage.mp hencodes
                exact ⟨⟨hday, husable, hsummary, htable⟩, (Except.ok.inj h).symm⟩
            · cases h
  · rintro ⟨hservable, rfl⟩
    obtain ⟨hhours, hin⟩ := hours_usable_iff.mpr ⟨hservable.hours, rfl⟩
    have hshown := (@hview (req.filters (usableHours now req.since)) _).mpr
      ⟨hservable.day, hin, rfl⟩
    simp only [serve, hfile, Except.mapError, bind, Except.bind, hhours, hshown, hlength]
    exact if_pos (encodes_servedPage.mpr ⟨hservable.summary, hservable.table⟩)

end Serving

/-! ### Every request -/

section Requests

variable {py : Interpreter} {adminToken : Option Str} {now : DateTime} {req : AdminRequest}
  {rows : List Json} {file : Option Bytes}

/-- A record is a line of the file. -/
theorem AuditRecord.isRecordLine (record : AuditRecord) :
    IsRecordLine (asciiBytes record.call.line.text) :=
  ⟨record.call, record.time, record.utc, record.stamped, rfl⟩

theorem typedRow_row (py : Interpreter) (record : AuditRecord) : TypedRow py record.row :=
  typedRow_record py record.call record.utc record.stamped

/-- **The file of records is read as their rows.** -/
theorem readAuditFile_auditBytes (py : Interpreter) (file : Option (List AuditRecord)) :
    readAuditFile py (file.map auditBytes) = .ok ((file.getD []).map AuditRecord.row) := by
  cases file with
  | none => rfl
  | some records =>
      have hlines : linesIn (some (auditBytes records)) =
          (records.map fun record => asciiBytes record.call.line.text) ++ [[]] := by
        have hbytes := byteLines_flatMap
          (records.map fun record => asciiBytes record.call.line.text) fun line hline => by
            obtain ⟨record, -, rfl⟩ := List.mem_map.mp hline
            exact newline_not_mem_record record.isRecordLine
        rw [List.flatMap_map] at hbytes
        exact hbytes
      have hrows : rowsOfLines py (linesIn (some (auditBytes records))) =
          some (records.map AuditRecord.row) := by
        rw [hlines]
        clear hlines
        induction records with
        | nil => rfl
        | cons record records ih =>
            exact rowsOfLines_cons_eq_some_iff.mpr
              ⟨[record.row], _, rowsOfLine_text py record.call.line, ih, rfl⟩
      rw [← rowsOf_eq] at hrows
      rw [Option.map_some, Option.getD_some]
      cases h : readAuditFile py (some (auditBytes records)) with
      | error e => simp [h, Except.toOption] at hrows
      | ok rows => simpa [h, Except.toOption] using hrows

/-- **What the handler returns**: for who has the token, the page of the rows. -/
theorem admin_rows_eq_ok_iff (haware : now.offset.isSome) (hrows : ∀ row ∈ rows, TypedRow py row)
    (hfile : readAuditFile py file = .ok rows) {resp : AdminResponse} :
    admin py adminToken file now req = .ok resp ↔ Answerable py adminToken rows now req ∧
      (HasToken adminToken req.cookie → resp = .page (servedPage py rows now req) none) ∧
      (¬HasToken adminToken req.cookie → HasToken adminToken req.token →
        resp = .page (servedPage py rows now req) adminToken) ∧
      (¬Authorised adminToken req → resp = .forbidden) := by
  rw [admin_eq_ok_iff]
  simp only [serve_eq_ok_iff haware hrows hfile]
  constructor
  · rintro ⟨hcookie, htoken, hbyCookie, hbyToken, hforbidden⟩
    refine ⟨⟨hcookie, htoken, fun hauthorised => ?_⟩, fun h => (hbyCookie h).2,
      fun h h' => (hbyToken h h').2, hforbidden⟩
    by_cases h : HasToken adminToken req.cookie
    · exact (hbyCookie h).1
    · exact (hbyToken h (hauthorised.resolve_left h)).1
  · rintro ⟨hanswerable, hbyCookie, hbyToken, hforbidden⟩
    exact ⟨hanswerable.cookie, hanswerable.token,
      fun h => ⟨hanswerable.page (.inl h), hbyCookie h⟩,
      fun h h' => ⟨hanswerable.page (.inr h'), hbyToken h h'⟩, hforbidden⟩

/-- A request that can be answered is answered. -/
theorem exists_response (haware : now.offset.isSome) (hrows : ∀ row ∈ rows, TypedRow py row)
    (hfile : readAuditFile py file = .ok rows) (h : Answerable py adminToken rows now req) :
    ∃ resp, admin py adminToken file now req = .ok resp := by
  simp only [admin_rows_eq_ok_iff haware hrows hfile, h, true_and, Authorised]
  by_cases hcookie : HasToken adminToken req.cookie
  · exact ⟨.page (servedPage py rows now req) none, by simp [hcookie]⟩
  · by_cases htoken : HasToken adminToken req.token
    · exact ⟨.page (servedPage py rows now req) adminToken, by simp [hcookie, htoken]⟩
    · exact ⟨.forbidden, by simp [hcookie, htoken]⟩

/-- A response is the page for those who have the token. -/
theorem status_iff (haware : now.offset.isSome) (hrows : ∀ row ∈ rows, TypedRow py row)
    (hfile : readAuditFile py file = .ok rows) {resp : AdminResponse}
    (hresp : admin py adminToken file now req = .ok resp) :
    (resp.status = 200 ↔ Authorised adminToken req) ∧
      (resp.status = 403 ↔ ¬Authorised adminToken req) := by
  obtain ⟨-, hbyCookie, hbyToken, hforbidden⟩ :=
    (admin_rows_eq_ok_iff haware hrows hfile).mp hresp
  by_cases hauthorised : Authorised adminToken req
  · have hpage : resp.status = 200 := by
      by_cases hcookie : HasToken adminToken req.cookie
      · rw [hbyCookie hcookie]
        rfl
      · rw [hbyToken hcookie (hauthorised.resolve_left hcookie)]
        rfl
    simp [hpage, hauthorised]
  · have hstatus : resp.status = 403 := by
      rw [hforbidden hauthorised]
      rfl
    simp [hstatus, hauthorised]

/-- What can be answered can be answered without a `since` that is not usable. -/
theorem Answerable.withoutSince (h : Answerable py adminToken rows now req)
    (hnone : usableHours now req.since = none) :
    Answerable py adminToken rows now { req with since := none } := by
  refine ⟨h.cookie, h.token, fun hauthorised => ?_⟩
  have hpage := h.page hauthorised
  have hdigits : isdigit (textOf none) = false := rfl
  refine ⟨hpage.day, fun h => ?_, hpage.summary, fun row hrow hpasses => ?_⟩
  · rw [hdigits] at h
    cases h
  · refine hpage.table row hrow ?_
    rw [hnone]
    exact hpasses

/-- A response does not depend on a `since` that is not usable. -/
theorem withoutSince_eq (haware : now.offset.isSome) (hrows : ∀ row ∈ rows, TypedRow py row)
    (hfile : readAuditFile py file = .ok rows) {resp : AdminResponse}
    (hresp : admin py adminToken file now req = .ok resp)
    (hnone : usableHours now req.since = none) :
    ∃ resp', admin py adminToken file now { req with since := none } = .ok resp' ∧
      resp.withoutSince = resp'.withoutSince := by
  obtain ⟨hanswerable, hbyCookie, hbyToken, hforbidden⟩ :=
    (admin_rows_eq_ok_iff haware hrows hfile).mp hresp
  obtain ⟨resp', hresp'⟩ := exists_response haware hrows hfile (hanswerable.withoutSince hnone)
  obtain ⟨-, hbyCookie', hbyToken', hforbidden'⟩ :=
    (admin_rows_eq_ok_iff haware hrows hfile).mp hresp'
  have hpage : { servedPage py rows now req with since := [] } =
      { servedPage py rows now { req with since := none } with since := [] } := by
    simp only [servedPage, hnone]
    rfl
  refine ⟨resp', hresp', ?_⟩
  by_cases hcookie : HasToken adminToken req.cookie
  · rw [hbyCookie hcookie, hbyCookie' hcookie]
    simp only [AdminResponse.withoutSince, hpage]
  · by_cases htoken : HasToken adminToken req.token
    · rw [hbyToken hcookie htoken, hbyToken' hcookie htoken]
      simp only [AdminResponse.withoutSince, hpage]
    · have hnot : ¬Authorised adminToken req := by simp [Authorised, hcookie, htoken]
      rw [hforbidden hnot, hforbidden' hnot]

end Requests

/-- **The handler answers as it should** exactly where the values up to the admin token can be
compared with it and, for who has it, the page can be served. -/
theorem answered_iff (py : Interpreter) (adminToken : Option Str)
    (file : Option (List AuditRecord)) {now : DateTime} (hnow : now.offset = some 0)
    (req : AdminRequest) :
    Answered py adminToken (file.map auditBytes) now req ↔
      Answerable py adminToken ((file.getD []).map AuditRecord.row) now req := by
  have haware : now.offset.isSome := by rw [hnow]; rfl
  have hrows : ∀ row ∈ (file.getD []).map AuditRecord.row, TypedRow py row := by
    intro row hrow
    obtain ⟨record, -, rfl⟩ := List.mem_map.mp hrow
    exact typedRow_row py record
  have hfile := readAuditFile_auditBytes py file
  constructor
  · rintro ⟨resp, hresp, -⟩
    exact ((admin_rows_eq_ok_iff haware hrows hfile).mp hresp).1
  · intro hanswerable
    obtain ⟨resp, hresp⟩ := exists_response haware hrows hfile hanswerable
    obtain ⟨hserved, hforbidden⟩ := status_iff haware hrows hfile hresp
    exact ⟨resp, hresp, hserved, hforbidden, withoutSince_eq haware hrows hfile hresp⟩

/-- A denial at the moment past noon. -/
def sampleRecord : AuditRecord :=
  { call :=
      { ts := sampleNoon.isoformat, agent := lit "a", tool := lit "ops__query_logs", args := []
        printed := trivial, decision := lit "denied"
        traceId := lit "0123456789abcdef0123456789abcdef" }
    time := sampleNoon
    utc := rfl
    stamped := rfl }

/-- A request with a token, for the last hours that a text denotes. -/
def tokenRequest (token since : RequestText) : AdminRequest :=
  { cookie := none, token := some token, agent := none, decision := none, since := some since }

/-- A request for the last day. -/
def dayRequest : AdminRequest := tokenRequest ⟨lit "secret", rfl⟩ ⟨lit "24", rfl⟩

/-- Who has the token sees the denials of the last day. -/
theorem answered_sample : Answered ⟨100, fun _ => true⟩ (some (lit "secret"))
    (some (auditBytes [sampleRecord])) sampleNoon dayRequest := by
  refine (answered_iff ⟨100, fun _ => true⟩ (some (lit "secret")) (some [sampleRecord]) rfl
    dayRequest).mpr ⟨?_, fun _ => ?_, fun _ => ?_⟩
  · intro _ _ _ _ hcookie
    cases hcookie
  · intro token g htoken _ hg _
    obtain rfl := Option.some.inj htoken
    obtain rfl := Option.some.inj hg
    exact ⟨rfl, rfl⟩
  · have hrows : ((some [sampleRecord]).getD []).map AuditRecord.row = [sampleRecord.row] := rfl
    rw [hrows]
    refine ⟨by decide +kernel, fun _ => by decide +kernel, ?_, ?_⟩
    · exact List.forall_mem_singleton.mpr fun _ => by decide +kernel
    · exact List.forall_mem_singleton.mpr fun _ => by decide +kernel

/-- **One letter that is not ASCII takes the page away**, for whoever sends it. -/
theorem answered_fails : ¬∀ (py : Interpreter) (adminToken : Option Str)
    (file : Option (List AuditRecord)) (now : DateTime) (req : AdminRequest),
    now.offset = some 0 → Answered py adminToken (file.map auditBytes) now req := by
  intro hclaim
  obtain ⟨resp, hresp, -⟩ := hclaim ⟨100, fun _ => true⟩ (some (lit "secret")) none sampleNoon
    (tokenRequest ⟨[0xE9], rfl⟩ ⟨[], rfl⟩) rfl
  have hraises : admin ⟨100, fun _ => true⟩ (some (lit "secret")) none sampleNoon
      (tokenRequest ⟨[0xE9], rfl⟩ ⟨[], rfl⟩) = .error .typeError := rfl
  have hnone : Option.map auditBytes none = none := rfl
  rw [hnone, hraises] at hresp
  cases hresp

end AgentOpsGateway
