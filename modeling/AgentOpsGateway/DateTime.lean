import AgentOpsGateway.PyStr

/-!
# Dates and Times as the Python Standard Library Reads Them

`fromisoformat` is `datetime.fromisoformat` of the interpreter the program requires,
clause for clause after the C scanner: calendar and week dates with or without dashes, any
one code point as separator, times down to microseconds with or without colons, `Z` or a
signed offset. It follows the documentation in two places where the C scanner does not: an
offset of less than a second keeps its microseconds, and a week of the year 0000 is malformed.
A `DateTime` carries the proof that its fields are in range, so a value that could not be a
Python `datetime` cannot be built.

`DateTime.sub` is the difference of two datetimes in microseconds: of the instants where
both have an offset, of the wall clocks where neither has, and a `TypeError` otherwise.
-/

namespace Python

/-- A Gregorian leap year. -/
def isLeap (year : ℕ) : Bool := year % 4 = 0 ∧ (year % 100 ≠ 0 ∨ year % 400 = 0)

/-- The days of a month. -/
def daysInMonth (year month : ℕ) : ℕ :=
  if month = 2 then (if isLeap year then 29 else 28)
  else if month ∈ [4, 6, 9, 11] then 30 else 31

/-- The days before the first of January of a year, counted from year 1. -/
def daysBeforeYear (year : ℕ) : ℕ :=
  (year - 1) * 365 + (year - 1) / 4 - (year - 1) / 100 + (year - 1) / 400

/-- The days of a year before a month. -/
def daysBeforeMonth (year month : ℕ) : ℕ :=
  ((List.range (month - 1)).map fun m => daysInMonth year (m + 1)).sum

/-- The proleptic Gregorian ordinal, the first of January of year 1 being day 1. -/
def toOrdinal (year month day : ℕ) : ℕ := daysBeforeYear year + daysBeforeMonth year month + day

/-- The date of an ordinal. -/
def ofOrdinal (ordinal : ℕ) : ℕ × ℕ × ℕ :=
  let n := ordinal - 1
  let n400 := n / 146097
  let n := n % 146097
  let n100 := n / 36524
  let n := n % 36524
  let n4 := n / 1461
  let n := n % 1461
  let n1 := n / 365
  let n := n % 365
  let year := n400 * 400 + n100 * 100 + n4 * 4 + n1 + 1
  if n1 = 4 ∨ n100 = 4 then (year - 1, 12, 31)
  else
    let month := ((List.range 12).filter fun m => daysBeforeMonth year (m + 1) ≤ n).length
    (year, month, n - daysBeforeMonth year month + 1)

/-- The microseconds of a day. -/
def dayMicros : ℕ := 86400000000

/-- A `datetime`: fields in range and, where it is aware, an offset of less than a day. -/
structure DateTime where
  year : ℕ
  month : ℕ
  day : ℕ
  hour : ℕ
  minute : ℕ
  second : ℕ
  microsecond : ℕ
  /-- `utcoffset()` in microseconds; `none` where the datetime is naive. -/
  offset : Option ℤ
  year_range : 1 ≤ year ∧ year ≤ 9999
  month_range : 1 ≤ month ∧ month ≤ 12
  day_range : 1 ≤ day ∧ day ≤ daysInMonth year month
  hour_range : hour ≤ 23
  minute_range : minute ≤ 59
  second_range : second ≤ 59
  microsecond_range : microsecond < 1000000
  offset_range : ∀ o ∈ offset, -(dayMicros : ℤ) < o ∧ o < dayMicros

/-- The wall clock in microseconds from the first of January of year 1. -/
def DateTime.wallMicros (t : DateTime) : ℤ :=
  (toOrdinal t.year t.month t.day - 1 : ℤ) * dayMicros +
    ((t.hour * 60 + t.minute) * 60 + t.second) * 1000000 + t.microsecond

/-- `a - b` in microseconds, or the text of the `TypeError`. -/
def DateTime.sub (a b : DateTime) : Except Str ℤ :=
  match a.offset, b.offset with
  | none, none => .ok (a.wallMicros - b.wallMicros)
  | some oa, some ob => .ok ((a.wallMicros - oa) - (b.wallMicros - ob))
  | _, _ => .error (lit "can't subtract offset-naive and offset-aware datetimes")

/-- The instant of a datetime: its wall clock less its offset, none counting as zero. -/
def DateTime.instant (t : DateTime) : ℤ := t.wallMicros - t.offset.getD 0

/-- **Datetimes are subtracted where both or neither are aware**, and the difference is that
of their instants. -/
theorem DateTime.sub_eq_ok_iff {a b : DateTime} {delta : ℤ} :
    a.sub b = .ok delta ↔
      a.offset.isSome = b.offset.isSome ∧ delta = a.instant - b.instant := by
  simp only [DateTime.sub, DateTime.instant]
  cases a.offset with
  | none =>
      cases b.offset with
      | none => simp [eq_comm]
      | some ob => simp
  | some oa =>
      cases b.offset with
      | none => simp
      | some ob => simp [eq_comm]

/-! ### The scanner -/

/-- The code point at a position, `NUL` past the end as in the C string. -/
def charAt (s : Str) (i : ℕ) : CodePoint := s.getD i 0

/-- Exactly `n` digits at the front of a text, and what follows them. -/
def scanDigits (n : ℕ) (s : Str) : Option (ℕ × Str) :=
  if (s.take n).length = n ∧ (s.take n).all isDigit then some (ofDigits (s.take n), s.drop n)
  else none

/-- Where the date ends: `_find_isoformat_datetime_separator`, for at least seven code
points. -/
def separatorIndex (s : Str) : ℕ :=
  if s.length = 7 then 7
  else if charAt s 4 = ofChar '-' then
    if charAt s 5 = ofChar 'W' then
      if 8 < s.length ∧ charAt s 8 = ofChar '-' then
        if s.length = 9 then 0
        else if 10 < s.length ∧ isDigit (charAt s 10) then 8
        else 10
      else 8
    else 10
  else if charAt s 4 = ofChar 'W' then
    let pos := 7 + ((s.drop 7).takeWhile isDigit).length
    if pos < 9 then pos else if pos % 2 = 0 then 7 else 8
  else 8

/-- The ordinal of the Monday of the first ISO week of a year. -/
def isoWeek1Monday (year : ℕ) : ℕ :=
  let first := toOrdinal year 1 1
  let weekday := (first + 6) % 7
  if 3 < weekday then first - weekday + 7 else first - weekday

/-- `iso_to_ymd`: the date of a day of an ISO week. (Both refuse a week of the year 0000, the C
scanner with an error of another text.) -/
def isoToDate (year week weekday : ℕ) : Option (ℕ × ℕ × ℕ) :=
  let longYear := toOrdinal year 1 1 % 7 = 4 ∨ toOrdinal year 1 1 % 7 = 3 ∧ isLeap year
  if year < 1 ∨ 9999 < year then none
  else if week < 1 ∨ 53 < week ∨ week = 53 ∧ ¬longYear then none
  else if weekday < 1 ∨ 7 < weekday then none
  else some (ofOrdinal (isoWeek1Monday year + (week - 1) * 7 + (weekday - 1)))

/-- The dash that has to stand between two fields where the date uses dashes. -/
def scanDash (dashed : Bool) (s : Str) : Option Str :=
  if dashed then
    match s with
    | c :: rest => if c = ofChar '-' then some rest else none
    | [] => none
  else some s

/-- `parse_isoformat_date` on the date part of the text. -/
def scanDate (s : Str) : Option (ℕ × ℕ × ℕ) := do
  let (year, rest) ← scanDigits 4 s
  let dashed := rest.head? = some (ofChar '-')
  let rest := if dashed then rest.drop 1 else rest
  if rest.head? = some (ofChar 'W') then
    let (week, rest) ← scanDigits 2 (rest.drop 1)
    if rest = [] then isoToDate year week 1
    else
      let rest ← scanDash dashed rest
      let (weekday, _) ← scanDigits 1 rest
      isoToDate year week weekday
  else
    let (month, rest) ← scanDigits 2 rest
    let rest ← scanDash dashed rest
    let (day, rest) ← scanDigits 2 rest
    if rest = [] then some (year, month, day) else none

/-- Hours, minutes, seconds and microseconds. -/
abbrev TimeFields := ℕ × ℕ × ℕ × ℕ

/-- The fraction of a second: up to six digits count, further digits are skipped. The flag
says that the text goes on after it; `next` is the code point behind the segment. -/
def scanSecondFraction (s : Str) (next : CodePoint) : Option (ℕ × Bool) := do
  let width := min 6 s.length
  let (n, rest) ← scanDigits width s
  if width = 0 then none
  else
    let rest := rest.dropWhile isDigit
    some (n * 10 ^ (6 - width), (rest ++ [next]).head? ≠ some 0)

/-- What follows one two-digit field of a time: the end of the segment (with the flag that
the text goes on), the next field, a fraction, or a malformed separator. -/
inductive AfterField
  | stop (more : Bool)
  | field (rest : Str)
  | fraction (rest : Str)
  | malformed

/-- Look at what follows a field: `colons` says that the time uses colons, `last` that the
field was the seconds, after which a colon starts the fraction as a point does. The last
byte of the segment is taken for a separator without being looked at. -/
def afterField (colons last : Bool) (s : Str) (next : CodePoint) : AfterField :=
  match s with
  | [] => .stop (next ≠ 0)
  | [c] => if c.val < 0x80 then .stop (c ≠ 0) else .malformed
  | c :: rest =>
    if colons && c = ofChar ':' then (if last then .fraction rest else .field rest)
    else if c = ofChar '.' ∨ c = ofChar ',' then .fraction rest
    else if colons then .malformed
    else if last then .fraction s
    else .field s

/-- `parse_hh_mm_ss_ff` on a segment of the text, `next` being the code point behind it.
The flag says that the text goes on after what was read. -/
def scanTimeFields (s : Str) (next : CodePoint) : Option (TimeFields × Bool) := do
  let (h, rest) ← scanDigits 2 s
  let colons : Bool := (rest ++ [next]).head? = some (ofChar ':')
  match afterField colons false rest next with
  | .stop more => some ((h, 0, 0, 0), more)
  | .fraction rest =>
    let (us, more) ← scanSecondFraction rest next
    some ((h, 0, 0, us), more)
  | .malformed => none
  | .field rest =>
    let (m, rest) ← scanDigits 2 rest
    match afterField colons false rest next with
    | .stop more => some ((h, m, 0, 0), more)
    | .fraction rest =>
      let (us, more) ← scanSecondFraction rest next
      some ((h, m, 0, us), more)
    | .malformed => none
    | .field rest =>
      let (sec, rest) ← scanDigits 2 rest
      match afterField colons true rest next with
      | .stop more => some ((h, m, sec, 0), more)
      | .fraction rest =>
        let (us, more) ← scanSecondFraction rest next
        some ((h, m, sec, us), more)
      | _ => none

/-- A code point that starts the offset of a time. -/
def startsOffset (c : CodePoint) : Bool := c = ofChar '+' ∨ c = ofChar '-' ∨ c = ofChar 'Z'

/-- `parse_isoformat_time`: the fields and the signed offset in microseconds, as documented. (The
C scanner drops the microseconds of an offset whose whole seconds are zero.) -/
def scanTime (s : Str) : Option (TimeFields × Option ℤ) := do
  let (segment, rest) := s.span fun c => !startsOffset c
  match rest with
  | [] =>
    let (fields, more) ← scanTimeFields segment 0
    if more then none else some (fields, none)
  | c :: rest =>
    let (fields, _) ← scanTimeFields segment c
    if c = ofChar 'Z' then
      if charAt rest 0 ≠ 0 then none else some (fields, some 0)
    else
      let ((h, m, sec, us), more) ← scanTimeFields rest 0
      let micros : ℤ := ((h * 60 + m) * 60 + sec) * 1000000 + us
      if more then none else some (fields, some (if c = ofChar '-' then -micros else micros))

/-- A surrogate, which has no UTF-8 encoding. -/
def isSurrogate (c : CodePoint) : Bool := 0xD800 ≤ c.val && c.val ≤ 0xDFFF

/-- The text with a surrogate separator replaced, or `none` where it has another one and
no UTF-8 encoding. -/
def sanitize (s : Str) : Option Str :=
  let s :=
    match [7, 8, 10].find? fun i => isSurrogate (charAt s i) with
    | some i => s.set i (ofChar 'T')
    | none => s
  if s.any isSurrogate then none else some s

/-- The scanned fields of a text that has the form of a date and time. -/
def scanIso (s : Str) : Option ((ℕ × ℕ × ℕ) × TimeFields × Option ℤ) := do
  let s ← if s.length < 7 then none else sanitize s
  let pos := separatorIndex s
  let date ← scanDate (s.take pos)
  if s.length ≤ pos then some (date, (0, 0, 0, 0), none)
  else
    let (fields, offset) ← scanTime (s.drop (pos + 1))
    some (date, fields, offset)

/-! ### Ranges and messages -/

/-- One field of the `repr` of a `timedelta`, left out where it is zero. -/
def deltaField (name : String) (n : ℤ) : List Str :=
  if n = 0 then [] else [lit name ++ lit "=" ++ decimal n]

/-- `repr` of a nonzero `timedelta`. -/
def reprDelta (micros : ℤ) : Str :=
  let fields := deltaField "days" (micros / dayMicros) ++
    deltaField "seconds" (micros % dayMicros / 1000000) ++
    deltaField "microseconds" (micros % 1000000)
  lit "datetime.timedelta(" ++ (lit ", ").intercalate fields ++ lit ")"

/-- The `ValueError` of an offset of a day or more. -/
def offsetMessage (micros : ℤ) : Str :=
  lit "offset must be a timedelta strictly between -timedelta(hours=24) and " ++
    lit "timedelta(hours=24), not " ++ reprDelta micros ++ lit "."

/-- `datetime.fromisoformat(s)`, or the text of the `ValueError`. -/
def fromisoformat (py : Interpreter) (s : Str) : Except Str DateTime :=
  match scanIso s with
  | none => .error (lit "Invalid isoformat string: " ++ repr py s)
  | some ((year, month, day), (hour, minute, second, microsecond), offset) =>
    if hoff : ∀ o ∈ offset, -(dayMicros : ℤ) < o ∧ o < dayMicros then
      if hy : 1 ≤ year ∧ year ≤ 9999 then
        if hm : 1 ≤ month ∧ month ≤ 12 then
          if hd : 1 ≤ day ∧ day ≤ daysInMonth year month then
            if hh : hour ≤ 23 then
              if hmi : minute ≤ 59 then
                if hs : second ≤ 59 then
                  if hus : microsecond < 1000000 then
                    .ok ⟨year, month, day, hour, minute, second, microsecond, offset,
                      hy, hm, hd, hh, hmi, hs, hus, hoff⟩
                  else .error (lit "microsecond must be in 0..999999")
                else .error (lit "second must be in 0..59")
              else .error (lit "minute must be in 0..59")
            else .error (lit "hour must be in 0..23")
          else .error (lit "day is out of range for month")
        else .error (lit "month must be in 1..12")
      else .error (lit "year " ++ decimal year ++ lit " is out of range")
    else .error (offsetMessage (offset.getD 0))

end Python
