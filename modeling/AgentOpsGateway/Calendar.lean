import AgentOpsGateway.DateTime

/-!
# Ordinals and Shifted Datetimes

The calendar of `DateTime` put to use: a day is the same whether it is counted or dated
(`toOrdinal_ofOrdinal`), so a `datetime` can be moved by a `timedelta`. `add` is
`t + delta`, which keeps the offset and raises `OverflowError` outside of the years 1 to
9999; `isoformat` is `t.isoformat()`.

## Main results

* `toOrdinal_ofOrdinal`: **the date of an ordinal has that ordinal**, and its fields are in
  range.
* `DateTime.add_eq_some`: a shifted datetime is off by the shift, at the same offset.
-/

namespace Python

/-! ### Days of a year -/

/-- The days of a month, by whether the year is a leap year. -/
def monthDays (leap : Bool) (month : ℕ) : ℕ :=
  if month = 2 then (if leap then 29 else 28)
  else if month ∈ [4, 6, 9, 11] then 30 else 31

/-- The days before a month, by whether the year is a leap year. -/
def daysBefore (leap : Bool) (month : ℕ) : ℕ :=
  ((List.range (month - 1)).map fun m => monthDays leap (m + 1)).sum

/-- The month in which a day of the year lies. -/
def monthOfDay (leap : Bool) (day : ℕ) : ℕ :=
  ((List.range 12).filter fun m => daysBefore leap (m + 1) ≤ day).length

/-- A day of the year lies in its month. -/
theorem monthOfDay_spec : ∀ leap : Bool, ∀ day < 365,
    1 ≤ monthOfDay leap day ∧ monthOfDay leap day ≤ 12 ∧
      daysBefore leap (monthOfDay leap day) ≤ day ∧
      day - daysBefore leap (monthOfDay leap day) + 1 ≤ monthDays leap (monthOfDay leap day) := by
  decide +kernel

/-! ### Years of a cycle -/

section Years

variable {n400 n100 n4 n1 : ℕ}

/-- The days before the year that is reached by whole centuries, cycles of four years and
single years. -/
theorem daysBeforeYear_cycles (h100 : n100 ≤ 3) (h4 : n4 ≤ 24) (h1 : n1 ≤ 3) :
    daysBeforeYear (n400 * 400 + n100 * 100 + n4 * 4 + n1 + 1) =
      n400 * 146097 + n100 * 36524 + n4 * 1461 + n1 * 365 := by
  simp only [daysBeforeYear]
  omega

end Years

/-- **The date of an ordinal has that ordinal.** The last day of a leap year ends a cycle and
is dated apart. -/
theorem toOrdinal_ofOrdinal {n : ℕ} (hn : 1 ≤ n) :
    let date := ofOrdinal n
    toOrdinal date.1 date.2.1 date.2.2 = n ∧ (1 ≤ date.2.1 ∧ date.2.1 ≤ 12) ∧
      (1 ≤ date.2.2 ∧ date.2.2 ≤ daysInMonth date.1 date.2.1) ∧ 1 ≤ date.1 ∧
      (n ≤ 3652059 → date.1 ≤ 9999) := by
  obtain ⟨d, rfl⟩ : ∃ d, n = d + 1 := ⟨n - 1, by omega⟩
  simp only [ofOrdinal]
  simp only [Nat.add_sub_cancel]
  set n400 := d / 146097 with h400
  set r400 := d % 146097 with hr400
  set n100 := r400 / 36524 with h100
  set r100 := r400 % 36524 with hr100
  set n4 := r100 / 1461 with h4
  set r4 := r100 % 1461 with hr4
  set n1 := r4 / 365 with h1
  set r1 := r4 % 365 with hr1
  by_cases hlast : n1 = 4 ∨ n100 = 4
  · rw [if_pos hlast]
    -- the year before is the leap year whose last day this is
    set year := n400 * 400 + n100 * 100 + n4 * 4 + n1 with hyear
    have hleap : isLeap year = true := by
      simp only [isLeap, decide_eq_true_eq]
      omega
    have hbefore : daysBeforeMonth year 12 = 335 := by
      change daysBefore (isLeap year) 12 = 335
      rw [hleap]
      decide
    have hordinal : toOrdinal year 12 31 = d + 1 := by
      rw [toOrdinal, hbefore]
      simp only [daysBeforeYear]
      rcases hlast with hlast | hlast
      · have hfours : (year - 1) / 4 = n400 * 100 + n100 * 25 + n4 := by omega
        have hcenturies : (year - 1) / 100 = n400 * 4 + n100 := by omega
        have hcycles : (year - 1) / 400 = n400 := by omega
        omega
      · have hfours : (year - 1) / 4 = n400 * 100 + 99 := by omega
        have hcenturies : (year - 1) / 100 = n400 * 4 + 3 := by omega
        have hcycles : (year - 1) / 400 = n400 := by omega
        omega
    exact ⟨hordinal, ⟨by simp, le_refl 12⟩, ⟨by simp, le_refl 31⟩, by dsimp only; omega,
      by dsimp only; omega⟩
  · rw [if_neg hlast]
    obtain ⟨hmonth, hmonth', hday, hday'⟩ :=
      monthOfDay_spec (isLeap (n400 * 400 + n100 * 100 + n4 * 4 + n1 + 1)) r1 (by omega)
    have hyears : daysBeforeYear (n400 * 400 + n100 * 100 + n4 * 4 + n1 + 1) + r1 = d := by
      rw [daysBeforeYear_cycles (by omega) (by omega) (by omega)]
      omega
    refine ⟨?_, ⟨hmonth, hmonth'⟩, ⟨Nat.le_add_left 1 _, hday'⟩, by dsimp only; omega,
      by dsimp only; omega⟩
    have hmonths := Nat.add_sub_cancel' hday
    change daysBeforeYear _ + daysBefore _ _ + (r1 - daysBefore _ _ + 1) = d + 1
    rw [← hyears, ← add_assoc, Nat.add_assoc (daysBeforeYear _)]
    exact congrArg (daysBeforeYear _ + · + 1) hmonths

/-! ### Ordered dates -/

/-- A month ends before a later one starts, and none after the year. -/
theorem daysBefore_add_monthDays : ∀ leap : Bool, ∀ month < 13, 1 ≤ month →
    (∀ later < 13, month < later →
      daysBefore leap month + monthDays leap month ≤ daysBefore leap later) ∧
    daysBefore leap month + monthDays leap month ≤ if leap then 366 else 365 := by
  decide +kernel

/-- The days of a year lie before the next one. -/
theorem daysBeforeYear_succ (year : ℕ) :
    daysBeforeYear (year + 1 + 1) =
      daysBeforeYear (year + 1) + if isLeap (year + 1) then 366 else 365 := by
  have hsucc : ∀ n, 0 < n → (year + 1) / n = year / n + if (year + 1) % n = 0 then 1 else 0 :=
    fun n _ => by
      rw [Nat.succ_div]
      simp only [Nat.dvd_iff_mod_eq_zero]
  simp only [daysBeforeYear, isLeap, Nat.add_sub_cancel, decide_eq_true_eq,
    hsucc 4 (by decide), hsucc 100 (by decide), hsucc 400 (by decide)]
  have hcenturies : year / 100 ≤ year / 4 := Nat.div_le_div_left (by decide) (by decide)
  have hfour : (year + 1) % 100 = 0 → (year + 1) % 4 = 0 := by omega
  have hcycle : (year + 1) % 400 = 0 → (year + 1) % 100 = 0 := by omega
  split_ifs <;> omega

/-- A year ends before a later one starts. -/
theorem daysBeforeYear_add_le {year later : ℕ} (hyear : 1 ≤ year) (hlt : year + 1 ≤ later) :
    daysBeforeYear year + (if isLeap year then 366 else 365) ≤ daysBeforeYear later := by
  obtain ⟨year, rfl⟩ : ∃ k, year = k + 1 := ⟨year - 1, by omega⟩
  rw [← daysBeforeYear_succ]
  induction later, hlt using Nat.le_induction with
  | base => rfl
  | succ later hle ih =>
      obtain ⟨later, rfl⟩ : ∃ k, later = k + 1 := ⟨later - 1, by omega⟩
      rw [daysBeforeYear_succ later]
      omega

/-- **Dates of one ordinal are the same.** -/
theorem toOrdinal_inj {year month day year' month' day' : ℕ} (hyear : 1 ≤ year)
    (hyear' : 1 ≤ year') (hmonth : 1 ≤ month ∧ month ≤ 12) (hmonth' : 1 ≤ month' ∧ month' ≤ 12)
    (hday : 1 ≤ day ∧ day ≤ daysInMonth year month)
    (hday' : 1 ≤ day' ∧ day' ≤ daysInMonth year' month')
    (h : toOrdinal year month day = toOrdinal year' month' day') :
    year = year' ∧ month = month' ∧ day = day' := by
  have hends := daysBefore_add_monthDays (isLeap year) month (by omega) hmonth.1
  have hends' := daysBefore_add_monthDays (isLeap year') month' (by omega) hmonth'.1
  change daysBeforeYear year + daysBefore (isLeap year) month + day =
    daysBeforeYear year' + daysBefore (isLeap year') month' + day' at h
  change 1 ≤ day ∧ day ≤ monthDays (isLeap year) month at hday
  change 1 ≤ day' ∧ day' ≤ monthDays (isLeap year') month' at hday'
  obtain hlt | rfl | hlt := Nat.lt_trichotomy year year'
  · have := daysBeforeYear_add_le hyear hlt
    omega
  · obtain hlt | rfl | hlt := Nat.lt_trichotomy month month'
    · have := hends.1 month' (by omega) hlt
      omega
    · exact ⟨rfl, rfl, by omega⟩
    · have := hends'.1 month (by omega) hlt
      omega
  · have := daysBeforeYear_add_le hyear' hlt
    omega

/-! ### Datetimes by their wall clock -/

/-- The ordinal of the last day there is, 31 December 9999. -/
def maxOrdinal : ℕ := 3652059

/-- The datetime of a wall clock at an offset, or `none` where its date is out of range. -/
def ofWall (wall : ℤ) (offset : Option ℤ)
    (hoffset : ∀ o ∈ offset, -(dayMicros : ℤ) < o ∧ o < dayMicros) : Option DateTime :=
  if h : 0 ≤ wall ∧ wall < maxOrdinal * dayMicros then
    let days := (wall / dayMicros).toNat
    let micros := (wall % dayMicros).toNat
    have hdays : days + 1 ≤ 3652059 := by
      simp only [days, maxOrdinal, dayMicros] at h ⊢
      omega
    have hmicros : micros < 86400000000 := by
      simp only [micros, dayMicros]
      omega
    have hdate := toOrdinal_ofOrdinal (Nat.le_add_left 1 days)
    some
      { year := (ofOrdinal (days + 1)).1
        month := (ofOrdinal (days + 1)).2.1
        day := (ofOrdinal (days + 1)).2.2
        hour := micros / 3600000000
        minute := micros / 60000000 % 60
        second := micros / 1000000 % 60
        microsecond := micros % 1000000
        offset
        year_range := ⟨hdate.2.2.2.1, hdate.2.2.2.2 hdays⟩
        month_range := hdate.2.1
        day_range := hdate.2.2.1
        hour_range := by omega
        minute_range := by omega
        second_range := by omega
        microsecond_range := by omega
        offset_range := hoffset }
  else none

/-- `t + delta`, with `delta` in microseconds; `none` for the `OverflowError`. -/
def DateTime.add (t : DateTime) (delta : ℤ) : Option DateTime :=
  ofWall (t.wallMicros + delta) t.offset t.offset_range

/-- The wall clock of a datetime is not negative. -/
theorem DateTime.wallMicros_nonneg (t : DateTime) : 0 ≤ t.wallMicros := by
  have hday := t.day_range.1
  have : 1 ≤ toOrdinal t.year t.month t.day := Nat.le_trans hday (Nat.le_add_left _ _)
  simp only [wallMicros]
  simp only [dayMicros]
  omega

/-- The wall clock of a datetime is before the year 10000. -/
theorem DateTime.wallMicros_lt (t : DateTime) : t.wallMicros < maxOrdinal * dayMicros := by
  have hmonth := t.month_range
  have hday : t.day ≤ monthDays (isLeap t.year) t.month := t.day_range.2
  have hyear := t.year_range
  have hends := (daysBefore_add_monthDays (isLeap t.year) t.month (by omega) hmonth.1).2
  have hlast : daysBeforeYear t.year + (if isLeap t.year then 366 else 365) ≤ maxOrdinal :=
    daysBeforeYear_add_le hyear.1 (Nat.succ_le_succ hyear.2)
  have hordinal : toOrdinal t.year t.month t.day ≤ maxOrdinal := by
    change daysBeforeYear t.year + daysBefore (isLeap t.year) t.month + t.day ≤ maxOrdinal
    omega
  have hhour := t.hour_range
  have hminute := t.minute_range
  have hsecond := t.second_range
  have hmicrosecond := t.microsecond_range
  simp only [wallMicros]
  simp only [dayMicros]
  omega

/-- **Datetimes of one wall clock** and one offset are the same. -/
theorem DateTime.eq_of_wallMicros {t t' : DateTime} (hwall : t.wallMicros = t'.wallMicros)
    (hoffset : t.offset = t'.offset) : t = t' := by
  have hhour := t.hour_range
  have hminute := t.minute_range
  have hsecond := t.second_range
  have hmicrosecond := t.microsecond_range
  have hhour' := t'.hour_range
  have hminute' := t'.minute_range
  have hsecond' := t'.second_range
  have hmicrosecond' := t'.microsecond_range
  simp only [wallMicros] at hwall
  simp only [dayMicros] at hwall
  have hordinal : toOrdinal t.year t.month t.day = toOrdinal t'.year t'.month t'.day := by omega
  have hdate := toOrdinal_inj t.year_range.1 t'.year_range.1 t.month_range t'.month_range
    t.day_range t'.day_range hordinal
  have htime : t.hour = t'.hour ∧ t.minute = t'.minute ∧ t.second = t'.second ∧
      t.microsecond = t'.microsecond := by
    omega
  obtain ⟨hyear, hmonth, hday⟩ := hdate
  obtain ⟨hhour, hminute, hsecond, hmicrosecond⟩ := htime
  cases t
  cases t'
  rw [DateTime.mk.injEq]
  exact ⟨hyear, hmonth, hday, hhour, hminute, hsecond, hmicrosecond, hoffset⟩

/-- **The datetime of a wall clock** has that wall clock and that offset. -/
theorem ofWall_eq_some {wall : ℤ} {offset : Option ℤ}
    {hoffset : ∀ o ∈ offset, -(dayMicros : ℤ) < o ∧ o < dayMicros} {t : DateTime}
    (h : ofWall wall offset hoffset = some t) : t.wallMicros = wall ∧ t.offset = offset := by
  simp only [ofWall] at h
  split at h
  · next hrange =>
      obtain rfl := Option.some.inj h
      refine ⟨?_, rfl⟩
      have hordinal := (toOrdinal_ofOrdinal (Nat.le_add_left 1 (wall / dayMicros).toNat)).1
      simp only [DateTime.wallMicros, hordinal]
      simp only [dayMicros] at hrange ⊢
      omega
  · simp at h

/-- **A shifted datetime** is off by the shift, at the same offset. -/
theorem DateTime.add_eq_some {t t' : DateTime} {delta : ℤ} (h : t.add delta = some t') :
    t'.wallMicros = t.wallMicros + delta ∧ t'.offset = t.offset :=
  ofWall_eq_some h

/-- A shift that stays in range. -/
theorem DateTime.add_isSome {t : DateTime} {delta : ℤ} (h₀ : 0 ≤ t.wallMicros + delta)
    (h₁ : t.wallMicros + delta < maxOrdinal * dayMicros) : (t.add delta).isSome := by
  rw [DateTime.add, ofWall, dif_pos ⟨h₀, h₁⟩]
  rfl

/-- The instant is shifted with the wall clock. -/
theorem DateTime.instant_add {t t' : DateTime} {delta : ℤ} (h : t.add delta = some t') :
    t'.instant = t.instant + delta := by
  obtain ⟨hwall, hoffset⟩ := add_eq_some h
  rw [instant, instant, hwall, hoffset]
  omega

/-- `t.replace(minute=0, second=0, microsecond=0)`. -/
def DateTime.floorHour (t : DateTime) : DateTime :=
  { t with
    minute := 0
    second := 0
    microsecond := 0
    minute_range := by decide
    second_range := by decide
    microsecond_range := by decide }

/-- The hour starts before the datetime, by less than an hour. -/
theorem DateTime.floorHour_instant (t : DateTime) :
    t.floorHour.instant ≤ t.instant ∧ t.instant < t.floorHour.instant + 3600000000 := by
  have hminute := t.minute_range
  have hsecond := t.second_range
  have hmicrosecond := t.microsecond_range
  simp only [instant, wallMicros, floorHour]
  omega

/-! ### Text -/

/-- The decimal digits of a number, padded with zeros to a width. -/
def decimalPadded (width n : ℕ) : Str :=
  List.replicate (width - (decimalNat n).length) (ofChar '0') ++ decimalNat n

/-- The microseconds of a time, left out where they are zero. -/
def formatFraction (micros : ℕ) : Str :=
  if micros = 0 then [] else lit "." ++ decimalPadded 6 micros

/-- The offset of a time: its seconds are left out where it is one of whole minutes. -/
def formatOffset (o : ℤ) : Str :=
  lit (if o < 0 then "-" else "+") ++ decimalPadded 2 (o.natAbs / 3600000000) ++ lit ":" ++
    decimalPadded 2 (o.natAbs / 60000000 % 60) ++
    if o.natAbs % 60000000 = 0 then []
    else lit ":" ++ decimalPadded 2 (o.natAbs / 1000000 % 60) ++ formatFraction (o.natAbs % 1000000)

/-- `t.isoformat()`. -/
def DateTime.isoformat (t : DateTime) : Str :=
  decimalPadded 4 t.year ++ lit "-" ++ decimalPadded 2 t.month ++ lit "-" ++
    decimalPadded 2 t.day ++ lit "T" ++ decimalPadded 2 t.hour ++ lit ":" ++
    decimalPadded 2 t.minute ++ lit ":" ++ decimalPadded 2 t.second ++
    formatFraction t.microsecond ++ (t.offset.map formatOffset).getD []

end Python
