import Mathlib.Data.List.TakeDrop
import AgentOpsGateway.Calendar

/-!
# Datetimes Read Back

`isoformat` writes a `datetime` and `fromisoformat` reads it: digits of a fixed width are
scanned as they were written (`scanDigits_decimalPadded`), then the fields of a time, then
the whole text.

## Main results

* `fromisoformat_isoformat`: **every datetime is read back from its text**, whatever its
  offset.
* `isoformat_injective`: two datetimes of one text are the same.
-/

namespace Python

/-! ### Digits of a fixed width -/

/-- A padded number is written in ASCII digits. -/
theorem isDigit_decimalPadded (width n : ℕ) : ∀ c ∈ decimalPadded width n, isDigit c = true := by
  intro c hc
  rcases List.mem_append.mp hc with hzero | hdigit
  · rw [List.eq_of_mem_replicate hzero]
    decide
  · exact isDigit_decimalNat n c hdigit

/-- A number that fits is written in exactly the width. -/
theorem length_decimalPadded {width n : ℕ} (hwidth : 0 < width) (hn : n < 10 ^ width) :
    (decimalPadded width n).length = width := by
  have hdigits : (decimalNat n).length ≤ width := by
    rw [decimalNat, List.length_map]
    exact (Nat.length_toDigits_le_iff (by decide) hwidth).mpr hn
  rw [decimalPadded, List.length_append, List.length_replicate]
  omega

/-- Leading zeros count for nothing. -/
theorem ofDigits_zeros (k : ℕ) (ds : Str) :
    ofDigits (List.replicate k (ofChar '0') ++ ds) = ofDigits ds := by
  induction k with
  | zero => rfl
  | succ k ih =>
      rw [← ih, List.replicate_succ, List.cons_append, ofDigits, List.foldl_cons]
      rfl

/-- A padded number has its value. -/
theorem ofDigits_decimalPadded (width n : ℕ) : ofDigits (decimalPadded width n) = n := by
  rw [decimalPadded, ofDigits_zeros, ofDigits_decimalNat]

/-- **Digits of a fixed width are scanned as they were written.** -/
theorem scanDigits_decimalPadded {width n : ℕ} (hwidth : 0 < width) (hn : n < 10 ^ width)
    (rest : Str) : scanDigits width (decimalPadded width n ++ rest) = some (n, rest) := by
  have hlength := length_decimalPadded hwidth hn
  have htake : (decimalPadded width n ++ rest).take width = decimalPadded width n :=
    List.take_left' hlength
  have hdigits : (decimalPadded width n).all isDigit = true :=
    List.all_eq_true.mpr (isDigit_decimalPadded width n)
  rw [scanDigits, htake, if_pos ⟨hlength, hdigits⟩, ofDigits_decimalPadded,
    List.drop_left' hlength]

/-! ### The fields of a time -/

/-- A digit is no separator. -/
theorem ne_of_isDigit {c d : CodePoint} (hc : isDigit c = true) (hd : isDigit d = false) :
    c ≠ d := by
  rintro rfl
  simp [hc] at hd

/-- Past a colon the next field starts. -/
theorem afterField_colon {rest : Str} (hrest : rest ≠ []) (next : CodePoint) :
    afterField true false (ofChar ':' :: rest) next = .field rest := by
  obtain ⟨c, cs, rfl⟩ := List.exists_cons_of_ne_nil hrest
  rfl

/-- A written field is not empty. -/
theorem decimalPadded_append_ne_nil {width n : ℕ} (hwidth : 0 < width) (hn : n < 10 ^ width)
    (rest : Str) : decimalPadded width n ++ rest ≠ [] := by
  intro h
  have := congrArg List.length h
  rw [List.length_append, length_decimalPadded hwidth hn, List.length_nil] at this
  omega

/-- Hours and minutes are read back. -/
theorem scanTimeFields_minutes {h m : ℕ} (hh : h < 100) (hm : m < 100) (next : CodePoint) :
    scanTimeFields (decimalPadded 2 h ++ lit ":" ++ decimalPadded 2 m) next =
      some ((h, m, 0, 0), decide (next ≠ 0)) := by
  have hminutes := decimalPadded_append_ne_nil (by decide : 0 < 2) hm []
  have hscan := scanDigits_decimalPadded (by decide : 0 < 2) hm []
  simp only [List.append_nil] at hminutes hscan
  rw [scanTimeFields, List.append_assoc, scanDigits_decimalPadded (by decide) hh]
  simp only [Option.bind_eq_bind, Option.bind_some]
  have hcolon : lit ":" ++ decimalPadded 2 m = ofChar ':' :: decimalPadded 2 m := rfl
  rw [hcolon]
  simp only [List.cons_append, List.head?_cons, decide_true, afterField_colon hminutes, hscan,
    Option.bind_some]
  rfl

/-- The fraction of a second is read back. -/
theorem scanSecondFraction_decimalPadded {us : ℕ} (hus : us < 1000000) (next : CodePoint) :
    scanSecondFraction (decimalPadded 6 us) next = some (us, decide (next ≠ 0)) := by
  have hlength := length_decimalPadded (by decide : 0 < 6) hus
  have hscan := scanDigits_decimalPadded (by decide : 0 < 6) hus []
  rw [List.append_nil] at hscan
  rw [scanSecondFraction, hlength]
  simp only [Nat.min_self, hscan, Option.bind_eq_bind, Option.bind_some]
  simp

/-- **Whole times are read back.** -/
theorem scanTimeFields_seconds {h m s us : ℕ} (hh : h < 100) (hm : m < 100) (hs : s < 100)
    (hus : us < 1000000) (next : CodePoint) :
    scanTimeFields (decimalPadded 2 h ++ lit ":" ++ decimalPadded 2 m ++ lit ":" ++
      decimalPadded 2 s ++ formatFraction us) next = some ((h, m, s, us), decide (next ≠ 0)) := by
  simp only [List.append_assoc]
  rw [scanTimeFields, scanDigits_decimalPadded (by decide) hh]
  simp only [Option.bind_eq_bind, Option.bind_some]
  have hcolon : ∀ rest, lit ":" ++ rest = ofChar ':' :: rest := fun rest => rfl
  simp only [hcolon, List.cons_append, List.head?_cons, decide_true]
  rw [afterField_colon (decimalPadded_append_ne_nil (by decide) hm _)]
  simp only [scanDigits_decimalPadded (by decide : 0 < 2) hm, Option.bind_some]
  rw [afterField_colon (decimalPadded_append_ne_nil (by decide) hs _)]
  simp only [scanDigits_decimalPadded (by decide : 0 < 2) hs, Option.bind_some]
  by_cases hzero : us = 0
  · rw [formatFraction, if_pos hzero, hzero]
    rfl
  · have hfraction : afterField true true (formatFraction us) next =
        .fraction (decimalPadded 6 us) := by
      rw [formatFraction, if_neg hzero]
      obtain ⟨c, cs, hcs⟩ := List.exists_cons_of_ne_nil
        (decimalPadded_append_ne_nil (by decide : 0 < 6) hus [])
      rw [List.append_nil] at hcs
      rw [hcs]
      rfl
    rw [hfraction]
    simp only [scanSecondFraction_decimalPadded hus, Option.bind_some]

/-! ### The offset -/

/-- The code points of a written datetime. -/
def InStamp (s : Str) : Prop := ∀ c ∈ s, 0x2B ≤ c.val ∧ c.val ≤ 0x54

@[simp] theorem inStamp_nil : InStamp [] := List.forall_mem_nil _

@[simp] theorem inStamp_append {s t : Str} : InStamp (s ++ t) ↔ InStamp s ∧ InStamp t :=
  List.forall_mem_append

theorem inStamp_lit {s : String}
    (hs : (s.toList.all fun c => 0x2B ≤ c.toNat && c.toNat ≤ 0x54) = true) : InStamp (lit s) := by
  intro c hc
  obtain ⟨d, hd, rfl⟩ := List.mem_map.mp hc
  have := List.all_eq_true.mp hs d hd
  rw [Bool.and_eq_true, decide_eq_true_eq, decide_eq_true_eq] at this
  rwa [val_ofChar]

@[simp] theorem inStamp_decimalPadded (width n : ℕ) : InStamp (decimalPadded width n) := by
  intro c hc
  have hdigit := isDigit_decimalPadded width n c hc
  rw [isDigit, Bool.and_eq_true, decide_eq_true_eq, decide_eq_true_eq] at hdigit
  omega

@[simp] theorem inStamp_formatFraction (us : ℕ) : InStamp (formatFraction us) := by
  have hpoint : InStamp (lit ".") := inStamp_lit (by decide)
  rw [formatFraction]
  split
  · exact inStamp_nil
  · exact inStamp_append.mpr ⟨hpoint, inStamp_decimalPadded 6 us⟩

/-- The separators of a written datetime. -/
theorem inStamp_separators :
    InStamp (lit "-") ∧ InStamp (lit "T") ∧ InStamp (lit ":") ∧ InStamp (lit "+") :=
  ⟨inStamp_lit (by decide), inStamp_lit (by decide), inStamp_lit (by decide),
    inStamp_lit (by decide)⟩

/-- The date part of a written datetime. -/
def dateText (t : DateTime) : Str :=
  decimalPadded 4 t.year ++ lit "-" ++ decimalPadded 2 t.month ++ lit "-" ++ decimalPadded 2 t.day

/-- The time part of a written datetime, without its offset. -/
def clockText (t : DateTime) : Str :=
  decimalPadded 2 t.hour ++ lit ":" ++ decimalPadded 2 t.minute ++ lit ":" ++
    decimalPadded 2 t.second ++ formatFraction t.microsecond

/-- The offset of a written datetime. -/
def zoneText (t : DateTime) : Str := (t.offset.map formatOffset).getD []

/-- A datetime is written in three parts. -/
theorem isoformat_eq (t : DateTime) :
    t.isoformat = dateText t ++ ofChar 'T' :: (clockText t ++ zoneText t) := by
  have hseparator : ∀ rest, lit "T" ++ rest = ofChar 'T' :: rest := fun rest => rfl
  rw [← hseparator]
  simp only [DateTime.isoformat, dateText, clockText, zoneText, List.append_assoc]

/-- The date part has ten code points. -/
theorem length_dateText (t : DateTime) : (dateText t).length = 10 := by
  have hyear := t.year_range
  have hmonth := t.month_range
  have hday : t.day < 100 := by
    have hlast := t.day_range.2
    simp only [daysInMonth] at hlast
    split_ifs at hlast <;> omega
  have hdash : (lit "-").length = 1 := by decide
  simp only [dateText, List.length_append, hdash,
    length_decimalPadded (by decide : 0 < 4) (by omega : t.year < 10 ^ 4),
    length_decimalPadded (by decide : 0 < 2) (by omega : t.month < 10 ^ 2),
    length_decimalPadded (by decide : 0 < 2) hday]

theorem inStamp_zoneText (t : DateTime) : InStamp (zoneText t) := by
  obtain ⟨hminus, -, hcolon, hplus⟩ := inStamp_separators
  cases ho : t.offset with
  | none => simp [zoneText, ho]
  | some o =>
      simp only [zoneText, ho, Option.map_some, Option.getD_some, formatOffset]
      split_ifs <;> simp [hminus, hplus, hcolon]

/-- **A datetime is written in digits and separators.** -/
theorem inStamp_isoformat (t : DateTime) : InStamp t.isoformat := by
  obtain ⟨hminus, hT, hcolon, -⟩ := inStamp_separators
  have hzone := inStamp_zoneText t
  simp only [zoneText] at hzone
  simp [DateTime.isoformat, hminus, hT, hcolon, hzone]

/-- The time part has no code point that starts an offset. -/
theorem startsOffset_clockText (t : DateTime) :
    ∀ c ∈ clockText t, (!startsOffset c) = true := by
  have hdigits : ∀ width n, ∀ c ∈ decimalPadded width n, (!startsOffset c) = true := by
    intro width n c hc
    have hdigit := isDigit_decimalPadded width n c hc
    simp only [startsOffset, ne_of_isDigit hdigit (by decide : isDigit (ofChar '+') = false),
      ne_of_isDigit hdigit (by decide : isDigit (ofChar '-') = false),
      ne_of_isDigit hdigit (by decide : isDigit (ofChar 'Z') = false), or_self, decide_false,
      Bool.not_false]
  have hcolon : ∀ c ∈ lit ":", (!startsOffset c) = true := List.all_eq_true.mp (by decide)
  have hpoint : ∀ c ∈ lit ".", (!startsOffset c) = true := List.all_eq_true.mp (by decide)
  have hfraction : ∀ c ∈ formatFraction t.microsecond, (!startsOffset c) = true := by
    rw [formatFraction]
    split
    · exact List.forall_mem_nil _
    · exact List.forall_mem_append.mpr ⟨hpoint, hdigits _ _⟩
  simp only [clockText, List.forall_mem_append]
  exact ⟨⟨⟨⟨⟨hdigits _ _, hcolon⟩, hdigits _ _⟩, hcolon⟩, hdigits _ _⟩, hfraction⟩

/-- The segment of a time ends where its offset starts. -/
theorem span_clockText (t : DateTime) {rest : Str} (hrest : ∀ c ∈ rest.head?, startsOffset c) :
    (clockText t ++ rest).span (fun c => !startsOffset c) = (clockText t, rest) := by
  have hclock := startsOffset_clockText t
  rw [List.span_eq_takeWhile_dropWhile, List.takeWhile_append_of_pos hclock,
    List.dropWhile_append_of_pos hclock]
  cases rest with
  | nil => simp
  | cons c rest => simp [hrest c rfl]

/-- The time part is read back. -/
theorem scanTimeFields_clockText (t : DateTime) (next : CodePoint) :
    scanTimeFields (clockText t) next =
      some ((t.hour, t.minute, t.second, t.microsecond), decide (next ≠ 0)) := by
  have hhour := t.hour_range
  have hminute := t.minute_range
  have hsecond := t.second_range
  exact scanTimeFields_seconds (by omega) (by omega) (by omega) t.microsecond_range next

/-- The sign and the fields of a written offset. -/
theorem formatOffset_eq {o : ℤ} (ho : -(dayMicros : ℤ) < o ∧ o < dayMicros) :
    ∃ text h m s us, formatOffset o = lit (if o < 0 then "-" else "+") ++ text ∧
      scanTimeFields text 0 = some ((h, m, s, us), false) ∧
      o.natAbs = ((h * 60 + m) * 60 + s) * 1000000 + us := by
  have hnat : o.natAbs < 86400000000 := by
    simp only [dayMicros] at ho
    omega
  generalize hn : o.natAbs = n at hnat
  have hh : n / 3600000000 < 100 := by omega
  have hm : n / 60000000 % 60 < 100 := by omega
  have hs : n / 1000000 % 60 < 100 := by omega
  have hus : n % 1000000 < 1000000 := by omega
  simp only [formatOffset, hn, List.append_assoc]
  by_cases hwhole : n % 60000000 = 0
  · refine ⟨_, n / 3600000000, n / 60000000 % 60, 0, 0, rfl, ?_, by omega⟩
    rw [if_pos hwhole, List.append_nil, ← List.append_assoc]
    exact scanTimeFields_minutes hh hm 0
  · refine ⟨_, n / 3600000000, n / 60000000 % 60, n / 1000000 % 60, n % 1000000, rfl, ?_, by omega⟩
    rw [if_neg hwhole]
    simp only [← List.append_assoc]
    exact scanTimeFields_seconds hh hm hs hus 0

/-- **A time is read back** with its offset. -/
theorem scanTime_clockText_zoneText (t : DateTime) :
    scanTime (clockText t ++ zoneText t) =
      some ((t.hour, t.minute, t.second, t.microsecond), t.offset) := by
  cases ho : t.offset with
  | none =>
      simp only [zoneText, ho, Option.map_none, Option.getD_none]
      rw [scanTime, span_clockText t (by simp)]
      simp [scanTimeFields_clockText]
  | some o =>
      obtain ⟨text, h, m, s, us, htext, hscan, hvalue⟩ := formatOffset_eq (t.offset_range o ho)
      simp only [zoneText, ho, Option.map_some, Option.getD_some, htext]
      by_cases hneg : o < 0
      · have hminus : lit (if o < 0 then "-" else "+") ++ text = ofChar '-' :: text := by
          rw [if_pos hneg]
          rfl
        rw [hminus, scanTime, span_clockText t (by simp [startsOffset])]
        have hne : ofChar '-' ≠ ofChar 'Z' := by decide
        simp only [scanTimeFields_clockText, Option.bind_eq_bind, Option.bind_some, if_neg hne,
          hscan, if_pos]
        simp only [Bool.false_eq_true, if_false, Option.some.injEq, Prod.mk.injEq, true_and]
        omega
      · have hplus : lit (if o < 0 then "-" else "+") ++ text = ofChar '+' :: text := by
          rw [if_neg hneg]
          rfl
        rw [hplus, scanTime, span_clockText t (by simp [startsOffset])]
        have hne : ofChar '+' ≠ ofChar 'Z' := by decide
        have hsign : ofChar '+' ≠ ofChar '-' := by decide
        simp only [scanTimeFields_clockText, Option.bind_eq_bind, Option.bind_some, if_neg hne,
          hscan, if_neg hsign]
        simp only [Bool.false_eq_true, if_false, Option.some.injEq, Prod.mk.injEq, true_and]
        omega

/-! ### The whole text -/

/-- The date part is read back. -/
theorem scanDate_dateText (t : DateTime) :
    scanDate (dateText t) = some (t.year, t.month, t.day) := by
  have hyear := t.year_range
  have hmonth := t.month_range
  have hday : t.day < 10 ^ 2 := by
    have hlast := t.day_range.2
    simp only [daysInMonth] at hlast
    split_ifs at hlast <;> omega
  have hdash : ∀ rest, lit "-" ++ rest = ofChar '-' :: rest := fun rest => rfl
  have hscan := scanDigits_decimalPadded (by decide : 0 < 2) hday []
  rw [List.append_nil] at hscan
  have hweek : (decimalPadded 2 t.month ++ ofChar '-' :: decimalPadded 2 t.day).head? ≠
      some (ofChar 'W') := by
    intro h
    have hmem := List.mem_of_mem_head? h
    have hstamp : InStamp (decimalPadded 2 t.month ++ ofChar '-' :: decimalPadded 2 t.day) :=
      inStamp_append.mpr ⟨inStamp_decimalPadded _ _,
        inStamp_append.mpr ⟨inStamp_separators.1, inStamp_decimalPadded _ _⟩⟩
    have := (hstamp _ hmem).2
    rw [val_ofChar] at this
    exact absurd this (by decide)
  simp only [dateText, List.append_assoc, hdash, List.cons_append]
  rw [scanDate, scanDigits_decimalPadded (by decide) (by omega : t.year < 10 ^ 4)]
  simp only [Option.bind_eq_bind, Option.bind_some, List.head?_cons, if_pos, List.drop_one,
    List.tail_cons]
  rw [if_neg hweek]
  simp only [scanDigits_decimalPadded (by decide : 0 < 2) (by omega : t.month < 10 ^ 2),
    Option.bind_some, scanDash, decide_true, if_true, hscan]

/-- A text without surrogates is left as it is. -/
theorem sanitize_eq_self {s : Str} (hs : ∀ c ∈ s, isSurrogate c = false) :
    sanitize s = some s := by
  have hchar : ∀ i, isSurrogate (charAt s i) = false := by
    intro i
    rw [charAt, List.getD_eq_getElem?_getD]
    cases hi : s[i]? with
    | none => rfl
    | some c => exact hs c (List.mem_of_getElem? hi)
  have hany : s.any isSurrogate = false := List.any_eq_false.mpr fun c hc => by simp [hs c hc]
  simp [sanitize, hchar, hany]

/-- **The date ends after ten code points.** -/
theorem separatorIndex_isoformat (t : DateTime) : separatorIndex t.isoformat = 10 := by
  have hlength : 11 ≤ t.isoformat.length := by
    rw [isoformat_eq, List.length_append, length_dateText, List.length_cons]
    omega
  have hyear := length_decimalPadded (by decide : 0 < 4)
    (by have := t.year_range; omega : t.year < 10 ^ 4)
  have hdash : charAt t.isoformat 4 = ofChar '-' := by
    simp only [DateTime.isoformat, charAt, List.append_assoc]
    rw [List.getD_eq_getElem?_getD, List.getElem?_append_right (by omega), hyear]
    rfl
  have hweek : charAt t.isoformat 5 ≠ ofChar 'W' := by
    intro h
    have hmem : t.isoformat[5]? = some (ofChar 'W') := by
      rw [← h, charAt, List.getD_eq_getElem?_getD, List.getElem?_eq_getElem (by omega)]
      rfl
    have := (inStamp_isoformat t _ (List.mem_of_getElem? hmem)).2
    rw [val_ofChar] at this
    exact absurd this (by decide)
  rw [separatorIndex, if_neg (by omega), if_pos hdash, if_neg hweek]

/-- **A written datetime is scanned.** -/
theorem scanIso_isoformat (t : DateTime) :
    scanIso t.isoformat =
      some ((t.year, t.month, t.day), (t.hour, t.minute, t.second, t.microsecond), t.offset) := by
  have hlength := length_dateText t
  have hlong : t.isoformat.length = 11 + (clockText t ++ zoneText t).length := by
    rw [isoformat_eq, List.length_append, List.length_cons, hlength]
    omega
  have hsurrogate : ∀ c ∈ t.isoformat, isSurrogate c = false := by
    intro c hc
    have := (inStamp_isoformat t c hc).2
    simp only [isSurrogate, Bool.and_eq_false_iff, decide_eq_false_iff_not]
    omega
  have hdate : t.isoformat.take 10 = dateText t := by
    rw [isoformat_eq]
    exact List.take_left' hlength
  have htime : t.isoformat.drop 11 = clockText t ++ zoneText t := by
    rw [isoformat_eq, ← List.drop_drop (i := 1) (j := 10), List.drop_left' hlength]
    rfl
  rw [scanIso, if_neg (by omega), sanitize_eq_self hsurrogate]
  simp only [Option.bind_eq_bind, Option.bind_some, separatorIndex_isoformat, hdate,
    scanDate_dateText]
  rw [if_neg (by omega), htime, scanTime_clockText_zoneText]
  rfl

/-- **Every datetime is read back from its text.** -/
theorem fromisoformat_isoformat (py : Interpreter) (t : DateTime) :
    fromisoformat py t.isoformat = .ok t := by
  simp only [fromisoformat, scanIso_isoformat]
  rw [dif_pos t.offset_range, dif_pos t.year_range, dif_pos t.month_range, dif_pos t.day_range,
    dif_pos t.hour_range, dif_pos t.minute_range, dif_pos t.second_range,
    dif_pos t.microsecond_range]

/-- Two datetimes of one text are the same. -/
theorem isoformat_injective : Function.Injective DateTime.isoformat := by
  intro t t' h
  have py : Interpreter := ⟨0, fun _ => true⟩
  have hread := fromisoformat_isoformat py t
  rw [h, fromisoformat_isoformat] at hread
  exact (Except.ok.inj hread).symm

end Python
