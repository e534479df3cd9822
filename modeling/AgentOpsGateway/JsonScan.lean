import Mathlib.Data.List.TakeDrop
import AgentOpsGateway.JsonText

/-!
# A JSON Text and What Follows It

The scanner reads a text from the left and looks one character ahead at most, so a value that
shows its own end — a string, an array, an object — is read alike whatever text follows it. A
number or a constant is, where what follows it is none of its own characters.

## Main results

* `scanOnce_append`: **what is scanned of a text is scanned of every continuation of it**, and
  so is the use of too much stack.
-/

namespace Python

/-! ### Characters that end a number -/

/-- Whitespace, the comma and the closing brackets: what stands behind a value inside a
container. -/
def isStop (c : CodePoint) : Bool := isJsonSpace c || c = 0x2C || c = 0x5D || c = 0x7D

/-- Nothing, or a text that starts with a stop. -/
def Stops (s : Str) : Prop := ∀ c ∈ s.head?, isStop c = true

theorem stops_nil : Stops [] := fun _ h => by simp at h

theorem stops_cons {c : CodePoint} {s : Str} : Stops (c :: s) ↔ isStop c = true := by
  simp [Stops]

/-- What whitespace leaves over starts where the text does, or behind a stop. -/
theorem stops_of_skipSpace {s cs : Str} {c : CodePoint} (h : skipSpace s = c :: cs)
    (hc : isStop c = true) (t : Str) : Stops (s ++ t) := by
  cases s with
  | nil => simp [skipSpace] at h
  | cons d s =>
      rw [List.cons_append, stops_cons]
      by_cases hd : isJsonSpace d = true
      · simp [isStop, hd]
      · rw [Bool.not_eq_true] at hd
        rw [skipSpace_cons hd, List.cons.injEq] at h
        rwa [h.1]

/-- Whitespace is skipped alike in front of every continuation. -/
theorem skipSpace_append {s cs : Str} {c : CodePoint} (h : skipSpace s = c :: cs) (t : Str) :
    skipSpace (s ++ t) = c :: (cs ++ t) := by
  have hne : (s.dropWhile isJsonSpace).isEmpty = false := by
    rw [← skipSpace, h]
    rfl
  rw [skipSpace] at h
  rw [skipSpace, List.dropWhile_append, hne, h]
  rfl

/-! ### Strings -/

/-- What a scanner that puts text in front has scanned. -/
theorem prepend_eq_ok {out x rest : Str} {r : Except LoadsError (Str × Str)}
    (h : prepend out r = .ok (x, rest)) : ∃ y, r = .ok (y, rest) ∧ x = out ++ y := by
  cases r with
  | error e => simp [prepend, Except.map] at h
  | ok p =>
      obtain ⟨y, rest'⟩ := p
      simp only [prepend, Except.map, Except.ok.injEq, Prod.mk.injEq] at h
      obtain ⟨rfl, rfl⟩ := h
      exact ⟨y, rfl, rfl⟩

/-- A string literal is read alike whatever follows it. Induction along the scanner. -/
theorem scanString_append (t : Str) (hi : Option CodePoint) (s : Str) :
    ∀ {x rest : Str}, scanString hi s = .ok (x, rest) →
      scanString hi (s ++ t) = .ok (x, rest ++ t) := by
  fun_induction scanString hi s with
  | case1 => simp
  | case2 hi cs =>
      intro x rest h
      simp only [Except.ok.injEq, Prod.mk.injEq] at h
      obtain ⟨rfl, rfl⟩ := h
      rw [List.cons_append, scanString.eq_def]
      rfl
  | case3 => simp
  | case4 => simp
  | case5 hi a b c d rest' u hunit _ ih =>
      intro x rest h
      obtain ⟨y, hy, rfl⟩ := prepend_eq_ok h
      simp only [List.cons_append]
      rw [scanString.eq_def]
      simp [hunit, ih hy, prepend, Except.map]
  | case6 => simp
  | case7 => simp
  | case8 hi e es hu y hshort _ ih =>
      intro x rest h
      obtain ⟨z, hz, rfl⟩ := prepend_eq_ok h
      simp only [List.cons_append]
      rw [scanString.eq_def]
      simp [hu, hshort, ih hz, prepend, Except.map]
  | case9 => simp
  | case10 hi c cs hquote hbackslash hcontrol ih =>
      intro x rest h
      obtain ⟨y, hy, rfl⟩ := prepend_eq_ok h
      rw [List.cons_append, scanString.eq_def]
      simp [hquote, hbackslash, hcontrol, ih hy, prepend, Except.map]

/-! ### Numbers and constants -/

/-- Neither digit nor point: what does not go on with the digits in front of it. -/
def EndsDigits (s : Str) : Prop := ∀ c ∈ s.head?, isDigit c = false ∧ c ≠ 0x2E

theorem endsDigits_of_stops {s : Str} (hs : Stops s) : EndsDigits s := by
  intro c hc
  have hstop := hs c hc
  simp only [isStop, isJsonSpace, Bool.or_eq_true, decide_eq_true_eq] at hstop
  rcases hstop with (((rfl | rfl | rfl | rfl) | rfl) | rfl) | rfl <;> exact ⟨by decide, by decide⟩

/-- Digits are read alike where no digit follows them. -/
theorem spanDigits_append {s t : Str} (h : ∀ c ∈ ((spanDigits s).2 ++ t).head?, isDigit c = false) :
    spanDigits (s ++ t) = ((spanDigits s).1, (spanDigits s).2 ++ t) := by
  simp only [spanDigits, List.span_eq_takeWhile_dropWhile] at h ⊢
  induction s with
  | nil =>
      cases t with
      | nil => rfl
      | cons c t =>
          have hc : isDigit c = false := h c rfl
          simp [hc]
  | cons d s ih =>
      by_cases hd : isDigit d = true
      · simp only [List.cons_append, List.takeWhile_cons, List.dropWhile_cons, hd, if_true] at h ⊢
        obtain ⟨hfirst, hrest⟩ := Prod.mk.inj (ih h)
        rw [hfirst, hrest]
      · simp [hd]

/-- The letter that starts an exponent is neither digit nor point. -/
theorem endsDigits_of_exponent {c : CodePoint} (hc : c = 0x65 ∨ c = 0x45) (s : Str) :
    EndsDigits (c :: s) := by
  intro d hd
  obtain rfl : c = d := Option.some.inj hd
  rcases hc with rfl | rfl <;> exact ⟨by decide, by decide⟩

/-- The letter that starts an exponent does not end a number. -/
theorem not_stops_exponent {c : CodePoint} (hc : c = 0x65 ∨ c = 0x45) (s : Str) :
    ¬Stops (c :: s) := by
  rw [stops_cons]
  rcases hc with rfl | rfl <;> decide

/-- An exponent is read alike in front of a stop. -/
theorem scanExponent_append {s t : Str} (h : Stops ((scanExponent s).2 ++ t)) :
    scanExponent (s ++ t) = ((scanExponent s).1, (scanExponent s).2 ++ t) ∧
      EndsDigits (s ++ t) := by
  have hdigits : ∀ {u : Str}, Stops ((spanDigits u).2 ++ t) →
      spanDigits (u ++ t) = ((spanDigits u).1, (spanDigits u).2 ++ t) := fun hu =>
    spanDigits_append fun c hc => (endsDigits_of_stops hu c hc).1
  cases s with
  | nil =>
      refine ⟨?_, endsDigits_of_stops h⟩
      cases t with
      | nil => rfl
      | cons c t =>
          have hc : ¬(c = 0x65 ∨ c = 0x45) := fun hc => not_stops_exponent hc t h
          simp [scanExponent, hc]
  | cons e s =>
      by_cases he : e = 0x65 ∨ e = 0x45
      · refine ⟨?_, endsDigits_of_exponent he (s ++ t)⟩
        cases s with
        | nil => exact absurd h (by simpa [scanExponent, he] using not_stops_exponent he t)
        | cons sg s =>
            simp only [List.cons_append, scanExponent, if_pos he] at h ⊢
            by_cases hsign : sg = 0x2B ∨ sg = 0x2D
            · simp only [if_pos hsign] at h ⊢
              by_cases hnone : (spanDigits s).1 = []
              · rw [if_pos hnone] at h
                exact absurd h (not_stops_exponent he _)
              · rw [if_neg hnone] at h ⊢
                rw [hdigits h, if_neg hnone]
            · simp only [if_neg hsign] at h ⊢
              by_cases hnone : (spanDigits (sg :: s)).1 = []
              · rw [if_pos hnone] at h
                exact absurd h (not_stops_exponent he _)
              · rw [if_neg hnone] at h ⊢
                rw [← List.cons_append, hdigits h, if_neg hnone]
      · simp only [scanExponent, if_neg he] at h
        exact ⟨by simp [scanExponent, he], endsDigits_of_stops h⟩

/-- A fraction is read alike where neither digit nor point follows it. -/
theorem scanFraction_append {s t : Str} (h : EndsDigits ((scanFraction s).2 ++ t)) :
    scanFraction (s ++ t) = ((scanFraction s).1, (scanFraction s).2 ++ t) ∧
      ∀ c ∈ (s ++ t).head?, isDigit c = false := by
  have hnone : ∀ {u : Str}, EndsDigits u → scanFraction u = ([], u) ∧
      ∀ c ∈ u.head?, isDigit c = false := by
    intro u hu
    refine ⟨?_, fun c hc => (hu c hc).1⟩
    match u with
    | [] | [_] => rfl
    | p :: d :: u =>
        have hp : p ≠ 0x2E := (hu p rfl).2
        simp [scanFraction, hp]
  match s with
  | [] => exact hnone h
  | [p] => exact hnone h
  | p :: d :: s =>
      by_cases hpoint : p = 0x2E ∧ isDigit d = true
      · simp only [List.cons_append, scanFraction, if_pos hpoint] at h ⊢
        rw [spanDigits_append fun c hc => (h c hc).1]
        refine ⟨rfl, fun c hc => ?_⟩
        obtain rfl : p = c := Option.some.inj hc
        rw [hpoint.1]
        decide
      · simp only [scanFraction, if_neg hpoint] at h
        obtain ⟨-, hhead⟩ := hnone h
        exact ⟨by simp only [List.cons_append, scanFraction, if_neg hpoint], hhead⟩

/-- The sign of a number and what follows it. -/
def spanSign (s : Str) : Str × Str :=
  match s with
  | c :: cs => if c = 0x2D then ([c], cs) else ([], s)
  | [] => ([], [])

/-- The integer digits of a number and what follows them. -/
def spanWhole (s : Str) : Str × Str :=
  match s with
  | c :: cs => if c = 0x30 then ([c], cs) else spanDigits s
  | [] => ([], [])

/-- The number that its parts stand for. -/
def numberOf (sign digits frac expo : Str) : Except LoadsError Json :=
  if digits = [] then .error .valueError
  else if frac = [] ∧ expo = [] then
    if maxIntDigits < digits.length then .error .valueError
    else .ok (.int (if sign = [] then ofDigits digits else -(ofDigits digits : ℤ)))
  else .ok (.float (sign ++ digits ++ frac ++ expo))

/-- A number is scanned part by part. -/
theorem scanNumber_eq (s : Str) :
    scanNumber s =
      let digits := spanWhole (spanSign s).2
      let frac := scanFraction digits.2
      let expo := scanExponent frac.2
      (numberOf (spanSign s).1 digits.1 frac.1 expo.1).map fun v => (v, expo.2) := by
  set digits := spanWhole (spanSign s).2 with hdigits
  set frac := scanFraction digits.2 with hfrac
  set expo := scanExponent frac.2 with hexpo
  have hparts : scanNumber s =
      if digits.1 = [] then .error .valueError
      else if frac.1 = [] ∧ expo.1 = [] then
        if maxIntDigits < digits.1.length then .error .valueError
        else .ok (.int (if (spanSign s).1 = [] then ofDigits digits.1
          else -(ofDigits digits.1 : ℤ)), expo.2)
      else .ok (.float ((spanSign s).1 ++ digits.1 ++ frac.1 ++ expo.1), expo.2) := rfl
  rw [hparts]
  simp only [numberOf]
  split
  · rfl
  · split
    · split <;> rfl
    · rfl

/-- The integer digits are read alike where no digit follows them. -/
theorem spanWhole_append {s t : Str} (hs : (spanWhole s).1 ≠ [])
    (h : ∀ c ∈ ((spanWhole s).2 ++ t).head?, isDigit c = false) :
    spanWhole (s ++ t) = ((spanWhole s).1, (spanWhole s).2 ++ t) := by
  cases s with
  | nil => exact absurd rfl hs
  | cons c s =>
      by_cases hc : c = 0x30
      · simp [spanWhole, hc]
      · simp only [List.cons_append, spanWhole, if_neg hc] at h ⊢
        exact spanDigits_append h

/-- **A number is read alike in front of a stop.** -/
theorem scanNumber_append {s t rest : Str} {v : Json} (hs : scanNumber s = .ok (v, rest))
    (ht : Stops (rest ++ t)) : scanNumber (s ++ t) = .ok (v, rest ++ t) := by
  rw [scanNumber_eq] at hs ⊢
  simp only at hs ⊢
  set digits := spanWhole (spanSign s).2 with hdigits
  have hne : digits.1 ≠ [] := by
    intro hnone
    simp [numberOf, hnone, Except.map] at hs
  have hsign : spanSign (s ++ t) = ((spanSign s).1, (spanSign s).2 ++ t) := by
    cases s with
    | nil => exact absurd rfl hne
    | cons c s => by_cases hc : c = 0x2D <;> simp [spanSign, hc]
  have hrest : rest = (scanExponent (scanFraction digits.2).2).2 := by
    cases hv : numberOf (spanSign s).1 digits.1 (scanFraction digits.2).1
        (scanExponent (scanFraction digits.2).2).1 with
    | error e => simp [hv, Except.map] at hs
    | ok w =>
        simp only [hv, Except.map, Except.ok.injEq, Prod.mk.injEq] at hs
        exact hs.2.symm
  obtain ⟨hexpo, hends⟩ := scanExponent_append (hrest ▸ ht)
  obtain ⟨hfrac, hhead⟩ := scanFraction_append hends
  have hwhole : spanWhole ((spanSign s).2 ++ t) = (digits.1, digits.2 ++ t) :=
    spanWhole_append hne hhead
  rw [hsign, hwhole, hfrac, hexpo]
  simp only
  rw [hrest] at hs ⊢
  revert hs
  cases numberOf (spanSign s).1 digits.1 (scanFraction digits.2).1
    (scanExponent (scanFraction digits.2).2).1 <;> simp [Except.map]

/-- The text starts as a number does: with a digit, or with the sign and a digit. -/
def numberLike : Str → Bool
  | c :: d :: _ => isDigit c || (c = 0x2D && isDigit d)
  | [c] => isDigit c
  | [] => false

/-- What has been scanned as a number starts as one. -/
theorem numberLike_of_scanNumber {s rest : Str} {v : Json} (h : scanNumber s = .ok (v, rest)) :
    numberLike s = true := by
  rw [scanNumber_eq] at h
  have hne : (spanWhole (spanSign s).2).1 ≠ [] := by
    intro hnone
    simp [numberOf, hnone, Except.map] at h
  have hdigit : ∀ {c : CodePoint} {u : Str}, (spanWhole (c :: u)).1 ≠ [] → isDigit c = true := by
    intro c u hu
    by_cases hc : c = 0x30
    · rw [hc]
      decide
    · by_contra hnone
      simp [spanWhole, if_neg hc, spanDigits, List.span_eq_takeWhile_dropWhile, hnone] at hu
  match s with
  | [] => exact absurd rfl hne
  | [c] =>
      by_cases hc : c = 0x2D
      · exact absurd (by simp [spanSign, hc, spanWhole]) hne
      · exact hdigit (by simpa [spanSign, hc] using hne)
  | c :: d :: s =>
      by_cases hc : c = 0x2D
      · have hd : isDigit d = true := hdigit (by simpa [spanSign, hc] using hne)
        simp [numberLike, hc, hd]
      · have hdig : isDigit c = true := hdigit (by simpa [spanSign, hc] using hne)
        simp [numberLike, hdig]

/-- A text that starts as a number does starts with none of the constants. -/
theorem not_constant_of_numberLike {s t : Str} (hs : numberLike s = true) :
    ∀ p ∈ constants, ¬p.1.isPrefixOf (s ++ t) = true := by
  have hnames : constants.all (fun p => !numberLike p.1 && decide (2 ≤ p.1.length)) = true := by
    decide
  intro p hp hpre
  obtain ⟨hnot, hlen⟩ := Bool.and_eq_true_iff.mp (List.all_eq_true.mp hnames p hp)
  obtain ⟨u, hu⟩ := List.isPrefixOf_iff_prefix.mp hpre
  have hlike : numberLike (s ++ t) = true := by
    match s, hs with
    | [c], hs =>
        have hc : isDigit c = true := hs
        cases t <;> simp [numberLike, hc]
    | c :: d :: s, hs => exact hs
  match hname : p.1, hlen with
  | c :: d :: name, _ =>
      rw [← hu, hname] at hlike
      rw [hname, Bool.not_eq_true'] at hnot
      exact absurd hlike (by simpa [numberLike] using hnot)

/-- Where a constant stands at the front of a text, no other one stands there. -/
theorem find_constant_append {s t : Str} {p : Str × Json}
    (h : constants.find? (fun p => p.1.isPrefixOf s) = some p) :
    constants.find? (fun p => p.1.isPrefixOf (s ++ t)) = some p := by
  have hpre : p.1.isPrefixOf s = true :=
    List.find?_some (p := fun q : Str × Json => q.1.isPrefixOf s) h
  have hlonger : p.1.isPrefixOf (s ++ t) = true := by
    rw [List.isPrefixOf_iff_prefix] at hpre ⊢
    exact hpre.trans (List.prefix_append s t)
  obtain ⟨-, before, after, hsplit, hothers⟩ := List.find?_eq_some_iff_append.mp h
  refine List.find?_eq_some_iff_append.mpr ⟨hlonger, before, after, hsplit, fun q hq => ?_⟩
  -- of two constants at the front of one text one starts with the other
  have hapart : constants.all (fun q => constants.all fun p =>
      !(q.1.isPrefixOf p.1 || p.1.isPrefixOf q.1) || q.1 == p.1) = true := by decide
  have hmem : q ∈ constants ∧ p ∈ constants := by
    rw [hsplit]
    exact ⟨List.mem_append_left _ hq, by simp⟩
  have hqp := List.all_eq_true.mp (List.all_eq_true.mp hapart q hmem.1) p hmem.2
  rw [Bool.not_eq_true', ← Bool.not_eq_true]
  intro hqpre
  have hnot := hothers q hq
  rw [Bool.not_eq_true', ← Bool.not_eq_true] at hnot
  refine hnot ?_
  have hcomparable : q.1 <+: p.1 ∨ p.1 <+: q.1 :=
    List.prefix_or_prefix_of_prefix (List.isPrefixOf_iff_prefix.mp hqpre)
      (List.isPrefixOf_iff_prefix.mp hlonger)
  have hsame : q.1 = p.1 := by
    simp only [Bool.or_eq_true, Bool.not_eq_true', Bool.or_eq_false_iff, beq_iff_eq] at hqp
    rcases hqp with ⟨hq', hp'⟩ | hsame
    · rw [← List.isPrefixOf_iff_prefix, ← List.isPrefixOf_iff_prefix, hq', hp'] at hcomparable
      simp at hcomparable
    · exact hsame
  rw [hsame]
  exact hpre

/-- **A constant or a number is read alike in front of a stop.** -/
theorem scanAtom_append {s t rest : Str} {v : Json} (hs : scanAtom s = .ok (v, rest))
    (ht : Stops (rest ++ t)) : scanAtom (s ++ t) = .ok (v, rest ++ t) := by
  rw [scanAtom] at hs ⊢
  cases hfind : constants.find? fun p => p.1.isPrefixOf s with
  | some p =>
      obtain ⟨name, w⟩ := p
      rw [hfind] at hs
      simp only [Except.ok.injEq, Prod.mk.injEq] at hs
      obtain ⟨rfl, rfl⟩ := hs
      have hpre : name <+: s := List.isPrefixOf_iff_prefix.mp
        (List.find?_some (p := fun q : Str × Json => q.1.isPrefixOf s) hfind)
      rw [find_constant_append hfind]
      simp only
      rw [List.drop_append_of_le_length hpre.length_le]
  | none =>
      rw [hfind] at hs
      have hnone : constants.find? (fun p => p.1.isPrefixOf (s ++ t)) = none :=
        List.find?_eq_none.mpr (not_constant_of_numberLike (numberLike_of_scanNumber hs))
      rw [hnone]
      exact scanNumber_append hs ht

/-! ### Values -/

/-- The text of the value shows where it ends. -/
def Json.Delimited : Json → Prop
  | .str _ | .arr _ | .obj _ => True
  | .null | .bool _ | .int _ | .float _ => False

/-- What was scanned of a text is scanned of the text with `t` behind it, and so is the use
of too much stack. -/
structure Extends (t : Str) (r r' : Except LoadsError (Json × Str)) : Prop where
  value : ∀ {v : Json} {rest : Str}, r = .ok (v, rest) → v.Delimited ∨ Stops (rest ++ t) →
    r' = .ok (v, rest ++ t)
  stack : r = .error .recursionError → r' = .error .recursionError

theorem Extends.of_valueError (t : Str) (r' : Except LoadsError (Json × Str)) :
    Extends t (.error .valueError) r' :=
  ⟨fun h => by simp at h, fun h => by simp at h⟩

theorem Extends.of_recursionError (t : Str) :
    Extends t (.error .recursionError) (.error .recursionError) :=
  ⟨fun h => by simp at h, fun h => h⟩

theorem Extends.of_ok (t : Str) (v : Json) (rest : Str) :
    Extends t (.ok (v, rest)) (.ok (v, rest ++ t)) := by
  refine ⟨fun h _ => ?_, fun h => by simp at h⟩
  simp only [Except.ok.injEq, Prod.mk.injEq] at h
  obtain ⟨rfl, rfl⟩ := h
  rfl

theorem scanOnce_nil (fuel depth : ℕ) : scanOnce fuel depth [] = .error .valueError := by
  cases fuel <;> rfl

theorem scanItems_nil (fuel depth : ℕ) (acc : List Json) :
    scanItems fuel depth acc [] = .error .valueError := by
  cases fuel with
  | zero => rfl
  | succ fuel => rw [scanItems, scanOnce_nil]

theorem scanFields_nil (fuel depth : ℕ) (acc : List (Str × Json)) :
    scanFields fuel depth acc [] = .error .valueError := by
  cases fuel <;> rfl

/-- A string literal takes no level of the stack. Induction along the scanner. -/
theorem scanString_ne_recursionError (hi : Option CodePoint) (s : Str) :
    scanString hi s ≠ .error .recursionError := by
  have hprepend : ∀ {out : Str} {r : Except LoadsError (Str × Str)},
      r ≠ .error .recursionError → prepend out r ≠ .error .recursionError := by
    intro out r hr
    cases r with
    | error e => simpa [prepend, Except.map] using hr
    | ok p => simp [prepend, Except.map]
  fun_induction scanString hi s with
  | case1 | case2 | case3 | case4 | case6 | case7 | case9 => simp
  | case5 _ _ _ _ _ _ _ _ _ ih => exact hprepend ih
  | case8 _ _ _ _ _ _ _ ih => exact hprepend ih
  | case10 _ _ _ _ _ _ ih => exact hprepend ih

/-- What the scanner does behind a value inside a container: it closes the container, goes on
behind a comma, or fails. -/
def behindValue (close : CodePoint) (done : Json → Json)
    (more : Json → Str → Except LoadsError (Json × Str)) :
    Except LoadsError (Json × Str) → Except LoadsError (Json × Str)
  | .error e => .error e
  | .ok (v, rest) =>
    match skipSpace rest with
    | [] => .error .valueError
    | c :: cs =>
      if c = close then .ok (done v, cs)
      else if c = 0x2C then more v (skipSpace cs)
      else .error .valueError

theorem scanItems_eq (fuel depth : ℕ) (acc : List Json) (s : Str) :
    scanItems (fuel + 1) depth acc s =
      behindValue 0x5D (fun v => .arr (acc ++ [v])) (fun v => scanItems fuel depth (acc ++ [v]))
        (scanOnce fuel depth s) := by
  rw [scanItems]
  rfl

/-- A field whose key and colon have been read. -/
theorem scanFields_eq (fuel depth : ℕ) (acc : List (Str × Json)) {s key rest behind : Str}
    (hkey : scanString none s = .ok (key, rest)) (hcolon : skipSpace rest = 0x3A :: behind) :
    scanFields (fuel + 1) depth acc (0x22 :: s) =
      behindValue 0x7D (fun v => .obj (dictSet key v acc))
        (fun v => scanFields fuel depth (dictSet key v acc))
        (scanOnce fuel depth (skipSpace behind)) := by
  rw [scanFields]
  simp only [if_true, hkey, hcolon]
  rfl

/-- What the scanner does behind an opening bracket, at its own level of the stack. -/
def behindOpening (close : CodePoint) (empty : Json)
    (more : ℕ → Str → Except LoadsError (Json × Str)) (s : Str) :
    ℕ → Except LoadsError (Json × Str)
  | 0 => .error .recursionError
  | depth + 1 =>
    match skipSpace s with
    | [] => .error .valueError
    | c :: cs => if c = close then .ok (empty, cs) else more depth (c :: cs)

theorem scanOnce_cons (fuel depth : ℕ) (c : CodePoint) (s : Str) :
    scanOnce (fuel + 1) depth (c :: s) =
      if c = 0x22 then (scanString none s).map fun p => (.str p.1, p.2)
      else if c = 0x7B then
        behindOpening 0x7D (.obj []) (fun depth => scanFields fuel depth []) s depth
      else if c = 0x5B then
        behindOpening 0x5D (.arr []) (fun depth => scanItems fuel depth []) s depth
      else scanAtom (c :: s) := by
  rw [scanOnce.eq_def]
  cases depth <;> rfl

/-- A constant or a number does not show its end, and takes no level of the stack. -/
theorem scanAtom_cases (s : Str) : scanAtom s = .error .valueError ∨
    ∃ v rest, scanAtom s = .ok (v, rest) ∧ ¬v.Delimited := by
  rw [scanAtom]
  cases hfind : constants.find? fun p => p.1.isPrefixOf s with
  | some p =>
      obtain ⟨name, v⟩ := p
      refine Or.inr ⟨v, _, rfl, ?_⟩
      have hmem := List.mem_of_find?_eq_some hfind
      simp only [constants, List.mem_cons, Prod.mk.injEq, List.not_mem_nil, or_false] at hmem
      rcases hmem with ⟨-, rfl⟩ | ⟨-, rfl⟩ | ⟨-, rfl⟩ | ⟨-, rfl⟩ | ⟨-, rfl⟩ | ⟨-, rfl⟩ <;>
        exact not_false
  | none =>
      simp only [scanNumber_eq, numberOf]
      split
      · exact Or.inl rfl
      · split
        · split
          · exact Or.inl rfl
          · exact Or.inr ⟨_, _, rfl, not_false⟩
        · exact Or.inr ⟨_, _, rfl, not_false⟩

section Extend

variable {t : Str} {fuel fuel' : ℕ}

/-- A value inside a container is followed by a stop, so its end is known. -/
theorem Extends.behindValue {close : CodePoint} (hclose : isStop close = true)
    (done : Json → Json) {more more' : Json → Str → Except LoadsError (Json × Str)}
    (hnil : ∀ v, more v [] = .error .valueError)
    (hmore : ∀ v s, Extends t (more v s) (more' v (s ++ t)))
    {r r' : Except LoadsError (Json × Str)} (h : Extends t r r') :
    Extends t (behindValue close done more r) (behindValue close done more' r') := by
  cases r with
  | error e =>
      cases e with
      | valueError => exact .of_valueError t _
      | recursionError =>
          rw [h.stack rfl]
          exact .of_recursionError t
  | ok p =>
      obtain ⟨v, rest⟩ := p
      rw [Python.behindValue]
      cases hrest : skipSpace rest with
      | nil => exact .of_valueError t _
      | cons c cs =>
          have hnext : isStop c = true → r' = .ok (v, rest ++ t) := fun hc =>
            h.value rfl (Or.inr (stops_of_skipSpace hrest hc t))
          by_cases hend : c = close
          · rw [hnext (hend ▸ hclose), Python.behindValue]
            simp only [skipSpace_append hrest t, if_pos hend]
            exact .of_ok t _ _
          · by_cases hcomma : c = 0x2C
            · rw [hnext (by simp [isStop, hcomma]), Python.behindValue]
              simp only [skipSpace_append hrest t, if_neg hend, if_pos hcomma]
              cases hcs : skipSpace cs with
              | nil =>
                  rw [hnil]
                  exact .of_valueError t _
              | cons d ds =>
                  rw [skipSpace_append hcs t]
                  exact hmore v (d :: ds)
            · simp only [if_neg hend, if_neg hcomma]
              exact .of_valueError t _

variable (once : ∀ depth s, Extends t (scanOnce fuel depth s) (scanOnce fuel' depth (s ++ t)))
  (items : ∀ depth acc s,
    Extends t (scanItems fuel depth acc s) (scanItems fuel' depth acc (s ++ t)))
  (fields : ∀ depth acc s,
    Extends t (scanFields fuel depth acc s) (scanFields fuel' depth acc (s ++ t)))

include once items in
theorem scanItems_extends (depth : ℕ) (acc : List Json) (s : Str) :
    Extends t (scanItems (fuel + 1) depth acc s) (scanItems (fuel' + 1) depth acc (s ++ t)) := by
  rw [scanItems_eq, scanItems_eq]
  exact .behindValue (by decide) _ (fun v => scanItems_nil fuel depth _)
    (fun v s => items depth (acc ++ [v]) s) (once depth s)

include once fields in
theorem scanFields_extends (depth : ℕ) (acc : List (Str × Json)) (s : Str) :
    Extends t (scanFields (fuel + 1) depth acc s) (scanFields (fuel' + 1) depth acc (s ++ t)) := by
  cases s with
  | nil =>
      rw [scanFields_nil]
      exact .of_valueError t _
  | cons q s =>
      by_cases hquote : q = 0x22
      swap
      · rw [scanFields, if_neg hquote]
        exact .of_valueError t _
      subst hquote
      cases hkey : scanString none s with
      | error e =>
          cases e with
          | valueError =>
              rw [scanFields, if_pos rfl, hkey]
              exact .of_valueError t _
          | recursionError => exact absurd hkey (scanString_ne_recursionError none s)
      | ok p =>
          obtain ⟨key, rest⟩ := p
          cases hcolon : skipSpace rest with
          | nil =>
              rw [scanFields, if_pos rfl, hkey]
              simp only [hcolon]
              exact .of_valueError t _
          | cons colon behind =>
              by_cases h3A : colon = 0x3A
              swap
              · rw [scanFields, if_pos rfl, hkey]
                simp only [hcolon, if_neg h3A]
                exact .of_valueError t _
              subst h3A
              rw [List.cons_append, scanFields_eq fuel depth acc hkey hcolon,
                scanFields_eq fuel' depth acc (scanString_append t none s hkey)
                  (skipSpace_append hcolon t)]
              refine .behindValue (by decide) _ (fun v => scanFields_nil fuel depth _)
                (fun v s => fields depth (dictSet key v acc) s) ?_
              cases hbehind : skipSpace behind with
              | nil =>
                  rw [scanOnce_nil]
                  exact .of_valueError t _
              | cons d ds =>
                  rw [skipSpace_append hbehind t]
                  exact once depth (d :: ds)

/-- What stands behind an opening bracket is scanned alike, where what is in it is. -/
theorem Extends.behindOpening (close : CodePoint) (empty : Json)
    {more more' : ℕ → Str → Except LoadsError (Json × Str)}
    (hmore : ∀ depth s, Extends t (more depth s) (more' depth (s ++ t))) (s : Str) (depth : ℕ) :
    Extends t (behindOpening close empty more s depth)
      (behindOpening close empty more' (s ++ t) depth) := by
  cases depth with
  | zero => exact .of_recursionError t
  | succ depth =>
      rw [Python.behindOpening, Python.behindOpening]
      cases hs : skipSpace s with
      | nil => exact .of_valueError t _
      | cons c cs =>
          simp only [skipSpace_append hs t]
          by_cases hc : c = close
          · simp only [if_pos hc]
            exact .of_ok t _ _
          · simp only [if_neg hc]
            exact hmore depth (c :: cs)

include items fields in
theorem scanOnce_extends (depth : ℕ) (s : Str) :
    Extends t (scanOnce (fuel + 1) depth s) (scanOnce (fuel' + 1) depth (s ++ t)) := by
  cases s with
  | nil =>
      rw [scanOnce_nil]
      exact .of_valueError t _
  | cons c s =>
      rw [List.cons_append, scanOnce_cons, scanOnce_cons]
      by_cases hquote : c = 0x22
      · simp only [if_pos hquote]
        cases hs : scanString none s with
        | error e =>
            cases e with
            | valueError => exact .of_valueError t _
            | recursionError => exact absurd hs (scanString_ne_recursionError none s)
        | ok p =>
            rw [scanString_append t none s hs]
            exact .of_ok t _ _
      · simp only [if_neg hquote]
        by_cases hbrace : c = 0x7B
        · simp only [if_pos hbrace]
          exact .behindOpening _ _ (fun depth s => fields depth [] s) s depth
        · simp only [if_neg hbrace]
          by_cases hbracket : c = 0x5B
          · simp only [if_pos hbracket]
            exact .behindOpening _ _ (fun depth s => items depth [] s) s depth
          · simp only [if_neg hbracket]
            rcases scanAtom_cases (c :: s) with herror | ⟨v, rest, hv, hatom⟩
            · rw [herror]
              exact .of_valueError t _
            · refine ⟨fun {w rest'} hw hend => ?_, fun h => by simp [hv] at h⟩
              obtain ⟨rfl, rfl⟩ : v = w ∧ rest = rest' := by simpa [hv] using hw
              exact scanAtom_append hv (hend.resolve_left hatom)

end Extend

/-- A container that has been closed is a container. -/
theorem delimited_of_behindValue {close : CodePoint} {done : Json → Json}
    {more : Json → Str → Except LoadsError (Json × Str)} (hdone : ∀ v, (done v).Delimited)
    (hmore : ∀ {v w : Json} {s rest : Str}, more v s = .ok (w, rest) → w.Delimited)
    {r : Except LoadsError (Json × Str)} {w : Json} {rest : Str}
    (h : behindValue close done more r = .ok (w, rest)) : w.Delimited := by
  cases r with
  | error e => simp [behindValue] at h
  | ok p =>
      obtain ⟨v, behind⟩ := p
      rw [behindValue] at h
      cases hbehind : skipSpace behind with
      | nil => simp [hbehind] at h
      | cons c cs =>
          simp only [hbehind] at h
          by_cases hclose : c = close
          · rw [if_pos hclose, Except.ok.injEq, Prod.mk.injEq] at h
            exact h.1 ▸ hdone v
          · rw [if_neg hclose] at h
            by_cases hcomma : c = 0x2C
            · rw [if_pos hcomma] at h
              exact hmore h
            · simp [if_neg hcomma] at h

/-- What is scanned as the items of an array is an array. Induction on the fuel. -/
theorem delimited_of_scanItems {fuel depth : ℕ} {acc : List Json} {s rest : Str} {w : Json}
    (h : scanItems fuel depth acc s = .ok (w, rest)) : w.Delimited := by
  induction fuel generalizing acc s w rest with
  | zero => simp [scanItems] at h
  | succ fuel ih =>
      rw [scanItems_eq] at h
      exact delimited_of_behindValue (fun _ => by trivial) ih h

/-- What is scanned as the fields of an object is an object. Induction on the fuel. -/
theorem delimited_of_scanFields {fuel depth : ℕ} {acc : List (Str × Json)} {s rest : Str}
    {w : Json} (h : scanFields fuel depth acc s = .ok (w, rest)) : w.Delimited := by
  induction fuel generalizing acc s w rest with
  | zero => simp [scanFields] at h
  | succ fuel ih =>
      cases s with
      | nil => simp [scanFields_nil] at h
      | cons q s =>
          by_cases hquote : q = 0x22
          swap
          · simp [scanFields, hquote] at h
          subst hquote
          cases hkey : scanString none s with
          | error e => simp [scanFields, hkey] at h
          | ok p =>
              obtain ⟨key, behind⟩ := p
              cases hcolon : skipSpace behind with
              | nil => simp [scanFields, hkey, hcolon] at h
              | cons colon behind =>
                  by_cases h3A : colon = 0x3A
                  swap
                  · simp [scanFields, hkey, hcolon, h3A] at h
                  subst h3A
                  rw [scanFields_eq fuel depth acc hkey hcolon] at h
                  exact delimited_of_behindValue (fun _ => by trivial) ih h

/-- What is scanned behind an opening bracket is a container. -/
theorem delimited_of_bracket {fuel depth : ℕ} {c : CodePoint} {s rest : Str} {w : Json}
    (hc : c = 0x7B ∨ c = 0x5B) (h : scanOnce fuel depth (c :: s) = .ok (w, rest)) :
    w.Delimited := by
  have hopening : ∀ {close : CodePoint} {empty : Json}
      {more : ℕ → Str → Except LoadsError (Json × Str)}, empty.Delimited →
      (∀ {depth : ℕ} {s : Str}, more depth s = .ok (w, rest) → w.Delimited) →
      behindOpening close empty more s depth = .ok (w, rest) → w.Delimited := by
    intro close empty more hempty hmore h
    cases depth with
    | zero => simp [behindOpening] at h
    | succ depth =>
        rw [behindOpening] at h
        cases hs : skipSpace s with
        | nil => simp [hs] at h
        | cons d ds =>
            simp only [hs] at h
            by_cases hclose : d = close
            · rw [if_pos hclose, Except.ok.injEq, Prod.mk.injEq] at h
              exact h.1 ▸ hempty
            · rw [if_neg hclose] at h
              exact hmore h
  cases fuel with
  | zero => simp [scanOnce] at h
  | succ fuel =>
      rw [scanOnce_cons] at h
      rcases hc with rfl | rfl
      · rw [if_neg (by decide), if_pos rfl] at h
        exact hopening (by trivial) delimited_of_scanFields h
      · rw [if_neg (by decide), if_neg (by decide), if_pos rfl] at h
        exact hopening (by trivial) delimited_of_scanItems h

/-- **What is scanned of a text is scanned of every continuation of it**, with all the more
fuel. Induction on the fuel. -/
theorem scanOnce_append (t : Str) {fuel fuel' : ℕ} (hfuel : fuel ≤ fuel') (depth : ℕ) (s : Str) :
    Extends t (scanOnce fuel depth s) (scanOnce fuel' depth (s ++ t)) := by
  suffices h : (∀ depth s, Extends t (scanOnce fuel depth s) (scanOnce fuel' depth (s ++ t))) ∧
      (∀ depth acc s, Extends t (scanItems fuel depth acc s)
        (scanItems fuel' depth acc (s ++ t))) ∧
      ∀ depth acc s, Extends t (scanFields fuel depth acc s)
        (scanFields fuel' depth acc (s ++ t)) from h.1 depth s
  clear depth s
  induction fuel generalizing fuel' with
  | zero =>
      exact ⟨fun _ _ => .of_valueError t _, fun _ _ _ => .of_valueError t _,
        fun _ _ _ => .of_valueError t _⟩
  | succ fuel ih =>
      obtain ⟨fuel', rfl⟩ : ∃ k, fuel' = k + 1 := ⟨fuel' - 1, by omega⟩
      obtain ⟨once, items, fields⟩ := ih (Nat.le_of_succ_le_succ hfuel)
      exact ⟨scanOnce_extends items fields, scanItems_extends once items,
        scanFields_extends once fields⟩

end Python
