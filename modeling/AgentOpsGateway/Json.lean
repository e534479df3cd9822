import AgentOpsGateway.PyStr

/-!
# JSON as the Python Standard Library Reads and Writes It

`dumps` and `loads` are `json.dumps` and `json.loads` with default options: the writer
escapes everything outside printable ASCII, the reader follows the C scanner clause for
clause.

* Integers are exact. A float is kept as its decimal literal: the text `repr` prints for a
  value on its way out, the literal as read on its way in.
* A literal of more than `4300` digits is a `ValueError`, the interpreter's limit on
  integer strings.
* Every nested container takes one level of the interpreter's stack. `loads` is given the
  number of levels left and raises `RecursionError` beyond it: the one exception of the
  reader that is not a `ValueError`.
* Objects are the dictionaries of `PyStr`.

The scanner recurses on a fuel that `loads` sets to twice the length of the text, which
every nested call uses up slower than it consumes the text.

## Main results

* `scanString_encodeString`: the reader inverts the writer on string literals, up to the
  joining of surrogate pairs (`joinSurrogates`), the one change a string suffers.
* `loads_dumps_strings`: **the round trip** of an object whose values are strings.
-/

namespace Python

/-- A JSON value as Python represents it. -/
inductive Json
  | null
  | bool (b : Bool)
  | int (n : ℤ)
  | float (literal : Str)
  | str (s : Str)
  | arr (items : List Json)
  | obj (fields : List (Str × Json))

/-- What `json.loads` can raise. -/
inductive LoadsError
  | valueError
  | recursionError
  deriving DecidableEq

/-! ### The writer -/

/-- A lowercase hexadecimal digit. -/
def hexDigit (n : ℕ) : CodePoint := Fin.ofNat 0x110000 (if n < 10 then 0x30 + n else 0x57 + n)

/-- The escape `\uXXXX` of a 16-bit unit. -/
def unitEscape (n : ℕ) : Str :=
  [0x5C, 0x75, hexDigit (n / 4096 % 16), hexDigit (n / 256 % 16), hexDigit (n / 16 % 16),
    hexDigit (n % 16)]

/-- The one-letter escapes: the code points written as a backslash and a letter. -/
def shortEscapes : List (CodePoint × CodePoint) :=
  [(0x5C, 0x5C), (0x22, 0x22), (0x08, 0x62), (0x0C, 0x66), (0x0A, 0x6E), (0x0D, 0x72),
    (0x09, 0x74)]

/-- One code point inside a JSON string literal, with `ensure_ascii`. -/
def escapeChar (c : CodePoint) : Str :=
  match shortEscapes.lookup c with
  | some e => [0x5C, e]
  | none =>
    if 0x20 ≤ c.val ∧ c.val ≤ 0x7E then [c]
    else if c.val < 0x10000 then unitEscape c.val
    else unitEscape (0xD800 + (c.val - 0x10000) / 1024) ++
      unitEscape (0xDC00 + (c.val - 0x10000) % 1024)

/-- A string literal without its opening quote. -/
def encodeString (s : Str) : Str := s.flatMap escapeChar ++ [0x22]

mutual

/-- `json.dumps(v)` with default options. -/
def dumps : Json → Str
  | .null => lit "null"
  | .bool true => lit "true"
  | .bool false => lit "false"
  | .int n => decimal n
  | .float literal => literal
  | .str s => 0x22 :: encodeString s
  | .arr items => 0x5B :: dumpsItems items
  | .obj fields => 0x7B :: dumpsFields fields

/-- The items of an array and its closing bracket. -/
def dumpsItems : List Json → Str
  | [] => [0x5D]
  | [v] => dumps v ++ [0x5D]
  | v :: w :: items => dumps v ++ lit ", " ++ dumpsItems (w :: items)

/-- The fields of an object and its closing brace. -/
def dumpsFields : List (Str × Json) → Str
  | [] => [0x7D]
  | [(k, v)] => 0x22 :: encodeString k ++ lit ": " ++ dumps v ++ [0x7D]
  | (k, v) :: f :: fields =>
    0x22 :: encodeString k ++ lit ": " ++ dumps v ++ lit ", " ++ dumpsFields (f :: fields)

end

/-! ### The reader -/

/-- The whitespace the scanner skips. -/
def isJsonSpace (c : CodePoint) : Bool := c = 0x20 ∨ c = 0x09 ∨ c = 0x0A ∨ c = 0x0D

/-- Skip whitespace. -/
def skipSpace (s : Str) : Str := s.dropWhile isJsonSpace

/-- The value of a hexadecimal digit, either case. -/
def hexVal (c : CodePoint) : Option ℕ :=
  if 0x30 ≤ c.val ∧ c.val ≤ 0x39 then some (c.val - 0x30)
  else if 0x61 ≤ c.val ∧ c.val ≤ 0x66 then some (c.val - 0x57)
  else if 0x41 ≤ c.val ∧ c.val ≤ 0x46 then some (c.val - 0x37)
  else none

/-- The 16-bit unit written by four hexadecimal digits. -/
def hexUnit (a b c d : CodePoint) : Option CodePoint := do
  let a ← hexVal a
  let b ← hexVal b
  let c ← hexVal c
  let d ← hexVal d
  pure (Fin.ofNat 0x110000 (((a * 16 + b) * 16 + c) * 16 + d))

/-- The code point a one-letter escape stands for. -/
def shortEscapeOf (e : CodePoint) : Option CodePoint :=
  (shortEscapes.find? fun p => p.2 = e).map Prod.fst <|> if e = 0x2F then some 0x2F else none

/-- A high surrogate. -/
def isHigh (c : CodePoint) : Bool := 0xD800 ≤ c.val && c.val ≤ 0xDBFF

/-- A low surrogate. -/
def isLow (c : CodePoint) : Bool := 0xDC00 ≤ c.val && c.val ≤ 0xDFFF

/-- The code point a surrogate pair stands for. -/
def joinPair (h l : CodePoint) : CodePoint :=
  Fin.ofNat 0x110000 (0x10000 + (h.val - 0xD800) * 1024 + (l.val - 0xDC00))

/-- Put a code point read from a literal behind the high surrogate that is still waiting
for its low one, and return the new pending surrogate. -/
def pushUnit (hi : Option CodePoint) (u : CodePoint) : Str × Option CodePoint :=
  match hi with
  | none => if isHigh u then ([], some u) else ([u], none)
  | some h =>
    if isLow u then ([joinPair h u], none)
    else if isHigh u then ([h], some u)
    else ([h, u], none)

/-- Put code points in front of the text a scanner returns. -/
def prepend (out : Str) (r : Except LoadsError (Str × Str)) : Except LoadsError (Str × Str) :=
  r.map fun p => (out ++ p.1, p.2)

/-- `scanstring`: the rest of a string literal and what follows it. `hi` is a high
surrogate just read as an escape; it is joined with a low one when that comes next, also
as an escape. -/
def scanString (hi : Option CodePoint) : Str → Except LoadsError (Str × Str)
  | [] => .error .valueError
  | c :: cs =>
    if c = 0x22 then .ok (hi.toList, cs)
    else if c = 0x5C then
      match cs with
      | [] => .error .valueError
      | e :: es =>
        if e = 0x75 then
          match es with
          | a :: b :: c :: d :: rest =>
            match hexUnit a b c d with
            | none => .error .valueError
            | some u => prepend (pushUnit hi u).1 (scanString (pushUnit hi u).2 rest)
          | _ => .error .valueError
        else
          match shortEscapeOf e with
          | none => .error .valueError
          | some x => prepend (hi.toList ++ [x]) (scanString none es)
    else if c.val < 0x20 then .error .valueError
    else prepend (hi.toList ++ [c]) (scanString none cs)

/-- The digits at the front of a text and what follows them. -/
def spanDigits (s : Str) : Str × Str := s.span isDigit

/-- The fraction of a number, where a digit follows the point. -/
def scanFraction (s : Str) : Str × Str :=
  match s with
  | p :: d :: rest =>
    if p = 0x2E ∧ isDigit d then (p :: d :: (spanDigits rest).1, (spanDigits rest).2) else ([], s)
  | _ => ([], s)

/-- The exponent of a number; the scanner backtracks when no digit ends it. -/
def scanExponent (s : Str) : Str × Str :=
  match s with
  | e :: rest =>
    if e = 0x65 ∨ e = 0x45 then
      match rest with
      | sg :: rest' =>
        if sg = 0x2B ∨ sg = 0x2D then
          if (spanDigits rest').1 = [] then ([], s)
          else (e :: sg :: (spanDigits rest').1, (spanDigits rest').2)
        else if (spanDigits rest).1 = [] then ([], s)
        else (e :: (spanDigits rest).1, (spanDigits rest).2)
      | [] => ([], s)
    else ([], s)
  | [] => ([], s)

/-- `_match_number`: an optional sign, the integer digits (a leading zero stands alone),
then a fraction and an exponent; either of these makes it a float. -/
def scanNumber (s : Str) : Except LoadsError (Json × Str) :=
  let (sign, body) : Str × Str :=
    match s with
    | c :: cs => if c = 0x2D then ([c], cs) else ([], s)
    | [] => ([], [])
  let (digits, rest) : Str × Str :=
    match body with
    | c :: cs => if c = 0x30 then ([c], cs) else spanDigits body
    | [] => ([], [])
  if digits = [] then .error .valueError
  else
    let (frac, rest) := scanFraction rest
    let (expo, rest) := scanExponent rest
    if frac = [] ∧ expo = [] then
      if maxIntDigits < digits.length then .error .valueError
      else .ok (.int (if sign = [] then ofDigits digits else -(ofDigits digits : ℤ)), rest)
    else .ok (.float (sign ++ digits ++ frac ++ expo), rest)

/-- The constants of the scanner. -/
def constants : List (Str × Json) :=
  [(lit "null", .null), (lit "true", .bool true), (lit "false", .bool false),
    (lit "NaN", .float (lit "NaN")), (lit "Infinity", .float (lit "Infinity")),
    (lit "-Infinity", .float (lit "-Infinity"))]

/-- A constant or a number. -/
def scanAtom (s : Str) : Except LoadsError (Json × Str) :=
  match constants.find? fun p => p.1.isPrefixOf s with
  | some (name, v) => .ok (v, s.drop name.length)
  | none => scanNumber s

mutual

/-- `scan_once`: one JSON value at the front of a text and what follows it. -/
def scanOnce : ℕ → ℕ → Str → Except LoadsError (Json × Str)
  | 0, _, _ => .error .valueError
  | _ + 1, _, [] => .error .valueError
  | fuel + 1, depth, c :: cs =>
    if c = 0x22 then (scanString none cs).map fun p => (.str p.1, p.2)
    else if c = 0x7B then
      match depth with
      | 0 => .error .recursionError
      | depth + 1 =>
        match skipSpace cs with
        | [] => .error .valueError
        | d :: ds =>
          if d = 0x7D then .ok (.obj [], ds) else scanFields fuel depth [] (d :: ds)
    else if c = 0x5B then
      match depth with
      | 0 => .error .recursionError
      | depth + 1 =>
        match skipSpace cs with
        | [] => .error .valueError
        | d :: ds =>
          if d = 0x5D then .ok (.arr [], ds) else scanItems fuel depth [] (d :: ds)
    else scanAtom (c :: cs)

/-- The items of an array from the start of one of them, `acc` being those read before. -/
def scanItems : ℕ → ℕ → List Json → Str → Except LoadsError (Json × Str)
  | 0, _, _, _ => .error .valueError
  | fuel + 1, depth, acc, s =>
    match scanOnce fuel depth s with
    | .error e => .error e
    | .ok (v, rest) =>
      match skipSpace rest with
      | [] => .error .valueError
      | c :: cs =>
        if c = 0x5D then .ok (.arr (acc ++ [v]), cs)
        else if c = 0x2C then scanItems fuel depth (acc ++ [v]) (skipSpace cs)
        else .error .valueError

/-- The fields of an object from the start of a key, `acc` being the `dict` so far. -/
def scanFields : ℕ → ℕ → List (Str × Json) → Str → Except LoadsError (Json × Str)
  | 0, _, _, _ => .error .valueError
  | _ + 1, _, _, [] => .error .valueError
  | fuel + 1, depth, acc, q :: s =>
    if q = 0x22 then
      match scanString none s with
      | .error e => .error e
      | .ok (key, rest) =>
        match skipSpace rest with
        | [] => .error .valueError
        | colon :: rest =>
          if colon = 0x3A then
            match scanOnce fuel depth (skipSpace rest) with
            | .error e => .error e
            | .ok (v, rest) =>
              match skipSpace rest with
              | [] => .error .valueError
              | c :: cs =>
                if c = 0x7D then .ok (.obj (dictSet key v acc), cs)
                else if c = 0x2C then scanFields fuel depth (dictSet key v acc) (skipSpace cs)
                else .error .valueError
          else .error .valueError
    else .error .valueError

end

/-- `json.loads(s)` with `depth` levels of the interpreter's stack left. -/
def loads (depth : ℕ) (s : Str) : Except LoadsError Json :=
  if s.head? = some 0xFEFF then .error .valueError
  else
    match scanOnce (2 * s.length + 2) depth (skipSpace s) with
    | .error e => .error e
    | .ok (v, rest) => if skipSpace rest = [] then .ok v else .error .valueError

/-! ### String literals are read back -/

/-- The text a sequence of 16-bit units and code points stands for, `hi` being a high
surrogate that is still waiting for its low one. -/
def joinFrom (hi : Option CodePoint) : Str → Str
  | [] => hi.toList
  | c :: s => (pushUnit hi c).1 ++ joinFrom (pushUnit hi c).2 s

/-- A string with every adjacent pair of a high and a low surrogate joined: what becomes
of a string that is written as JSON and read back. -/
def joinSurrogates (s : Str) : Str := joinFrom none s

/-- A string without high surrogates is left alone. -/
theorem joinSurrogates_eq_self {s : Str} (h : ∀ c ∈ s, isHigh c = false) :
    joinSurrogates s = s := by
  induction s with
  | nil => rfl
  | cons c s ih =>
      have hc : isHigh c = false := h c List.mem_cons_self
      have hs := ih fun d hd => h d (List.mem_cons_of_mem c hd)
      simp only [joinSurrogates, joinFrom, pushUnit, hc] at hs ⊢
      exact congrArg _ hs

theorem hexVal_hexDigit : ∀ n < 16, hexVal (hexDigit n) = some n := by decide

/-- The four digits of a unit escape are read back. -/
theorem hexUnit_hexDigit {n : ℕ} (hn : n < 0x10000) :
    hexUnit (hexDigit (n / 4096 % 16)) (hexDigit (n / 256 % 16)) (hexDigit (n / 16 % 16))
      (hexDigit (n % 16)) = some (Fin.ofNat 0x110000 n) := by
  have hlt : ∀ k, k % 16 < 16 := fun k => Nat.mod_lt k (by decide)
  simp only [hexUnit, hexVal_hexDigit _ (hlt _), bind, Option.bind_some, Option.pure_def]
  congr 2
  omega

/-- A unit escape is read as its unit. -/
theorem scanString_unitEscape (hi : Option CodePoint) {n : ℕ} (hn : n < 0x10000) (s : Str) :
    scanString hi (unitEscape n ++ s) =
      prepend (pushUnit hi (Fin.ofNat 0x110000 n)).1
        (scanString (pushUnit hi (Fin.ofNat 0x110000 n)).2 s) := by
  simp only [unitEscape, List.cons_append, List.nil_append]
  rw [scanString.eq_def]
  simp [hexUnit_hexDigit hn]

/-- The pending surrogate and a code point that is no surrogate are both put out. -/
theorem pushUnit_of_not_surrogate {c : CodePoint} (hh : isHigh c = false)
    (hl : isLow c = false) (hi : Option CodePoint) : pushUnit hi c = (hi.toList ++ [c], none) := by
  cases hi <;> simp [pushUnit, hh, hl]

/-- The shapes an escaped code point takes. -/
theorem escapeChar_cases (c : CodePoint) :
    (∃ e, escapeChar c = [0x5C, e] ∧ e ≠ 0x75 ∧ shortEscapeOf e = some c ∧ c.val < 0x80) ∨
    (escapeChar c = [c] ∧ c ≠ 0x22 ∧ c ≠ 0x5C ∧ 0x20 ≤ c.val ∧ c.val < 0x80) ∨
    (escapeChar c = unitEscape c.val ∧ c.val < 0x10000) ∨
    (escapeChar c = unitEscape (0xD800 + (c.val - 0x10000) / 1024) ++
      unitEscape (0xDC00 + (c.val - 0x10000) % 1024) ∧ 0x10000 ≤ c.val) := by
  cases hl : shortEscapes.lookup c with
  | some e =>
      refine Or.inl ⟨e, by simp only [escapeChar, hl], ?_⟩
      have hmem : (c, e) ∈ shortEscapes := by
        obtain ⟨l₁, l₂, heq, -⟩ := List.lookup_eq_some_iff.mp hl
        simp [heq]
      revert hmem
      clear hl
      simp only [shortEscapes, List.mem_cons, Prod.mk.injEq, List.not_mem_nil, or_false]
      rintro (⟨rfl, rfl⟩ | ⟨rfl, rfl⟩ | ⟨rfl, rfl⟩ | ⟨rfl, rfl⟩ | ⟨rfl, rfl⟩ | ⟨rfl, rfl⟩ |
        ⟨rfl, rfl⟩) <;> decide
  | none =>
      have hne : ∀ e, (c, e) ∉ shortEscapes := fun e he => by
        rw [List.lookup_eq_none_iff] at hl
        exact absurd (hl _ he) (by simp)
      by_cases hp : 0x20 ≤ c.val ∧ c.val ≤ 0x7E
      · refine Or.inr (Or.inl ⟨by simp only [escapeChar, hl, if_pos hp], ?_, ?_, hp.1, by omega⟩)
        · rintro rfl
          exact hne 0x22 (by decide)
        · rintro rfl
          exact hne 0x5C (by decide)
      · by_cases hb : c.val < 0x10000
        · exact Or.inr (Or.inr (Or.inl ⟨by simp only [escapeChar, hl, if_neg hp, if_pos hb], hb⟩))
        · exact Or.inr (Or.inr (Or.inr
            ⟨by simp only [escapeChar, hl, if_neg hp, if_neg hb], by omega⟩))

/-- **One escaped code point** is read as that code point behind the pending surrogate. -/
theorem scanString_escapeChar (hi : Option CodePoint) (c : CodePoint) (s : Str) :
    scanString hi (escapeChar c ++ s) =
      prepend (pushUnit hi c).1 (scanString (pushUnit hi c).2 s) := by
  rcases escapeChar_cases c with ⟨e, he, hu, hs, hlt⟩ | ⟨he, hq, hb, h20, hlt⟩ | ⟨he, hlt⟩ |
    ⟨he, hge⟩
  · rw [he, pushUnit_of_not_surrogate (by simp [isHigh]; omega) (by simp [isLow]; omega)]
    simp only [List.cons_append, List.nil_append]
    rw [scanString.eq_def]
    simp [hu, hs]
  · rw [he, pushUnit_of_not_surrogate (by simp [isHigh]; omega) (by simp [isLow]; omega)]
    simp only [List.cons_append, List.nil_append]
    rw [scanString.eq_def]
    simp [hq, hb, Nat.not_lt.mpr h20]
  · have hc : Fin.ofNat 0x110000 c.val = c := by simp
    rw [he, scanString_unitEscape hi hlt, hc]
  · have hc := c.isLt
    have hhigh : isHigh (Fin.ofNat 0x110000 (0xD800 + (c.val - 0x10000) / 1024)) = true := by
      simp only [isHigh, Fin.val_ofNat, Bool.and_eq_true, decide_eq_true_eq]
      omega
    have hlow : isLow (Fin.ofNat 0x110000 (0xD800 + (c.val - 0x10000) / 1024)) = false := by
      simp only [isLow, Fin.val_ofNat, Bool.and_eq_false_iff, decide_eq_false_iff_not]
      omega
    have hlow' : isLow (Fin.ofNat 0x110000 (0xDC00 + (c.val - 0x10000) % 1024)) = true := by
      simp only [isLow, Fin.val_ofNat, Bool.and_eq_true, decide_eq_true_eq]
      omega
    have hjoin : joinPair (Fin.ofNat 0x110000 (0xD800 + (c.val - 0x10000) / 1024))
        (Fin.ofNat 0x110000 (0xDC00 + (c.val - 0x10000) % 1024)) = c := by
      apply Fin.ext
      simp only [joinPair, Fin.val_ofNat]
      omega
    rw [he, List.append_assoc, scanString_unitEscape hi (by omega),
      pushUnit_of_not_surrogate (c := c) (by simp [isHigh]; omega) (by simp [isLow]; omega)]
    have hpush : pushUnit hi (Fin.ofNat 0x110000 (0xD800 + (c.val - 0x10000) / 1024)) =
        (hi.toList, some (Fin.ofNat 0x110000 (0xD800 + (c.val - 0x10000) / 1024))) := by
      cases hi <;> simp only [pushUnit, hhigh, hlow] <;> rfl
    rw [hpush, scanString_unitEscape _ (by omega)]
    simp only [pushUnit, hlow', hjoin, if_true]
    cases scanString none s <;> simp [prepend, Except.map]

/-- **The reader inverts the writer on string literals**, up to the joining of surrogate
pairs. Induction on the string, with the pending surrogate of the scanner general. -/
theorem scanString_encodeString (hi : Option CodePoint) (s rest : Str) :
    scanString hi (encodeString s ++ rest) = .ok (joinFrom hi s, rest) := by
  induction s generalizing hi with
  | nil =>
      simp only [encodeString, List.flatMap_nil, List.nil_append, List.cons_append]
      rw [scanString.eq_def]
      simp [joinFrom]
  | cons c s ih =>
      have happ : encodeString (c :: s) ++ rest = escapeChar c ++ (encodeString s ++ rest) := by
        simp [encodeString]
      rw [happ, scanString_escapeChar, ih]
      simp [prepend, Except.map, joinFrom]

/-! ### Objects of strings are read back -/

/-- A field whose value is a string. -/
def strField (p : Str × Str) : Str × Json := (p.1, .str p.2)

/-- A field as it is read back. -/
def joinField (p : Str × Str) : Str × Json := (joinSurrogates p.1, .str (joinSurrogates p.2))

/-- A string literal is one JSON value. -/
theorem scanOnce_str (fuel depth : ℕ) (s rest : Str) :
    scanOnce (fuel + 1) depth (0x22 :: (encodeString s ++ rest)) =
      .ok (.str (joinSurrogates s), rest) := by
  simp [scanOnce, scanString_encodeString, joinSurrogates, Except.map]

/-- Nothing is skipped in front of a code point that is not whitespace. -/
theorem skipSpace_cons {c : CodePoint} (h : isJsonSpace c = false) (s : Str) :
    skipSpace (c :: s) = c :: s := by
  simp [skipSpace, h]

/-- The separator after a field is skipped up to the next key. -/
theorem skipSpace_space (s : Str) : skipSpace (0x20 :: s) = skipSpace s := by
  simp [skipSpace, show isJsonSpace 0x20 = true by decide]

/-- One field of an object is read, and the scanner stands at what follows it. -/
theorem scanFields_field (fuel depth : ℕ) (acc : List (Str × Json)) (p : Str × Str) {c : CodePoint}
    (hc : isJsonSpace c = false) (s : Str) :
    scanFields (fuel + 2) depth acc
        (0x22 :: (encodeString p.1 ++ lit ": " ++ dumps (.str p.2) ++ c :: s)) =
      if c = 0x7D then
        .ok (.obj (dictSet (joinField p).1 (joinField p).2 acc), s)
      else if c = 0x2C then
        scanFields (fuel + 1) depth (dictSet (joinField p).1 (joinField p).2 acc) (skipSpace s)
      else .error .valueError := by
  have hcolon : lit ": " = [0x3A, 0x20] := by decide
  have h3A : isJsonSpace 0x3A = false := by decide
  have h22 : isJsonSpace 0x22 = false := by decide
  simp only [hcolon, dumps, List.append_assoc, List.cons_append, List.nil_append]
  rw [scanFields.eq_def]
  simp [scanString_encodeString, skipSpace_cons h3A, skipSpace_space, skipSpace_cons h22,
    skipSpace_cons hc, scanOnce_str, joinField, joinSurrogates]

/-- The fields of an object of strings are read into the `dict` one by one. Induction on
the fields; each takes one unit of fuel. -/
theorem scanFields_dumpsFields (depth : ℕ) (rest : Str) (fs : List (Str × Str)) :
    ∀ (p : Str × Str) (fuel : ℕ) (acc : List (Str × Json)), fs.length ≤ fuel →
      scanFields (fuel + 2) depth acc (dumpsFields ((p :: fs).map strField) ++ rest) =
        .ok (.obj (((p :: fs).map joinField).foldl (fun d q => dictSet q.1 q.2 d) acc), rest) := by
  have hcomma : lit ", " = [0x2C, 0x20] := by decide
  induction fs with
  | nil =>
      intro p fuel acc _
      have hfield := scanFields_field fuel depth acc p (c := 0x7D) (by decide) rest
      simp only [if_true] at hfield
      simpa [dumpsFields, strField] using hfield
  | cons q fs ih =>
      intro p fuel acc hfuel
      obtain ⟨fuel, rfl⟩ : ∃ k, fuel = k + 1 := ⟨fuel - 1, by simp at hfuel; omega⟩
      have hkey : skipSpace (0x20 :: (dumpsFields ((q :: fs).map strField) ++ rest)) =
          dumpsFields ((q :: fs).map strField) ++ rest := by
        rw [skipSpace_space]
        cases fs <;> simp [dumpsFields, strField, skipSpace_cons (show isJsonSpace 0x22 = false by
          decide)]
      have hfield := scanFields_field (fuel + 1) depth acc p (c := 0x2C) (by decide)
        (0x20 :: (dumpsFields ((q :: fs).map strField) ++ rest))
      rw [if_neg (by decide), if_pos rfl, hkey,
        ih q fuel (dictSet (joinField p).1 (joinField p).2 acc) (by simp at hfuel; omega)] at hfield
      simpa [dumpsFields, strField, hcomma] using hfield

/-- An object has at least as many characters as fields. -/
theorem length_le_length_dumpsFields (fs : List (Str × Json)) :
    fs.length ≤ (dumpsFields fs).length := by
  induction fs with
  | nil => simp
  | cons p fs ih =>
      cases fs with
      | nil => simp [dumpsFields]
      | cons q fs =>
          simp only [dumpsFields, List.length_cons, List.length_append] at ih ⊢
          omega

/-- **The round trip of an object of strings**: it is read back, with surrogate pairs
joined in its keys and values, by any reader that has one level of the stack left. -/
theorem loads_dumps_strings (depth : ℕ) (fields : List (Str × Str)) :
    loads (depth + 1) (dumps (.obj (fields.map strField))) =
      .ok (.obj (dictOf (fields.map joinField))) := by
  have h7B : isJsonSpace 0x7B = false := by decide
  have hstart : ∀ s : Str, ((0x7B : CodePoint) :: s).head? ≠ some 0xFEFF := by
    intro s
    rw [List.head?_cons]
    decide
  simp only [dumps, loads, if_neg (hstart _), skipSpace_cons h7B]
  cases fields with
  | nil => rfl
  | cons p fs =>
      have h22 : ∃ t, dumpsFields ((p :: fs).map strField) = 0x22 :: t := by
        cases fs <;> exact ⟨_, rfl⟩
      obtain ⟨t, ht⟩ := h22
      have hlen : fs.length + 1 ≤ (dumpsFields ((p :: fs).map strField)).length := by
        simpa using length_le_length_dumpsFields ((p :: fs).map strField)
      have hscan := scanFields_dumpsFields depth [] fs p
        (2 * (dumpsFields ((p :: fs).map strField)).length + 1) [] (by omega)
      rw [List.append_nil, ht] at hscan
      rw [ht, scanOnce.eq_def]
      simp only [List.length_cons] at hscan ⊢
      simp only [skipSpace_cons (show isJsonSpace 0x22 = false by decide)]
      rw [if_neg (by decide), if_pos trivial]
      simp only [if_neg (show (0x22 : CodePoint) ≠ 0x7D by decide)]
      rw [show 2 * (t.length + 1 + 1) + 1 = 2 * (t.length + 1) + 1 + 2 by omega, hscan]
      simp [skipSpace, dictOf]

end Python
