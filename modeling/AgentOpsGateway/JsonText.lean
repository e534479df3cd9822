import AgentOpsGateway.Json

/-!
# The Alphabet of JSON Text

The writer emits nothing but printable ASCII, whatever the strings hold. What a string
suffers on its way through the writer and the reader is the joining of surrogate pairs, so
it comes back unchanged exactly when it holds no such pair.

## Main results

* `printable_dumps`: **every character of a JSON text is printable ASCII.**
* `joinSurrogates_eq_self_iff`: a string survives the round trip exactly when no high
  surrogate in it is directly followed by a low one.
-/

namespace Python

/-! ### Printable text -/

/-- Printable ASCII, the space included. -/
def isPrintableAscii (c : CodePoint) : Bool := 0x20 ≤ c.val && c.val ≤ 0x7E

/-- The text is printable ASCII. -/
def Printable (s : Str) : Prop := ∀ c ∈ s, isPrintableAscii c = true

instance decidablePrintable (s : Str) : Decidable (Printable s) :=
  decidable_of_iff (s.all isPrintableAscii = true) List.all_eq_true

theorem printable_nil : Printable [] := fun _ h => absurd h List.not_mem_nil

theorem printable_append {s t : Str} : Printable (s ++ t) ↔ Printable s ∧ Printable t :=
  List.forall_mem_append

theorem printable_cons {c : CodePoint} {s : Str} :
    Printable (c :: s) ↔ isPrintableAscii c = true ∧ Printable s :=
  List.forall_mem_cons

/-- A part of a printable text is printable. -/
theorem Printable.of_sublist {s t : Str} (ht : Printable t) (h : s.Sublist t) : Printable s :=
  fun c hc => ht c (h.subset hc)

theorem printable_hexDigit : ∀ n < 16, isPrintableAscii (hexDigit n) = true := by decide

theorem printable_unitEscape (n : ℕ) : Printable (unitEscape n) := by
  have hlt : ∀ k, k % 16 < 16 := fun k => Nat.mod_lt k (by decide)
  simp only [unitEscape, printable_cons, printable_hexDigit _ (hlt _), true_and]
  exact ⟨by decide, by decide, printable_nil⟩

theorem printable_shortEscapes : ∀ p ∈ shortEscapes, isPrintableAscii p.2 = true :=
  List.all_eq_true.mp (by decide)

/-- Escaping leaves nothing but printable ASCII. -/
theorem printable_escapeChar (c : CodePoint) : Printable (escapeChar c) := by
  simp only [escapeChar]
  split
  · next e he =>
      obtain ⟨l₁, l₂, hmem, -⟩ := List.lookup_eq_some_iff.mp he
      have he' := printable_shortEscapes (c, e) (by simp [hmem])
      exact printable_cons.mpr ⟨by decide, printable_cons.mpr ⟨he', printable_nil⟩⟩
  · split
    · next hc => exact printable_cons.mpr ⟨by simpa [isPrintableAscii] using hc, printable_nil⟩
    · split
      · exact printable_unitEscape c.val
      · exact printable_append.mpr ⟨printable_unitEscape _, printable_unitEscape _⟩

theorem printable_encodeString (s : Str) : Printable (encodeString s) := by
  refine printable_append.mpr ⟨fun c hc => ?_, printable_cons.mpr ⟨by decide, printable_nil⟩⟩
  obtain ⟨d, -, hd⟩ := List.mem_flatMap.mp hc
  exact printable_escapeChar d c hd

theorem printable_decimalNat (n : ℕ) : Printable (decimalNat n) := by
  intro c hc
  have hdigit := isDigit_decimalNat n c hc
  rw [isDigit, Bool.and_eq_true, decide_eq_true_eq, decide_eq_true_eq] at hdigit
  rw [isPrintableAscii, Bool.and_eq_true, decide_eq_true_eq, decide_eq_true_eq]
  omega

theorem printable_decimal (n : ℤ) : Printable (decimal n) := by
  cases n with
  | ofNat n => exact printable_decimalNat n
  | negSucc n => exact printable_cons.mpr ⟨by decide, printable_decimalNat (n + 1)⟩

/-! ### Whole values -/

mutual

/-- Every float of a value is kept as a literal of printable ASCII, as the writer prints it. -/
def Json.FloatsPrinted : Json → Prop
  | .null | .bool _ | .int _ | .str _ => True
  | .float literal => Printable literal
  | .arr items => itemsFloatsPrinted items
  | .obj fields => fieldsFloatsPrinted fields

/-- The same of the items of an array. -/
def itemsFloatsPrinted : List Json → Prop
  | [] => True
  | v :: items => v.FloatsPrinted ∧ itemsFloatsPrinted items

/-- The same of the fields of an object. -/
def fieldsFloatsPrinted : List (Str × Json) → Prop
  | [] => True
  | (_, v) :: fields => v.FloatsPrinted ∧ fieldsFloatsPrinted fields

end

theorem printable_colon : Printable (lit ": ") := by decide

theorem printable_comma : Printable (lit ", ") := by decide

mutual

/-- **Every character of a JSON text is printable ASCII.** Induction on the value. -/
theorem printable_dumps : (v : Json) → v.FloatsPrinted → Printable (dumps v)
  | .null, _ => by decide
  | .bool true, _ => by decide
  | .bool false, _ => by decide
  | .int n, _ => printable_decimal n
  | .float _, h => h
  | .str s, _ => printable_cons.mpr ⟨by decide, printable_encodeString s⟩
  | .arr items, h => printable_cons.mpr ⟨by decide, printable_dumpsItems items h⟩
  | .obj fields, h => printable_cons.mpr ⟨by decide, printable_dumpsFields fields h⟩

theorem printable_dumpsItems : (items : List Json) → itemsFloatsPrinted items →
    Printable (dumpsItems items)
  | [], _ => by decide
  | [v], h => printable_append.mpr ⟨printable_dumps v h.1, by decide⟩
  | v :: w :: items, h =>
    printable_append.mpr ⟨printable_append.mpr ⟨printable_dumps v h.1, printable_comma⟩,
      printable_dumpsItems (w :: items) h.2⟩

theorem printable_dumpsFields : (fields : List (Str × Json)) → fieldsFloatsPrinted fields →
    Printable (dumpsFields fields)
  | [], _ => by decide
  | [(k, v)], h => by
      rw [dumpsFields, List.append_assoc, List.append_assoc]
      exact printable_cons.mpr ⟨by decide, printable_append.mpr ⟨printable_encodeString k,
        printable_append.mpr ⟨printable_colon, printable_append.mpr ⟨printable_dumps v h.1,
          by decide⟩⟩⟩⟩
  | (k, v) :: f :: fields, h => by
      rw [dumpsFields, List.append_assoc, List.append_assoc, List.append_assoc]
      exact printable_cons.mpr ⟨by decide, printable_append.mpr ⟨printable_encodeString k,
        printable_append.mpr ⟨printable_colon, printable_append.mpr ⟨printable_dumps v h.1,
          printable_append.mpr ⟨printable_comma, printable_dumpsFields (f :: fields) h.2⟩⟩⟩⟩⟩

end

/-- An object of strings has no floats. -/
theorem fieldsFloatsPrinted_strField (fields : List (Str × Str)) :
    fieldsFloatsPrinted (fields.map strField) := by
  induction fields with
  | nil => trivial
  | cons p fields ih => exact ⟨trivial, ih⟩

/-! ### Surrogate pairs -/

/-- Somewhere in the string a high surrogate is directly followed by a low one. -/
def hasSplitPair : Str → Bool
  | [] => false
  | [_] => false
  | h :: l :: s => (isHigh h && isLow l) || hasSplitPair (l :: s)

/-- A low surrogate is no high one. -/
theorem isHigh_of_isLow {c : CodePoint} (h : isLow c = true) : isHigh c = false := by
  simp only [isLow, Bool.and_eq_true, decide_eq_true_eq] at h
  simp only [isHigh, Bool.and_eq_false_iff, decide_eq_false_iff_not]
  omega

/-- A code point that is no high surrogate opens no pair. -/
theorem hasSplitPair_cons_of_not_high {c : CodePoint} (hc : isHigh c = false) (s : Str) :
    hasSplitPair (c :: s) = hasSplitPair s := by
  cases s with
  | nil => rfl
  | cons d s => simp [hasSplitPair, hc]

/-- No pair straddles a code point that is no surrogate. -/
theorem hasSplitPair_append_cons {c : CodePoint} (hh : isHigh c = false) (hl : isLow c = false)
    (a b : Str) : hasSplitPair (a ++ c :: b) = (hasSplitPair a || hasSplitPair b) := by
  induction a with
  | nil => simp [hasSplitPair, hasSplitPair_cons_of_not_high hh]
  | cons x a ih =>
      cases a with
      | nil => simp [hasSplitPair, hl, hasSplitPair_cons_of_not_high hh]
      | cons y a =>
          simp only [List.cons_append, hasSplitPair] at ih ⊢
          rw [ih, Bool.or_assoc]

/-- Either there is no pair and nothing changes, or a pair is joined and the string gets
shorter. Induction on the string, with the pending surrogate general. -/
theorem joinFrom_cases (hi : Option CodePoint) (hhi : ∀ h ∈ hi, isHigh h = true) (s : Str) :
    hasSplitPair (hi.toList ++ s) = false ∧ joinFrom hi s = hi.toList ++ s ∨
      hasSplitPair (hi.toList ++ s) = true ∧ (joinFrom hi s).length < (hi.toList ++ s).length := by
  induction s generalizing hi with
  | nil => cases hi <;> simp [joinFrom, hasSplitPair]
  | cons c s ih =>
      by_cases hhigh : isHigh c = true
      · have hlow : isLow c = false := by
          by_contra hlow
          simp [isHigh_of_isLow (Bool.not_eq_false _ ▸ hlow)] at hhigh
        have hrest := ih (some c) fun h hh => Option.some.inj hh ▸ hhigh
        cases hi with
        | none => simpa [joinFrom, pushUnit, hhigh] using hrest
        | some h => simpa [joinFrom, pushUnit, hhigh, hlow, hasSplitPair] using hrest
      · rw [Bool.not_eq_true] at hhigh
        have hrest := ih none fun h hh => absurd hh (by simp)
        simp only [Option.toList_none, List.nil_append] at hrest
        cases hi with
        | none =>
            simpa [joinFrom, pushUnit, hhigh, hasSplitPair_cons_of_not_high hhigh] using hrest
        | some h =>
            have hh : isHigh h = true := hhi h rfl
            by_cases hlow : isLow c = true
            · refine Or.inr ⟨by simp [hasSplitPair, hh, hlow], ?_⟩
              simp only [joinFrom, pushUnit, hlow, if_true, Option.toList_some]
              rcases hrest with ⟨-, heq⟩ | ⟨-, hlt⟩
              · simp [heq]
              · simp only [List.length_append, List.length_cons, List.length_nil]
                omega
            · simpa [joinFrom, pushUnit, hhigh, hlow, hasSplitPair, hh,
                hasSplitPair_cons_of_not_high hhigh] using hrest

/-- **A string survives the round trip exactly when it has no split pair.** -/
theorem joinSurrogates_eq_self_iff {s : Str} : joinSurrogates s = s ↔ hasSplitPair s = false := by
  have hcases := joinFrom_cases none (by simp) s
  simp only [Option.toList_none, List.nil_append] at hcases
  rcases hcases with ⟨hnone, heq⟩ | ⟨hpair, hlt⟩
  · exact iff_of_true heq hnone
  · refine iff_of_false (fun heq => ?_) (by simp [hpair])
    rw [joinSurrogates] at heq
    simp [heq] at hlt

/-- Printable text survives the round trip. -/
theorem joinSurrogates_of_printable {s : Str} (hs : Printable s) : joinSurrogates s = s := by
  refine joinSurrogates_eq_self fun c hc => ?_
  have := hs c hc
  simp only [isPrintableAscii, Bool.and_eq_true, decide_eq_true_eq] at this
  simp only [isHigh, Bool.and_eq_false_iff, decide_eq_false_iff_not]
  omega

/-! ### Separators stay where they are

Joining surrogate pairs neither makes nor breaks printable text, so it does not matter
whether a string is split before the round trip or after it. -/

section Separators

variable {sep : Str}

/-- Surrogates and what is made of them are no printable text. -/
theorem isPrintableAscii_of_le {c : CodePoint} (hc : 0xD800 ≤ c.val) :
    isPrintableAscii c = false := by
  simp only [isPrintableAscii, Bool.and_eq_false_iff, decide_eq_false_iff_not]
  omega

theorem le_of_isHigh {c : CodePoint} (hc : isHigh c = true) : 0xD800 ≤ c.val := by
  simp only [isHigh, Bool.and_eq_true, decide_eq_true_eq] at hc
  exact hc.1

theorem le_joinPair {h l : CodePoint} (hh : isHigh h = true) (hl : isLow l = true) :
    0xD800 ≤ (joinPair h l).val := by
  simp only [isHigh, Bool.and_eq_true, decide_eq_true_eq] at hh
  simp only [isLow, Bool.and_eq_true, decide_eq_true_eq] at hl
  rw [joinPair, Fin.val_ofNat, Nat.mod_eq_of_lt (by omega)]
  omega

/-- A printable code point is passed on behind what was pending. -/
theorem joinFrom_cons_of_printable {c : CodePoint} (hc : isPrintableAscii c = true)
    (hi : Option CodePoint) (s : Str) :
    joinFrom hi (c :: s) = hi.toList ++ c :: joinSurrogates s := by
  simp only [isPrintableAscii, Bool.and_eq_true, decide_eq_true_eq] at hc
  have hh : isHigh c = false := by
    simp only [isHigh, Bool.and_eq_false_iff, decide_eq_false_iff_not]
    omega
  have hl : isLow c = false := by
    simp only [isLow, Bool.and_eq_false_iff, decide_eq_false_iff_not]
    omega
  rw [joinFrom, pushUnit_of_not_surrogate hh hl, List.append_assoc]
  rfl

/-- What is read behind a pending surrogate does not start with printable text. -/
theorem joinFrom_some {h : CodePoint} (hh : isHigh h = true) (s : Str) :
    ∃ c t, joinFrom (some h) s = c :: t ∧ isPrintableAscii c = false := by
  have hpending := isPrintableAscii_of_le (le_of_isHigh hh)
  cases s with
  | nil => exact ⟨h, [], rfl, hpending⟩
  | cons c s =>
      by_cases hl : isLow c = true
      · refine ⟨joinPair h c, joinFrom none s, ?_, isPrintableAscii_of_le (le_joinPair hh hl)⟩
        simp [joinFrom, pushUnit, hl]
      · by_cases hc : isHigh c = true
        · exact ⟨h, _, by simp only [joinFrom, pushUnit, hl, hc, if_true]; rfl, hpending⟩
        · exact ⟨h, _, by simp only [joinFrom, pushUnit, hl, hc]; rfl, hpending⟩

/-- A separator is not found at a code point that is not printable. -/
theorem breakAt_cons_of_not_printable (hne : sep ≠ []) (hsep : Printable sep) {c : CodePoint}
    (hc : isPrintableAscii c = false) (s : Str) :
    breakAt sep (c :: s) = (breakAt sep s).map fun p => (c :: p.1, p.2) := by
  rw [breakAt, if_neg]
  intro hpre
  obtain ⟨d, sep', rfl⟩ := List.exists_cons_of_ne_nil hne
  obtain ⟨rfl, -⟩ := List.cons_prefix_cons.mp (List.isPrefixOf_iff_prefix.mp hpre)
  simp [(printable_cons.mp hsep).1] at hc

/-- The text starts with a separator before the joining exactly where it does after it, and
what follows is joined on its own. -/
theorem prefix_joinSurrogates (hsep : Printable sep) (s : Str) :
    (sep <+: joinSurrogates s ↔ sep <+: s) ∧
      (sep <+: s → (joinSurrogates s).drop sep.length = joinSurrogates (s.drop sep.length)) := by
  induction sep generalizing s with
  | nil => simp
  | cons d sep ih =>
      obtain ⟨hd, hsep⟩ := printable_cons.mp hsep
      cases s with
      | nil => simp [joinSurrogates, joinFrom]
      | cons c s =>
          by_cases hc : isPrintableAscii c = true
          · obtain ⟨hpre, hdrop⟩ := ih hsep s
            rw [joinSurrogates, joinFrom_cons_of_printable hc, Option.toList_none, List.nil_append,
              List.cons_prefix_cons, List.cons_prefix_cons, hpre]
            exact ⟨Iff.rfl, fun h => hdrop h.2⟩
          · have hdc : d ≠ c := by
              rintro rfl
              exact hc hd
            have hhead : ∃ c' t, joinSurrogates (c :: s) = c' :: t ∧
                isPrintableAscii c' = false := by
              rw [Bool.not_eq_true] at hc
              by_cases hh : isHigh c = true
              · have hsome : joinSurrogates (c :: s) = joinFrom (some c) s := by
                  simp [joinSurrogates, joinFrom, pushUnit, hh]
                exact hsome ▸ joinFrom_some hh s
              · exact ⟨c, joinFrom none s, by simp [joinSurrogates, joinFrom, pushUnit, hh], hc⟩
            obtain ⟨c', t, hct, hc'⟩ := hhead
            have hdc' : d ≠ c' := by
              rintro rfl
              simp [hd] at hc'
            rw [hct, List.cons_prefix_cons, List.cons_prefix_cons]
            exact ⟨iff_of_false (fun h => hdc' h.1) fun h => hdc h.1, fun h => absurd h.1 hdc⟩

/-- A separator is not found in text that is not printable. -/
theorem breakAt_append_of_not_printable (hne : sep ≠ []) (hsep : Printable sep) {u : Str}
    (hu : ∀ c ∈ u, isPrintableAscii c = false) (s : Str) :
    breakAt sep (u ++ s) = (breakAt sep s).map fun p => (u ++ p.1, p.2) := by
  induction u with
  | nil => simp
  | cons c u ih =>
      rw [List.cons_append, breakAt_cons_of_not_printable hne hsep (hu c List.mem_cons_self),
        ih fun d hd => hu d (List.mem_cons_of_mem c hd), Option.map_map]
      rfl

/-- What is put out behind a pending surrogate for a code point that is not printable is not
printable either, and only high surrogates are pending. -/
theorem pushUnit_of_not_printable {hi : Option CodePoint} (hhi : ∀ h ∈ hi, isHigh h = true)
    {c : CodePoint} (hc : isPrintableAscii c = false) :
    (∀ d ∈ (pushUnit hi c).1, isPrintableAscii d = false) ∧
      ∀ h ∈ (pushUnit hi c).2, isHigh h = true := by
  cases hi with
  | none => by_cases hh : isHigh c = true <;> simp [pushUnit, hh, hc]
  | some h =>
      have hpending := isPrintableAscii_of_le (le_of_isHigh (hhi h rfl))
      by_cases hl : isLow c = true
      · simp [pushUnit, hl, isPrintableAscii_of_le (le_joinPair (hhi h rfl) hl)]
      · by_cases hh : isHigh c = true <;> simp [pushUnit, hl, hh, hc, hpending]

/-- **A string is split at a printable separator before the round trip as after it.**
Induction on the string, with the pending surrogate general. -/
theorem breakAt_joinFrom (hne : sep ≠ []) (hsep : Printable sep) (s : Str) :
    ∀ hi : Option CodePoint, (∀ h ∈ hi, isHigh h = true) → breakAt sep (joinFrom hi s) =
      (breakAt sep s).map fun p => (joinFrom hi p.1, joinSurrogates p.2) := by
  have hpending : ∀ hi : Option CodePoint, (∀ h ∈ hi, isHigh h = true) →
      ∀ c ∈ hi.toList, isPrintableAscii c = false := fun hi hhi c hc =>
    isPrintableAscii_of_le (le_of_isHigh (hhi c (Option.mem_toList.mp hc)))
  have hnil : breakAt sep [] = none := by rw [breakAt, if_neg hne]
  induction s with
  | nil =>
      intro hi hhi
      have hpass := breakAt_append_of_not_printable hne hsep (hpending hi hhi) []
      rw [List.append_nil, hnil] at hpass
      rw [joinFrom, hpass, hnil]
      rfl
  | cons c s ih =>
      intro hi hhi
      by_cases hc : isPrintableAscii c = true
      · obtain ⟨hpre, hdrop⟩ := prefix_joinSurrogates hsep (c :: s)
        have hjoin : joinSurrogates (c :: s) = c :: joinSurrogates s :=
          joinFrom_cons_of_printable hc none s
        rw [joinFrom_cons_of_printable hc,
          breakAt_append_of_not_printable hne hsep (hpending hi hhi), breakAt, breakAt, ← hjoin]
        simp only [List.isPrefixOf_iff_prefix, hpre]
        by_cases hstart : sep <+: c :: s
        · rw [if_pos hstart, if_pos hstart, hdrop hstart]
          simp [joinFrom]
        · rw [if_neg hstart, if_neg hstart, joinSurrogates, ih none (by simp), Option.map_map,
            Option.map_map, Option.map_map]
          congr 1
          funext p
          simp only [Function.comp_apply, joinFrom_cons_of_printable hc]
          rfl
      · rw [Bool.not_eq_true] at hc
        obtain ⟨hout, hpend⟩ := pushUnit_of_not_printable hhi hc
        rw [joinFrom, breakAt_append_of_not_printable hne hsep hout, ih _ hpend,
          breakAt_cons_of_not_printable hne hsep hc, Option.map_map, Option.map_map]
        rfl

/-- The same from the start of a string. -/
theorem breakAt_joinSurrogates (hne : sep ≠ []) (hsep : Printable sep) (s : Str) :
    breakAt sep (joinSurrogates s) =
      (breakAt sep s).map fun p => (joinSurrogates p.1, joinSurrogates p.2) :=
  breakAt_joinFrom hne hsep s none (by simp)

end Separators

end Python
