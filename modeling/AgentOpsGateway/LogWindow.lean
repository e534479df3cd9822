import AgentOpsGateway.IsoFormat
import AgentOpsGateway.OpsLogs

/-!
# The Window of a Log Search

`query_logs` is for the log lines of `[start, end]`. Its loop counts hours up from the start
rounded down, so where the start is not on the hour the first line is one from before the
window, if it matches the query. And it takes each mark's successor before it looks at the
end, so a window that reaches the last hour of the calendar ends in an `OverflowError`.
Everywhere else the search returns what it is for.

## Main results

* `mem_marks`: the loop visits the hours from a mark up to the end, each once.
* `window_exact_iff`: **the search returns the window exactly where** the end is before the
  last hour there is, and the start is on the hour or the line of its hour does not match.
-/

namespace AgentOpsGateway

open Python

/-! ### The window -/

/-- A time on the hour. -/
def OnTheHour (t : DateTime) : Prop := t.minute = 0 ∧ t.second = 0 ∧ t.microsecond = 0

section Window

variable {σ : Type*} (rng : Random σ) (lower : Str → Str) (query : Str)

/-- The line of a mark contains the query, in any case. -/
def matchesQuery (mark : DateTime) : Bool := occursIn (lower query) (lower (logLine rng mark))

/-- **What a log search is for**: it returns the lines of the hour marks between two times, in
the offset of the start, whose line contains the query; each once, in order, and counted. -/
def ExactWindow (start stop : DateTime) (outcome : Except LogsError LogsResult) : Prop :=
  ∃ (r : LogsResult) (marks : List DateTime), outcome = .ok r ∧
    (marks.Pairwise fun a b => a.instant < b.instant) ∧
    (∀ mark, mark ∈ marks ↔
      (OnTheHour mark ∧ mark.offset = start.offset) ∧
        (start.instant ≤ mark.instant ∧ mark.instant ≤ stop.instant) ∧
        matchesQuery rng lower query mark = true) ∧
    r.lines = marks.map (logLine rng) ∧ r.lines.Nodup ∧ r.count = r.lines.length

end Window

/-- The wall clock of the last hour mark, 23:00 on 31 December 9999. -/
def lastHour : ℤ := maxOrdinal * dayMicros - hourMicros

/-- The end of a window is before the last hour mark in the offset of its start. -/
def BeforeLastHour (start stop : DateTime) : Prop := stop.instant + start.offset.getD 0 < lastHour

/-! ### Lines -/

/-- A line starts with the text of its mark. -/
theorem logLine_eq {σ : Type*} (rng : Random σ) (mark : DateTime) :
    ∃ rest, logLine rng mark = mark.isoformat ++ ofChar ' ' :: rest := by
  have hspace : ∀ rest, lit " " ++ rest = ofChar ' ' :: rest := fun rest => rfl
  simp only [logLine, List.append_assoc, hspace]
  exact ⟨_, rfl⟩

/-- **A line tells its mark.** -/
theorem logLine_injective {σ : Type*} (rng : Random σ) : Function.Injective (logLine rng) := by
  have hstamp : ∀ (t : DateTime) (rest : Str),
      (t.isoformat ++ ofChar ' ' :: rest).takeWhile (fun c => c ≠ ofChar ' ') = t.isoformat := by
    intro t rest
    have hinside : ∀ c ∈ t.isoformat, decide (c ≠ ofChar ' ') = true := by
      intro c hc
      have hlow := (inStamp_isoformat t c hc).1
      have hne : c ≠ ofChar ' ' := by
        rintro rfl
        rw [val_ofChar] at hlow
        exact absurd hlow (by decide)
      exact decide_eq_true hne
    rw [List.takeWhile_append_of_pos hinside, List.takeWhile_cons_of_neg (by simp),
      List.append_nil]
  intro a b h
  obtain ⟨restA, hA⟩ := logLine_eq rng a
  obtain ⟨restB, hB⟩ := logLine_eq rng b
  rw [hA, hB] at h
  have := congrArg (List.takeWhile fun c => c ≠ ofChar ' ') h
  rw [hstamp, hstamp] at this
  exact isoformat_injective this

/-! ### Marks -/

/-- A time is on the hour where its wall clock is. -/
theorem onTheHour_iff (t : DateTime) : OnTheHour t ↔ t.wallMicros % hourMicros = 0 := by
  have hminute := t.minute_range
  have hsecond := t.second_range
  have hmicrosecond := t.microsecond_range
  simp only [OnTheHour, DateTime.wallMicros, hourMicros]
  simp only [dayMicros]
  omega

/-- The hour of a time is on the hour. -/
theorem onTheHour_floorHour (t : DateTime) : OnTheHour t.floorHour := ⟨rfl, rfl, rfl⟩

/-- A time on the hour is the start of its hour. -/
theorem OnTheHour.floorHour_eq {t : DateTime} (h : OnTheHour t) : t.floorHour = t := by
  obtain ⟨hminute, hsecond, hmicrosecond⟩ := h
  cases t
  simp only [DateTime.floorHour] at *
  subst hminute hsecond hmicrosecond
  rfl

section Loop

variable {σ : Type*} {rng : Random σ} {lower : Str → Str} {query : Str} {stop : DateTime}

/-- The loop adds the lines of the marks it visits that match. -/
theorem lines_of_hourLoop (ts : DateTime) (lines : List Str) {lines' : List Str}
    (h : (hourLoop rng lower query stop ts lines).2 = .ok lines') :
    lines' = lines ++ ((hourLoop rng lower query stop ts lines).1.filter
      (matchesQuery rng lower query)).map (logLine rng) := by
  fun_induction hourLoop rng lower query stop ts lines with
  | case1 ts lines hle hnone => simp at h
  | case2 ts lines hle next hnext hinstant rest ih =>
      have hline : addLine rng lower query ts lines =
          lines ++ ([ts].filter (matchesQuery rng lower query)).map (logLine rng) := by
        simp only [addLine, List.filter_cons, List.filter_nil, matchesQuery]
        split
        · next hmatch => simp [hmatch]
        · next hmatch => simp [hmatch]
      change lines' = lines ++ (([ts] ++ rest.1).filter _).map _
      rw [List.filter_append, List.map_append, ← List.append_assoc, ← hline]
      exact ih h
  | case3 ts lines hlt =>
      obtain rfl := Except.ok.inj h
      simp

/-- No mark is before the first. -/
theorem le_of_mem_marks (ts : DateTime) (lines : List Str) {mark : DateTime}
    (h : mark ∈ (hourLoop rng lower query stop ts lines).1) : ts.instant ≤ mark.instant := by
  fun_induction hourLoop rng lower query stop ts lines with
  | case1 ts lines hle hnone =>
      obtain rfl := List.mem_singleton.mp h
      exact le_refl _
  | case2 ts lines hle next hnext hinstant rest ih =>
      rcases List.mem_cons.mp h with rfl | h
      · exact le_refl _
      · have := ih h
        simp only [hourMicros] at hinstant
        omega
  | case3 ts lines hlt => simp at h

/-- The marks are visited in order. -/
theorem pairwise_marks (ts : DateTime) (lines : List Str) :
    (hourLoop rng lower query stop ts lines).1.Pairwise fun a b => a.instant < b.instant := by
  fun_induction hourLoop rng lower query stop ts lines with
  | case1 ts lines hle hnone => simp
  | case2 ts lines hle next hnext hinstant rest ih =>
      refine List.pairwise_cons.mpr ⟨fun mark hmark => ?_, ih⟩
      have := le_of_mem_marks next _ hmark
      simp only [hourMicros] at hinstant
      omega
  | case3 ts lines hlt => simp

/-- **A loop that ends has visited the hours from its mark up to the end.** -/
theorem mem_marks (ts : DateTime) (lines : List Str) {lines' : List Str}
    (h : (hourLoop rng lower query stop ts lines).2 = .ok lines') (mark : DateTime) :
    mark ∈ (hourLoop rng lower query stop ts lines).1 ↔
      (∃ k : ℕ, mark.wallMicros = ts.wallMicros + k * hourMicros) ∧ mark.offset = ts.offset ∧
        mark.instant ≤ stop.instant := by
  fun_induction hourLoop rng lower query stop ts lines with
  | case1 ts lines hle hnone => simp at h
  | case2 ts lines hle next hnext hinstant rest ih =>
      obtain ⟨hwall, hoffset⟩ := DateTime.add_eq_some hnext
      rw [List.mem_cons, ih h, hwall, hoffset]
      constructor
      · rintro (rfl | ⟨⟨k, hk⟩, hmark⟩)
        · exact ⟨⟨0, by simp⟩, rfl, hle⟩
        · refine ⟨⟨k + 1, ?_⟩, hmark⟩
          push_cast
          rw [hk]
          ring
      · rintro ⟨⟨k, hk⟩, hmark⟩
        cases k with
        | zero =>
            left
            exact DateTime.eq_of_wallMicros (by simpa using hk) hmark.1
        | succ k =>
            right
            refine ⟨⟨k, ?_⟩, hmark⟩
            rw [hk]
            push_cast
            ring
  | case3 ts lines hlt =>
      simp only [List.not_mem_nil, false_iff, not_and]
      rintro ⟨k, hk⟩ hoffset hle
      have : ts.instant ≤ mark.instant := by
        simp only [DateTime.instant, hoffset, hk, hourMicros]
        omega
      omega

/-- **When the loop ends**: from an hour mark on, where the end is before the last hour. -/
theorem ok_hourLoop_iff (ts : DateTime) (lines : List Str) (hts : OnTheHour ts) :
    (∃ lines', (hourLoop rng lower query stop ts lines).2 = .ok lines') ↔
      (ts.instant ≤ stop.instant → BeforeLastHour ts stop) := by
  fun_induction hourLoop rng lower query stop ts lines with
  | case1 ts lines hle hnone =>
      have hover : ¬ts.wallMicros + hourMicros < maxOrdinal * dayMicros := by
        intro hlt
        have hnonneg := ts.wallMicros_nonneg
        have hsome : (ts.add hourMicros).isSome :=
          DateTime.add_isSome (by simp only [hourMicros]; omega) hlt
        simp [hnone] at hsome
      simp only [reduceCtorEq, exists_false, false_iff, Classical.not_imp]
      refine ⟨hle, ?_⟩
      simp only [BeforeLastHour, lastHour, DateTime.instant] at hle ⊢
      omega
  | case2 ts lines hle next hnext hinstant rest ih =>
      obtain ⟨hwall, hoffset⟩ := DateTime.add_eq_some hnext
      rw [onTheHour_iff] at hts
      have hnextHour : next.wallMicros % hourMicros = 0 := by
        rw [hwall]
        simp only [hourMicros] at hts ⊢
        omega
      rw [ih ((onTheHour_iff next).mpr hnextHour)]
      have hlast := next.wallMicros_lt
      simp only [BeforeLastHour, hoffset]
      refine ⟨fun h _ => ?_, fun h _ => h hle⟩
      by_cases hstop : next.instant ≤ stop.instant
      · exact h hstop
      · simp only [DateTime.instant, hoffset] at hstop
        simp only [DateTime.instant]
        simp only [lastHour, hourMicros, maxOrdinal, dayMicros] at hnextHour hlast ⊢
        push_cast at hlast ⊢
        omega
  | case3 ts lines hlt => simp [hlt]

end Loop

/-! ### The search -/

section Search

variable {σ : Type*} (rng : Random σ) (lower : Str → Str) {py : Interpreter}
  {query start stop : Str} {t₁ t₂ : DateTime}

/-- A search returns where its loop ends. -/
theorem queryLogs_ok_iff (ht₁ : fromisoformat py start = .ok t₁)
    (ht₂ : fromisoformat py stop = .ok t₂) (hle : t₁.instant ≤ t₂.instant) (r : LogsResult) :
    (queryLogs py rng lower query start stop).2 = .ok r ↔
      (hourLoop rng lower query (assumeUtc t₂) (assumeUtc t₁).floorHour []).2 = .ok r.lines ∧
        r.count = r.lines.length := by
  obtain ⟨lines, count⟩ := r
  rw [queryLogs_eq ht₁ ht₂ hle]
  dsimp only
  cases (hourLoop rng lower query (assumeUtc t₂) (assumeUtc t₁).floorHour []).2 with
  | error e => simp [Except.map]
  | ok lines' =>
      simp only [Except.map, Except.ok.injEq, LogsResult.mk.injEq]
      constructor
      · rintro ⟨rfl, rfl⟩
        exact ⟨rfl, rfl⟩
      · rintro ⟨rfl, rfl⟩
        exact ⟨rfl, rfl⟩

/-- The marks of the window, and the start rounded down: every hour from there on to the end
is a mark of the window, but for the first where the start is not on the hour. -/
theorem hour_iff {mark : DateTime} (t₁ t₂ : DateTime) :
    ((∃ k : ℕ, mark.wallMicros = t₁.floorHour.wallMicros + k * hourMicros) ∧
        mark.offset = t₁.floorHour.offset ∧ mark.instant ≤ t₂.instant) ↔
      (OnTheHour mark ∧ mark.offset = t₁.offset) ∧ t₁.floorHour.instant ≤ mark.instant ∧
        mark.instant ≤ t₂.instant := by
  have hfloor := (onTheHour_iff t₁.floorHour).mp (onTheHour_floorHour t₁)
  rw [onTheHour_iff]
  have hoffset : t₁.floorHour.offset = t₁.offset := rfl
  constructor
  · rintro ⟨⟨k, hk⟩, hmark, hle⟩
    refine ⟨⟨?_, hmark⟩, ?_, hle⟩
    · simp only [hourMicros] at hfloor hk ⊢
      omega
    · simp only [DateTime.instant, hk, hmark, hourMicros]
      omega
  · rintro ⟨⟨hhour, hmark⟩, hge, hle⟩
    refine ⟨⟨((mark.wallMicros - t₁.floorHour.wallMicros) / hourMicros).toNat, ?_⟩, hmark, hle⟩
    simp only [DateTime.instant, hmark, hoffset] at hge
    simp only [hourMicros] at hfloor hhour ⊢
    omega

/-- A mark from the rounded start on is in the window, or it is the rounded start. -/
theorem start_le_iff {t mark : DateTime} (hmark : OnTheHour mark ∧ mark.offset = t.offset)
    (hge : t.floorHour.instant ≤ mark.instant) :
    t.instant ≤ mark.instant ↔ OnTheHour t ∨ mark ≠ t.floorHour := by
  obtain ⟨hhour, hoffset⟩ := hmark
  have hrest := t.floorHour_instant.2
  by_cases ht : OnTheHour t
  · rw [ht.floorHour_eq] at hge
    simp [ht, hge]
  · have hfloor := (onTheHour_iff t.floorHour).mp (onTheHour_floorHour t)
    rw [onTheHour_iff] at hhour ht
    have hearlier := t.floorHour_instant.1
    have hfloorOffset : t.floorHour.offset = t.offset := rfl
    simp only [DateTime.instant, hoffset, hfloorOffset] at hge hrest hearlier ⊢
    simp only [hourMicros] at hfloor hhour ht
    constructor
    · intro hle
      right
      rintro rfl
      omega
    · rintro (hon | hne)
      · exact absurd ((onTheHour_iff t).mp hon) ht
      · have hwall : mark.wallMicros ≠ t.floorHour.wallMicros :=
          fun h => hne (DateTime.eq_of_wallMicros h hoffset)
        omega

variable {rng lower}

/-- A search that returns its window has an end before the last hour mark. -/
theorem beforeLastHour_of_exactWindow (ht₁ : fromisoformat py start = .ok t₁)
    (ht₂ : fromisoformat py stop = .ok t₂) (hle : t₁.instant ≤ t₂.instant)
    (h : ExactWindow rng lower query (assumeUtc t₁) (assumeUtc t₂)
      (queryLogs py rng lower query start stop).2) :
    BeforeLastHour (assumeUtc t₁) (assumeUtc t₂) := by
  obtain ⟨r, marks, hr, -⟩ := h
  have hok := ((queryLogs_ok_iff rng lower ht₁ ht₂ hle r).mp hr).1
  exact (ok_hourLoop_iff _ _ (onTheHour_floorHour (assumeUtc t₁))).mp ⟨_, hok⟩
    ((assumeUtc t₁).floorHour_instant.1.trans hle)

/-- A search that returns its window has no line from before a start that is not on the hour. -/
theorem onTheHour_or_of_exactWindow (ht₁ : fromisoformat py start = .ok t₁)
    (ht₂ : fromisoformat py stop = .ok t₂) (hle : t₁.instant ≤ t₂.instant)
    (h : ExactWindow rng lower query (assumeUtc t₁) (assumeUtc t₂)
      (queryLogs py rng lower query start stop).2) :
    OnTheHour (assumeUtc t₁) ∨ matchesQuery rng lower query (assumeUtc t₁).floorHour = false := by
  obtain ⟨r, marks, hr, -, hmarks, hlines, -, -⟩ := h
  have hok := ((queryLogs_ok_iff rng lower ht₁ ht₂ hle r).mp hr).1
  by_contra hnot
  obtain ⟨hstart, hmatch⟩ := not_or.mp hnot
  rw [Bool.not_eq_false] at hmatch
  -- the line of the rounded start is returned, and no mark of the window has it
  have hvisited := (mem_marks _ _ hok (assumeUtc t₁).floorHour).mpr
    ⟨⟨0, by simp⟩, rfl, (assumeUtc t₁).floorHour_instant.1.trans hle⟩
  have hline : logLine rng (assumeUtc t₁).floorHour ∈ r.lines := by
    rw [lines_of_hourLoop _ _ hok, List.nil_append]
    exact List.mem_map_of_mem (List.mem_filter.mpr ⟨hvisited, hmatch⟩)
  rw [hlines] at hline
  obtain ⟨mark, hmark, heq⟩ := List.mem_map.mp hline
  obtain rfl := logLine_injective rng heq
  obtain ⟨hhour, ⟨hge, -⟩, -⟩ := (hmarks _).mp hmark
  have := (start_le_iff hhour (le_refl _)).mp hge
  simp [hstart] at this

/-- Where the loop ends and the rounded start is no line too many, the search returns its
window: the marks are those that the loop visits, as far as they match. -/
theorem exactWindow_of (ht₁ : fromisoformat py start = .ok t₁)
    (ht₂ : fromisoformat py stop = .ok t₂) (hle : t₁.instant ≤ t₂.instant)
    (hbefore : BeforeLastHour (assumeUtc t₁) (assumeUtc t₂))
    (hstart : OnTheHour (assumeUtc t₁) ∨
      matchesQuery rng lower query (assumeUtc t₁).floorHour = false) :
    ExactWindow rng lower query (assumeUtc t₁) (assumeUtc t₂)
      (queryLogs py rng lower query start stop).2 := by
  have hfloor := (assumeUtc t₁).floorHour_instant.1
  obtain ⟨lines, hok⟩ : ∃ lines, (hourLoop rng lower query (assumeUtc t₂)
      (assumeUtc t₁).floorHour []).2 = .ok lines :=
    (ok_hourLoop_iff _ _ (onTheHour_floorHour _)).mpr fun _ => hbefore
  have hlines := lines_of_hourLoop _ _ hok
  rw [List.nil_append] at hlines
  set loop := hourLoop rng lower query (assumeUtc t₂) (assumeUtc t₁).floorHour []
  have hordered : (loop.1.filter (matchesQuery rng lower query)).Pairwise
      fun a b => a.instant < b.instant := (pairwise_marks _ _).filter _
  refine ⟨⟨lines, lines.length⟩, _, (queryLogs_ok_iff rng lower ht₁ ht₂ hle _).mpr ⟨hok, rfl⟩,
    hordered, fun mark => ?_, hlines, ?_, rfl⟩
  · rw [List.mem_filter, mem_marks _ _ hok, hour_iff]
    constructor
    · rintro ⟨⟨hhour, hge, hle⟩, hmatch⟩
      refine ⟨hhour, ⟨(start_le_iff hhour hge).mpr ?_, hle⟩, hmatch⟩
      refine hstart.imp_right fun hnone => ?_
      rintro rfl
      rw [hmatch] at hnone
      cases hnone
    · rintro ⟨hhour, ⟨hge, hle⟩, hmatch⟩
      exact ⟨⟨hhour, hfloor.trans hge, hle⟩, hmatch⟩
  · have hnodup := hordered.imp fun {a b} hlt => show a ≠ b from fun heq => by
      rw [heq] at hlt
      exact absurd hlt (lt_irrefl _)
    dsimp only
    rw [hlines]
    exact List.Nodup.map (logLine_injective rng) hnodup

end Search

/-- **When a log search returns its window.** The times parse and are in order, and a missing
offset counts as UTC. The search returns exactly the lines of the window where its end is
before the last hour mark, and its start is on the hour or the line of its hour does not match
the query. -/
theorem window_exact_iff {σ : Type*} (rng : Random σ) (lower : Str → Str) {py : Interpreter}
    {start stop : Str} {t₁ t₂ : DateTime} (query : Str) (ht₁ : fromisoformat py start = .ok t₁)
    (ht₂ : fromisoformat py stop = .ok t₂) (hle : t₁.instant ≤ t₂.instant) :
    ExactWindow rng lower query (assumeUtc t₁) (assumeUtc t₂)
        (queryLogs py rng lower query start stop).2 ↔
      BeforeLastHour (assumeUtc t₁) (assumeUtc t₂) ∧
        (OnTheHour (assumeUtc t₁) ∨
          matchesQuery rng lower query (assumeUtc t₁).floorHour = false) :=
  ⟨fun h => ⟨beforeLastHour_of_exactWindow ht₁ ht₂ hle h,
      onTheHour_or_of_exactWindow ht₁ ht₂ hle h⟩,
    fun h => exactWindow_of ht₁ ht₂ hle h.1 h.2⟩

/-- Two hours from midnight on are returned as they are asked for. -/
theorem window_exact_sample : ∃ t₁ t₂,
    fromisoformat ⟨100, fun _ => true⟩ (lit "2026-01-01T00:00:00") = .ok t₁ ∧
    fromisoformat ⟨100, fun _ => true⟩ (lit "2026-01-01T02:00:00") = .ok t₂ ∧
    ExactWindow sampleRandom asciiLower (lit "info") (assumeUtc t₁) (assumeUtc t₂)
      (queryLogs ⟨100, fun _ => true⟩ sampleRandom asciiLower (lit "info")
        (lit "2026-01-01T00:00:00") (lit "2026-01-01T02:00:00")).2 := by
  have hstart : ((fromisoformat ⟨100, fun _ => true⟩
      (lit "2026-01-01T00:00:00")).toOption.any fun t : DateTime =>
        t.instant = 63902822400000000 ∧ t.minute = 0 ∧ t.second = 0 ∧ t.microsecond = 0 ∧
          t.offset = none) = true := by
    decide +kernel
  have hstop : ((fromisoformat ⟨100, fun _ => true⟩ (lit "2026-01-01T02:00:00")).toOption.any
      fun t : DateTime => t.instant = 63902829600000000) = true := by decide +kernel
  obtain ⟨t₁, ht₁, h₁⟩ := exists_of_any hstart
  obtain ⟨t₂, ht₂, h₂⟩ := exists_of_any hstop
  obtain ⟨hinstant, hminute, hsecond, hmicrosecond, hoffset⟩ := of_decide_eq_true h₁
  have hinstant' := of_decide_eq_true h₂
  have hbefore : BeforeLastHour (assumeUtc t₁) (assumeUtc t₂) := by
    have hutc : (assumeUtc t₁).offset = some 0 :=
      congrArg (fun o : Option ℤ => some (o.getD 0)) hoffset
    rw [BeforeLastHour, instant_assumeUtc, hinstant', hutc]
    decide
  exact ⟨t₁, t₂, ht₁, ht₂, (window_exact_iff sampleRandom asciiLower (lit "info") ht₁ ht₂
    (by omega)).mpr ⟨hbefore, Or.inl ⟨hminute, hsecond, hmicrosecond⟩⟩⟩

/-- **A line from before the window**: a search from half past midnight returns the line of
midnight. -/
theorem window_not_exact : ∃ t₁ t₂,
    fromisoformat ⟨100, fun _ => true⟩ (lit "2026-01-01T00:30:00") = .ok t₁ ∧
    fromisoformat ⟨100, fun _ => true⟩ (lit "2026-01-01T00:40:00") = .ok t₂ ∧
    t₁.instant ≤ t₂.instant ∧
    ¬ExactWindow sampleRandom asciiLower [] (assumeUtc t₁) (assumeUtc t₂)
      (queryLogs ⟨100, fun _ => true⟩ sampleRandom asciiLower []
        (lit "2026-01-01T00:30:00") (lit "2026-01-01T00:40:00")).2 := by
  have hstart : ((fromisoformat ⟨100, fun _ => true⟩
      (lit "2026-01-01T00:30:00")).toOption.any fun t : DateTime =>
        t.instant = 63902824200000000 ∧ t.minute = 30) = true := by
    decide +kernel
  have hstop : ((fromisoformat ⟨100, fun _ => true⟩ (lit "2026-01-01T00:40:00")).toOption.any
      fun t : DateTime => t.instant = 63902824800000000) = true := by decide +kernel
  obtain ⟨t₁, ht₁, h₁⟩ := exists_of_any hstart
  obtain ⟨t₂, ht₂, h₂⟩ := exists_of_any hstop
  obtain ⟨hinstant, hminute⟩ := of_decide_eq_true h₁
  have hinstant' := of_decide_eq_true h₂
  have hle : t₁.instant ≤ t₂.instant := by omega
  refine ⟨t₁, t₂, ht₁, ht₂, hle, fun h => ?_⟩
  obtain ⟨hon, -⟩ | hmatch := onTheHour_or_of_exactWindow ht₁ ht₂ hle h
  · have : t₁.minute = 0 := hon
    omega
  · have : occursIn (asciiLower []) (asciiLower (logLine sampleRandom (assumeUtc t₁).floorHour)) =
        true := occursIn_of_infix (List.nil_infix)
    rw [matchesQuery, this] at hmatch
    cases hmatch

end AgentOpsGateway
