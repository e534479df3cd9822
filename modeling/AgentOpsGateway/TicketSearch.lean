import Mathlib.Data.List.TakeWhile
import AgentOpsGateway.TicketStore

/-!
# Ticket Search

`search_tickets` puts the query between two wildcards of a `LIKE` pattern, and a `%` or a `_`
in the query is a wildcard there too. The search is for texts that contain the query exactly
where it has neither.

## Main results

* `like_of_contains`: **no ticket is missed**, whatever the query.
* `search_is_substring_iff`: **when the search is substring search**, for all tables and for
  one.
-/

namespace AgentOpsGateway

open Python Transition

/-- The text contains the query, ASCII letters compared without their case. -/
def containsText (query text : Str) : Bool := query.map foldAscii <:+: text.map foldAscii

/-- The tickets whose title or body contains the query, as they are now. -/
def substringHits (file : Option TicketDb) (query : Str) : List TicketHit :=
  ((ticketsOf file).filter fun t => containsText query t.title || containsText query t.body).map
    fun t => ⟨t.id, t.title, t.status⟩

/-- The pattern of a query. -/
def likePattern (query : Str) : Str := lit "%" ++ query ++ lit "%"

/-- The query has no code point that `LIKE` reads as a wildcard. -/
def NoWildcard (query : Str) : Prop := ∀ c ∈ query, c ≠ ofChar '%' ∧ c ≠ ofChar '_'

/-- The text has a NUL. -/
def hasNul (s : Str) : Bool := s.any fun c => c.val = 0

/-- No text of the table has a NUL. -/
def NulFree (file : Option TicketDb) : Prop :=
  ∀ t ∈ ticketsOf file, hasNul t.title = false ∧ hasNul t.body = false

/-! ### Patterns -/

/-- A text without a NUL is read to its end. -/
theorem cString_eq_self {s : Str} (hs : hasNul s = false) : cString s = s :=
  List.takeWhile_eq_self_iff.mpr fun c hc => by
    simpa using List.any_eq_false.mp hs c hc

/-- The pattern of a query has a wildcard on both sides of it. -/
theorem like_likePattern {query text : Str} (hquery : hasNul query = false)
    (htext : hasNul text = false) :
    like (likePattern query) text =
      Wildcard.accepts sameLetter (.any :: (query.map likeToken ++ [.any])) text := by
  have hpattern : hasNul (likePattern query) = false := by
    have hpercent : hasNul (lit "%") = false := by decide
    simp only [hasNul] at hquery hpercent ⊢
    simp only [likePattern, List.any_append, hquery, hpercent, Bool.or_self]
  have htoken : (lit "%").map likeToken = [.any] := by decide
  rw [like, cString_eq_self hpattern, cString_eq_self htext, likePattern, List.map_append,
    List.map_append, htoken, List.append_assoc]
  rfl

/-- Letters that are the same one by one are the same text without case. -/
theorem forall₂_sameLetter_iff {s t : Str} :
    List.Forall₂ (fun c x => sameLetter c x = true) s t ↔ s.map foldAscii = t.map foldAscii := by
  rw [← List.forall₂_eq_eq_eq, List.forall₂_map_left_iff, List.forall₂_map_right_iff]
  simp only [sameLetter, decide_eq_true_eq]

/-- Containment, with the place of the query spelled out. -/
theorem contains_iff {query text : Str} :
    Wildcard.Contains sameLetter query text ↔ containsText query text = true := by
  simp only [Wildcard.Contains, forall₂_sameLetter_iff, containsText, decide_eq_true_eq]
  constructor
  · rintro ⟨before, found, after, rfl, hfound⟩
    exact ⟨before.map foldAscii, after.map foldAscii, by simp [hfound]⟩
  · rintro ⟨s, t, h⟩
    obtain ⟨front, after, rfl, hfront, -⟩ := List.map_eq_append_iff.mp h.symm
    obtain ⟨before, found, rfl, -, hfound⟩ := List.map_eq_append_iff.mp hfront
    exact ⟨before, found, after, List.append_assoc .., hfound.symm⟩

/-- A code point of a query stands at least for itself. -/
theorem covers_likeToken {c x : CodePoint} (h : sameLetter c x = true) :
    (likeToken c).Covers sameLetter x := by
  simp only [likeToken]
  split_ifs
  · trivial
  · trivial
  · exact h

/-- **No text that contains the query is missed.** -/
theorem like_of_contains {query text : Str} (hquery : hasNul query = false)
    (htext : hasNul text = false) (h : containsText query text = true) :
    like (likePattern query) text = true := by
  rw [like_likePattern hquery htext]
  exact Wildcard.accepts_of_contains (fun _ _ => covers_likeToken) (contains_iff.mpr h)

/-- Without wildcards in the query, only texts that contain it are found. -/
theorem contains_of_like {query text : Str} (hquery : hasNul query = false)
    (htext : hasNul text = false) (hplain : NoWildcard query)
    (h : like (likePattern query) text = true) : containsText query text = true := by
  have htokens : query.map likeToken = query.map .letter :=
    List.map_congr_left fun c hc => by
      rw [likeToken, if_neg (hplain c hc).1, if_neg (hplain c hc).2]
  rw [like_likePattern hquery htext, htokens, Wildcard.accepts_contains_iff] at h
  exact contains_iff.mp h

/-! ### One table -/

variable {sql : Sqlite}

/-- Of the tickets a query finds in a table, all contain it. -/
def FindsOnlyContaining (file : Option TicketDb) (query : Str) : Prop :=
  ∀ t ∈ ticketsOf file,
    (like (likePattern query) t.title || like (likePattern query) t.body) = true →
      (containsText query t.title || containsText query t.body) = true

/-- The limits on patterns: the pattern is bound, and where there is a row to compare it with
it is not too long. -/
def PatternTaken (sql : Sqlite) (file : Option TicketDb) (query : Str) : Prop :=
  Bindable sql (likePattern query) ∧
    (ticketsOf file = [] ∨ utf8Length (likePattern query) ≤ sql.maxPattern)

/-- A search returns where its pattern is taken. -/
theorem searchTickets_fst (file : Option TicketDb) (query : Str) :
    (searchTickets sql file query).1 =
      ((connect file).select sql (likePattern query)).map .hits := by
  simp only [searchTickets, withConnection, likePattern]
  cases (connect file).select sql (lit "%" ++ query ++ lit "%") <;> rfl

/-- The answer of a search: nothing but the tickets that the pattern accepts. -/
theorem searchTickets_eq_ok_iff {file : Option TicketDb} {query : Str} {hits : List TicketHit} :
    (searchTickets sql file query).1 = .ok (.hits hits) ↔
      PatternTaken sql file query ∧
        ((ticketsOf file).filter fun t =>
          like (likePattern query) t.title || like (likePattern query) t.body).map
            (fun t => (⟨t.id, t.title, t.status⟩ : TicketHit)) = hits := by
  rw [searchTickets_fst, TicketDb.select, PatternTaken]
  have hbind := @bindTexts_eq_ok_iff sql [likePattern query, likePattern query]
  simp only [List.mem_cons, List.not_mem_nil, or_false, or_self, forall_eq] at hbind
  cases htexts : bindTexts sql [likePattern query, likePattern query] with
  | error e =>
      rw [htexts] at hbind
      simp [Except.map, ← hbind]
  | ok u =>
      have hbound := hbind.mp htexts
      by_cases hempty : ticketsOf file = []
      · have htickets : (connect file).tickets = [] := hempty
        simp [Except.map, hbound, hempty, htickets]
      · have htickets : (connect file).tickets ≠ [] := hempty
        by_cases hlength : sql.maxPattern < utf8Length (likePattern query)
        · simp [Except.map, hempty, htickets, hlength, not_le.mpr hlength]
        · simp [Except.map, hbound, htickets, hlength, not_lt.mp hlength, ticketsOf]

/-- **When a search is substring search, in one table.** -/
theorem search_exact_iff {file : Option TicketDb} {query : Str} (hquery : hasNul query = false)
    (hfile : NulFree file) :
    (searchTickets sql file query).1 = .ok (.hits (substringHits file query)) ↔
      PatternTaken sql file query ∧ FindsOnlyContaining file query := by
  have hmissed : ∀ t ∈ ticketsOf file,
      (containsText query t.title || containsText query t.body) = true →
        (like (likePattern query) t.title || like (likePattern query) t.body) = true := by
    intro t ht h
    obtain ⟨htitle, hbody⟩ := hfile t ht
    rw [Bool.or_eq_true] at h ⊢
    exact h.imp (like_of_contains hquery htitle) (like_of_contains hquery hbody)
  set found : Ticket → Bool := fun t =>
    like (likePattern query) t.title || like (likePattern query) t.body with hfound
  set wanted : Ticket → Bool := fun t =>
    containsText query t.title || containsText query t.body with hwanted
  rw [searchTickets_eq_ok_iff]
  refine and_congr_right fun _ => ⟨fun h t ht hlike => ?_, fun h => ?_⟩
  · -- none is missed, so the lists of hits are equal only where the tickets are
    have htwice : (ticketsOf file).filter wanted =
        ((ticketsOf file).filter found).filter wanted := by
      rw [List.filter_filter]
      refine List.filter_congr fun t ht => ?_
      cases hw : wanted t with
      | false => rfl
      | true => exact (hmissed t ht hw).symm
    have hlength := congrArg List.length h
    simp only [substringHits, List.length_map] at hlength
    have heq : (ticketsOf file).filter wanted = (ticketsOf file).filter found := by
      rw [htwice]
      exact List.filter_sublist.eq_of_length (by rw [← htwice, ← hlength])
    have hmem : t ∈ (ticketsOf file).filter found := List.mem_filter.mpr ⟨ht, hlike⟩
    rw [← heq] at hmem
    exact (List.mem_filter.mp hmem).2
  · refine congrArg (List.map _) (List.filter_congr fun t ht => ?_)
    exact Bool.eq_iff_iff.mpr ⟨h t ht, hmissed t ht⟩

/-! ### All tables -/

/-- No code point is folded to a wildcard. -/
theorem eq_of_foldAscii {c w : CodePoint} (hw : w = ofChar '%' ∨ w = ofChar '_')
    (h : foldAscii c = w) : c = w := by
  rw [foldAscii] at h
  split at h
  · next hupper =>
      have hval := congrArg Fin.val h
      rw [Fin.val_ofNat, Nat.mod_eq_of_lt (by omega)] at hval
      rcases hw with rfl | rfl <;> simp [ofChar] at hval <;> omega
  · exact h

/-- The title of the ticket that a query with wildcards finds and that does not contain it. -/
def decoy (query : Str) : Str := Wildcard.fill (ofChar 'a') (query.map likeToken)

/-- A code point of the decoy is an `a`, or one of the query that is no wildcard. -/
theorem mem_decoy {query : Str} {x : CodePoint} (h : x ∈ decoy query) :
    x = ofChar 'a' ∨ x ∈ query ∧ x ≠ ofChar '%' ∧ x ≠ ofChar '_' := by
  refine (Wildcard.mem_fill h).imp_right fun hletter => ?_
  obtain ⟨c, hc, htoken⟩ := List.mem_map.mp hletter
  rw [likeToken] at htoken
  split_ifs at htoken with hpercent hunderscore
  obtain rfl := Wildcard.Token.letter.inj htoken
  exact ⟨hc, hpercent, hunderscore⟩

/-- What holds of an `a` and of a query holds of its decoy. -/
theorem decoy_any_eq_false {query : Str} {p : CodePoint → Bool} (ha : p (ofChar 'a') = false)
    (hquery : query.any p = false) : (decoy query).any p = false := by
  refine List.any_eq_false.mpr fun x hx => ?_
  rcases mem_decoy hx with rfl | ⟨hx, -⟩
  · simp [ha]
  · exact List.any_eq_false.mp hquery x hx

/-- The pattern of a query accepts its decoy. -/
theorem like_decoy {query : Str} (hquery : hasNul query = false) :
    like (likePattern query) (decoy query) = true := by
  have hfill : decoy query =
      Wildcard.fill (ofChar 'a') (.any :: (query.map likeToken ++ [.any])) := by
    rw [Wildcard.fill, Wildcard.fill_append]
    exact (List.append_nil _).symm
  rw [like_likePattern hquery (decoy_any_eq_false (by decide) hquery), hfill]
  exact Wildcard.accepts_fill (fun c => by simp [sameLetter]) _ _

/-- A decoy contains only a query without wildcards. -/
theorem noWildcard_of_contains_decoy {query : Str}
    (h : containsText query (decoy query) = true) : NoWildcard query := by
  have hinfix : query.map foldAscii <:+: (decoy query).map foldAscii := of_decide_eq_true h
  have hnot : ∀ w, w = ofChar '%' ∨ w = ofChar '_' → w ∉ query := by
    intro w hw hmem
    have hfold : foldAscii w = w := by rcases hw with rfl | rfl <;> decide
    have hfound := hinfix.subset (List.mem_map_of_mem (f := foldAscii) hmem)
    obtain ⟨x, hx, hxw⟩ := List.mem_map.mp hfound
    obtain rfl := eq_of_foldAscii hw (hxw.trans hfold)
    rcases mem_decoy hx with rfl | ⟨-, hpercent, hunderscore⟩
    · revert hw
      decide
    · rcases hw with hw | hw
      · exact hpercent hw
      · exact hunderscore hw
  exact fun c hc => ⟨fun h => hnot c (.inl h) hc, fun h => hnot c (.inr h) hc⟩

/-- The decoy is no longer than the query. -/
theorem utf8Length_decoy_le (query : Str) : utf8Length (decoy query) ≤ utf8Length query := by
  induction query with
  | nil => exact Nat.le_refl _
  | cons c query ih =>
      have hwidth : utf8Width (ofChar 'a') ≤ utf8Width c := by
        have ha : utf8Width (ofChar 'a') = 1 := by decide
        rw [ha, utf8Width]
        split_ifs <;> omega
      simp only [decoy, utf8Length, List.map_cons, List.sum_cons, likeToken] at ih ⊢
      split_ifs
      · exact ih.trans (Nat.le_add_left _ _)
      · simp only [Wildcard.fill, List.map_cons, List.sum_cons]
        exact Nat.add_le_add hwidth ih
      · simp only [Wildcard.fill, List.map_cons, List.sum_cons]
        exact Nat.add_le_add_left ih _

/-- The search is substring search: it returns the tickets that contain the query, each once. -/
def SubstringSearch (sql : Sqlite) (file : Option TicketDb) (query : Str) : Prop :=
  (searchTickets sql file query).1 = .ok (.hits (substringHits file query)) ∧
    ((substringHits file query).map TicketHit.id).Pairwise (· < ·)

/-- In an ordered table every ticket is found at most once. -/
theorem pairwise_substringHits {file : Option TicketDb} (h : (connect file).Ordered)
    (query : Str) : ((substringHits file query).map TicketHit.id).Pairwise (· < ·) := by
  rw [substringHits, List.map_map, List.pairwise_map]
  exact h.increasing.sublist List.filter_sublist

variable {py : Interpreter}

/-- A reading of the clock. -/
def someTime : Str := lit "2026-01-01T00:00:00+00:00"

/-- A ticket with a short title can be created. -/
theorem exec_create_short {title : Str} (hencodable : title.any isSurrogate = false)
    (hlength : utf8Length title ≤ sql.maxPattern) :
    ∃ st, (ticketServer sql py).exec .init [.create title [] someTime] = some st ∧
      ticketsOf st.file = [⟨1, title, [], lit "open", someTime⟩] := by
  have htime : utf8Length someTime = 25 := by decide
  have hopen : utf8Length (lit "open") = 4 := by decide
  have hnil : utf8Length [] = 0 := rfl
  have hone : ∀ s : Str, utf8Length s ≤ sql.maxPattern + 64 → sql.fits [s] = true := fun s hs =>
    sql.fits_of_small [s] (by simpa using hs)
  have hinsert : Insertable sql (connect TicketRun.init.file) title [] someTime := by
    refine ⟨?_, by decide, sql.fits_of_small _ ?_⟩
    · simp only [List.forall_mem_cons, List.not_mem_nil, false_implies, implies_true, and_true]
      exact ⟨⟨hencodable, hone _ (by omega)⟩, ⟨rfl, hone _ (by omega)⟩, by decide,
        hone _ (by omega)⟩
    · simp only [List.map_cons, List.map_nil, List.sum_cons, List.sum_nil, htime, hopen, hnil]
      omega
  have hcreate := createTicket_of_insertable hinsert
  refine ⟨⟨(perform sql py none (.create title [] someTime)).2, _⟩, rfl, ?_⟩
  exact congrArg (fun r => ticketsOf r.2) hcreate

/-- **When the search is substring search.** It is on every table that can be reached exactly
for the queries without wildcards that are encodable and not too long; and on one table where
the pattern is taken and nothing is found only by a wildcard. -/
theorem search_is_substring_iff (sql : Sqlite) (py : Interpreter) (query : Str)
    (hquery : hasNul query = false) :
    ((∀ ops st, (ticketServer sql py).exec .init ops = some st → NulFree st.file →
        SubstringSearch sql st.file query) ↔
      query.any isSurrogate = false ∧ utf8Length (likePattern query) ≤ sql.maxPattern ∧
        NoWildcard query) ∧
    ∀ ops st, (ticketServer sql py).exec .init ops = some st → NulFree st.file →
      (SubstringSearch sql st.file query ↔
        PatternTaken sql st.file query ∧ FindsOnlyContaining st.file query) := by
  have hone : ∀ ops st, (ticketServer sql py).exec .init ops = some st → NulFree st.file →
      (SubstringSearch sql st.file query ↔
        PatternTaken sql st.file query ∧ FindsOnlyContaining st.file query) := by
    intro ops st hrun hfile
    have hpairwise := pairwise_substringHits (TicketRun.sound_of_run hrun).ordered query
    rw [SubstringSearch, and_iff_left hpairwise, search_exact_iff hquery hfile]
  have hpattern : (likePattern query).any isSurrogate = query.any isSurrogate := by
    have hpercent : (lit "%").any isSurrogate = false := by decide
    simp only [likePattern, List.any_append, hpercent, Bool.false_or, Bool.or_false]
  refine ⟨⟨fun hall => ?_, ?_⟩, hone⟩
  · -- the empty table shows that the query is encodable
    have hencodable : query.any isSurrogate = false := by
      have hempty := ((hone [] .init rfl fun t ht => absurd ht List.not_mem_nil).mp
        (hall [] .init rfl fun t ht => absurd ht List.not_mem_nil)).1
      rw [← hpattern]
      exact hempty.1.1
    have hfound : ∀ title : Str, title.any isSurrogate = false → hasNul title = false →
        utf8Length title ≤ sql.maxPattern →
        utf8Length (likePattern query) ≤ sql.maxPattern ∧
          (like (likePattern query) title = true →
            containsText query title = true ∨ query = []) := by
      intro title hsurrogate hnul hlength
      obtain ⟨st, hrun, htickets⟩ := @exec_create_short sql py _ hsurrogate hlength
      have hfile : NulFree st.file := by
        intro t ht
        rw [htickets] at ht
        obtain rfl := List.mem_singleton.mp ht
        exact ⟨hnul, rfl⟩
      obtain ⟨⟨-, htaken⟩, honly⟩ := (hone _ st hrun hfile).mp (hall _ st hrun hfile)
      rw [FindsOnlyContaining, htickets] at honly
      rw [htickets] at htaken
      refine ⟨htaken.resolve_left (List.cons_ne_nil _ _), fun hlike => ?_⟩
      have hcontains := honly _ List.mem_cons_self (by rw [hlike]; rfl)
      rw [Bool.or_eq_true] at hcontains
      refine hcontains.imp_right fun hbody => ?_
      have hinfix : query.map foldAscii <:+: [] := of_decide_eq_true hbody
      exact List.map_eq_nil_iff.mp (List.infix_nil.mp hinfix)
    -- a ticket without a title shows that the pattern is not too long, and its decoy that the
    -- query has no wildcard
    have hlength := (hfound [] rfl rfl (Nat.zero_le _)).1
    have hquery_le : utf8Length query ≤ utf8Length (likePattern query) := by
      simp only [likePattern, utf8Length, List.map_append, List.sum_append]
      omega
    have hdecoy := (hfound (decoy query) (decoy_any_eq_false (by decide) hencodable)
      (decoy_any_eq_false (by decide) hquery)
      ((utf8Length_decoy_le query).trans (hquery_le.trans hlength))).2 (like_decoy hquery)
    refine ⟨hencodable, hlength, ?_⟩
    rcases hdecoy with hcontains | rfl
    · exact noWildcard_of_contains_decoy hcontains
    · exact fun c hc => absurd hc List.not_mem_nil
  · rintro ⟨hencodable, hlength, hplain⟩ ops st hrun hfile
    refine (hone ops st hrun hfile).mpr ⟨⟨⟨hpattern.trans hencodable, ?_⟩, .inr hlength⟩,
      fun t ht hfound => ?_⟩
    · refine sql.fits_of_small _ ?_
      simpa using Nat.le_add_right_of_le hlength
    · obtain ⟨htitle, hbody⟩ := hfile t ht
      rw [Bool.or_eq_true] at hfound ⊢
      exact hfound.imp (contains_of_like hquery htitle hplain)
        (contains_of_like hquery hbody hplain)

/-- A plain query finds the ticket that contains it, in whatever case. -/
theorem search_is_substring_login : ∃ st,
    (ticketServer defaultSqlite ⟨100, fun _ => true⟩).exec .init
      [.create (lit "login broken") (lit "users cannot log in") someTime,
        .create (lit "other") (lit "nothing") someTime] = some st ∧
    SubstringSearch defaultSqlite st.file (lit "LogIn") ∧
    substringHits st.file (lit "LogIn") = [⟨1, lit "login broken", lit "open"⟩] := by
  have hplain : (lit "LogIn").all (fun c => c ≠ ofChar '%' && c ≠ ofChar '_') = true := by decide
  have hrun : ((ticketServer defaultSqlite ⟨100, fun _ => true⟩).exec .init
      [.create (lit "login broken") (lit "users cannot log in") someTime,
        .create (lit "other") (lit "nothing") someTime]).any (fun st =>
        (ticketsOf st.file).all (fun t => !hasNul t.title && !hasNul t.body) &&
        decide (substringHits st.file (lit "LogIn") =
          [⟨1, lit "login broken", lit "open"⟩])) = true := by decide +kernel
  obtain ⟨st, hst, h⟩ := (Option.any_eq_true _ _).mp hrun
  simp only [Bool.and_eq_true, List.all_eq_true, Bool.not_eq_true'] at h
  refine ⟨st, hst, ?_, of_decide_eq_true h.2⟩
  refine (search_is_substring_iff defaultSqlite ⟨100, fun _ => true⟩ (lit "LogIn")
    (by decide)).1.mpr ⟨by decide, by decide, fun c hc => ?_⟩ _ st hst h.1
  simpa using List.all_eq_true.mp hplain c hc

/-- **A query with an underscore** finds a ticket that has a space in its place. -/
theorem search_finds_more : ¬∀ (sql : Sqlite) (py : Interpreter) (ops : List TicketOp)
    (st : TicketRun) (query : Str), (ticketServer sql py).exec .init ops = some st →
    NulFree st.file → hasNul query = false → SubstringSearch sql st.file query := by
  intro hclaim
  have hrun : ((ticketServer defaultSqlite ⟨100, fun _ => true⟩).exec .init
      [.create (lit "user id missing") [] someTime]).any (fun st =>
        (ticketsOf st.file).all (fun t => !hasNul t.title && !hasNul t.body) &&
        !decide ((searchTickets defaultSqlite st.file (lit "user_id")).1 =
          .ok (.hits (substringHits st.file (lit "user_id"))))) = true := by decide +kernel
  obtain ⟨st, hst, hdiffer⟩ := (Option.any_eq_true _ _).mp hrun
  simp only [Bool.and_eq_true, List.all_eq_true, Bool.not_eq_true'] at hdiffer
  obtain ⟨hnul, hnot⟩ := hdiffer
  exact absurd (hclaim _ _ _ st (lit "user_id") hst hnul (by decide)).1 (of_decide_eq_false hnot)

end AgentOpsGateway
