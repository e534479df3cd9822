import Mathlib.Algebra.Ring.Int.Defs
import AgentOpsGateway.DateTime
import AgentOpsGateway.Transition
import AgentOpsGateway.Wildcard

/-!
# The Ticket Server

Every operation opens the file of the database, creates the table if it is not there, and
runs one statement in a transaction that is committed where the block ends and rolled back
where it raises. Against it stands a map from ids to entries, to which a creation adds a
fresh id and of which an update replaces one status.

What SQLite takes is a parameter: how long a text, a row and a pattern may be.

## Main results

* `TicketRun.Sound.step`: one operation keeps the table in step with the map.
* `ticket_store_refines`: **the table is the map of its history**, whatever operations are
  called in whatever order, and an operation that raises leaves it as it was.
-/

namespace AgentOpsGateway

open Python Transition

/-! ### SQLite -/

/-- The bytes of a code point in UTF-8. -/
def utf8Width (c : CodePoint) : ℕ :=
  if c.val < 0x80 then 1 else if c.val < 0x800 then 2 else if c.val < 0x10000 then 3 else 4

/-- The bytes of a text in UTF-8. -/
def utf8Length (s : Str) : ℕ := (s.map utf8Width).sum

/-- The limits of the library. -/
structure Sqlite where
  /-- `SQLITE_LIMIT_LIKE_PATTERN_LENGTH`, in bytes. -/
  maxPattern : ℕ
  /-- Texts that are within `SQLITE_LIMIT_LENGTH` as a value, or together as a row. -/
  fits : List Str → Bool
  /-- The length limit is the larger of the two by far. -/
  fits_of_small : ∀ texts : List Str,
    (texts.map utf8Length).sum ≤ maxPattern + 64 → fits texts = true

/-- `tolower` of the ASCII letters. -/
def foldAscii (c : CodePoint) : CodePoint :=
  if 0x41 ≤ c.val ∧ c.val ≤ 0x5A then Fin.ofNat 0x110000 (c.val + 0x20) else c

/-- Two code points are one letter for `LIKE`. -/
def sameLetter (c x : CodePoint) : Bool := foldAscii c = foldAscii x

/-- A code point of a `LIKE` pattern. -/
def likeToken (c : CodePoint) : Wildcard.Token CodePoint :=
  if c = ofChar '%' then .any else if c = ofChar '_' then .one else .letter c

/-- The text as `LIKE` reads it: up to the first NUL. -/
def cString (s : Str) : Str := s.takeWhile fun c => c.val ≠ 0

/-- `text LIKE pattern`. -/
def like (pattern text : Str) : Bool :=
  Wildcard.accepts sameLetter ((cString pattern).map likeToken) (cString text)

/-! ### The database -/

/-- A row of `tickets`. -/
structure Ticket where
  id : ℤ
  title : Str
  body : Str
  status : Str
  createdAt : Str
  deriving DecidableEq

/-- The file: the table, and the largest id that `AUTOINCREMENT` has given. -/
structure TicketDb where
  tickets : List Ticket
  seq : ℤ
  deriving DecidableEq

/-- What an operation raises. -/
inductive TicketError
  | valueError (message : Str)
  | unicodeEncodeError
  | overflowError
  | dataError (message : Str)
  | operationalError (message : Str)
  deriving DecidableEq

/-- `VALID_STATUSES`. -/
def validStatuses : List Str := [lit "open", lit "in_progress", lit "closed"]

/-- `_connect()`: the schema is there from the first connection on. -/
def connect (file : Option TicketDb) : TicketDb := file.getD ⟨[], 0⟩

/-- `with _connect() as conn: …`: what the block has done is committed where it ends, and
rolled back where it raises. -/
def withConnection {α : Type} (file : Option TicketDb)
    (block : TicketDb → Except TicketError α × TicketDb) :
    Except TicketError α × Option TicketDb :=
  match block (connect file) with
  | (.ok a, db) => (.ok a, some db)
  | (.error e, _) => (.error e, some (connect file))

/-- The texts are bound to the parameters of a statement, in their order. -/
def bindTexts (sql : Sqlite) : List Str → Except TicketError Unit
  | [] => .ok ()
  | s :: texts =>
    if s.any isSurrogate then .error .unicodeEncodeError
    else if sql.fits [s] then bindTexts sql texts
    else .error (.dataError (lit "string or blob too big"))

/-- The largest id of the table, or one that it had. -/
def TicketDb.lastId (db : TicketDb) : ℤ := db.tickets.foldl (fun last t => max last t.id) db.seq

/-- `INSERT INTO tickets (title, body, status, created_at) VALUES (?, ?, 'open', ?)`, and the
`lastrowid`. -/
def TicketDb.insert (sql : Sqlite) (db : TicketDb) (title body createdAt : Str) :
    Except TicketError ℤ × TicketDb :=
  match bindTexts sql [title, body, createdAt] with
  | .error e => (.error e, db)
  | .ok () =>
    if db.lastId = 2 ^ 63 - 1 then
      (.error (.operationalError (lit "database or disk is full")), db)
    else if sql.fits [title, body, lit "open", createdAt] then
      (.ok (db.lastId + 1),
        { tickets := db.tickets ++ [⟨db.lastId + 1, title, body, lit "open", createdAt⟩]
          seq := db.lastId + 1 })
    else (.error (.dataError (lit "string or blob too big")), db)

/-- The ticket with another status. -/
def Ticket.withStatus (t : Ticket) (status : Str) : Ticket := { t with status := status }

/-- `UPDATE tickets SET status = ? WHERE id = ?`, and the `rowcount`. -/
def TicketDb.update (sql : Sqlite) (db : TicketDb) (status : Str) (ticketId : ℤ) :
    Except TicketError ℕ × TicketDb :=
  match bindTexts sql [status] with
  | .error e => (.error e, db)
  | .ok () =>
    if -(2 ^ 63) ≤ ticketId ∧ ticketId < 2 ^ 63 then
      if (db.tickets.filter fun t => t.id = ticketId).all
          fun t => sql.fits [t.title, t.body, status, t.createdAt] then
        (.ok (db.tickets.countP fun t => t.id = ticketId),
          { db with
            tickets := db.tickets.map fun t => if t.id = ticketId then t.withStatus status else t })
      else (.error (.dataError (lit "string or blob too big")), db)
    else (.error .overflowError, db)

/-- What `search_tickets` returns of a ticket. -/
structure TicketHit where
  id : ℤ
  title : Str
  status : Str
  deriving DecidableEq

/-- `SELECT id, title, status FROM tickets WHERE title LIKE ? OR body LIKE ?`. The pattern is
looked at when the first row is. -/
def TicketDb.select (sql : Sqlite) (db : TicketDb) (pattern : Str) :
    Except TicketError (List TicketHit) :=
  match bindTexts sql [pattern, pattern] with
  | .error e => .error e
  | .ok () =>
    if db.tickets ≠ [] ∧ sql.maxPattern < utf8Length pattern then
      .error (.operationalError (lit "LIKE or GLOB pattern too complex"))
    else
      .ok ((db.tickets.filter fun t => like pattern t.title || like pattern t.body).map
        fun t => ⟨t.id, t.title, t.status⟩)

/-! ### The operations -/

/-- What an operation returns. -/
inductive TicketReply
  | status (id : ℤ) (status : Str)
  | hits (hits : List TicketHit)
  deriving DecidableEq

/-- `create_ticket(title, body)`; `createdAt` is the text of the clock. -/
def createTicket (sql : Sqlite) (file : Option TicketDb) (title body createdAt : Str) :
    Except TicketError TicketReply × Option TicketDb :=
  withConnection file fun db =>
    match db.insert sql title body createdAt with
    | (.error e, db) => (.error e, db)
    | (.ok lastrowid, db) => (.ok (.status lastrowid (lit "open")), db)

/-- `search_tickets(query)`. -/
def searchTickets (sql : Sqlite) (file : Option TicketDb) (query : Str) :
    Except TicketError TicketReply × Option TicketDb :=
  let pattern := lit "%" ++ query ++ lit "%"
  withConnection file fun db => ((db.select sql pattern).map .hits, db)

/-- `update_status(ticket_id, status)`. -/
def updateStatus (sql : Sqlite) (py : Interpreter) (file : Option TicketDb) (ticketId : ℤ)
    (status : Str) : Except TicketError TicketReply × Option TicketDb :=
  if status ∉ validStatuses then
    (.error (.valueError (lit "invalid status " ++ repr py status ++
      lit ": must be one of ['closed', 'in_progress', 'open']")), file)
  else
    withConnection file fun db =>
      match db.update sql status ticketId with
      | (.error e, db) => (.error e, db)
      | (.ok rowcount, db) =>
        if rowcount = 0 then
          (.error (.valueError (lit "ticket " ++ decimal ticketId ++ lit " not found")), db)
        else (.ok (.status ticketId status), db)

/-- A call of the server. -/
inductive TicketOp
  | create (title body createdAt : Str)
  | search (query : Str)
  | update (ticketId : ℤ) (status : Str)

/-- One operation on the file. -/
def perform (sql : Sqlite) (py : Interpreter) (file : Option TicketDb) :
    TicketOp → Except TicketError TicketReply × Option TicketDb
  | .create title body createdAt => createTicket sql file title body createdAt
  | .search query => searchTickets sql file query
  | .update ticketId status => updateStatus sql py file ticketId status

/-! ### The map behind the table -/

/-- What the map keeps of a ticket. -/
structure TicketEntry where
  title : Str
  body : Str
  status : Str
  deriving DecidableEq

/-- The map from ids to entries. -/
abbrev TicketMap := ℤ → Option TicketEntry

/-- A call and its outcome. -/
abbrev TicketEvent := TicketOp × Except TicketError TicketReply

/-- What a call that has returned does to the map: a creation adds an entry under the id it
returns, an update replaces the status of one. A call that has raised does nothing. -/
def TicketMap.apply (m : TicketMap) : TicketEvent → TicketMap
  | (.create title body _, .ok (.status id _)) =>
    Function.update m id (some ⟨title, body, lit "open"⟩)
  | (.update id status, .ok _) =>
    Function.update m id ((m id).map fun e => { e with status := status })
  | _ => m

/-- What the map keeps of a ticket. -/
def Ticket.entry (t : Ticket) : TicketEntry := ⟨t.title, t.body, t.status⟩

/-- The table as a map. -/
def entries (tickets : List Ticket) : TicketMap := fun id =>
  (tickets.find? fun t => t.id = id).map Ticket.entry

/-- The rows of the file; there are none before it exists. -/
def ticketsOf (file : Option TicketDb) : List Ticket := (connect file).tickets

/-- The file and the calls so far. -/
structure TicketRun where
  file : Option TicketDb
  history : List TicketEvent

/-- No file yet. -/
def TicketRun.init : TicketRun := ⟨none, []⟩

/-- The ticket server: any call at any time. -/
def ticketServer (sql : Sqlite) (py : Interpreter) : System TicketRun TicketOp where
  step st op :=
    let (outcome, file) := perform sql py st.file op
    some ⟨file, st.history ++ [(op, outcome)]⟩

/-! ### What one operation does -/

variable {sql : Sqlite} {py : Interpreter} {file : Option TicketDb}

/-- The texts can be bound. -/
def Bindable (sql : Sqlite) (s : Str) : Prop := s.any isSurrogate = false ∧ sql.fits [s] = true

/-- Binding raises exactly where one of the texts cannot be bound. -/
theorem bindTexts_eq_ok_iff {texts : List Str} :
    bindTexts sql texts = .ok () ↔ ∀ s ∈ texts, Bindable sql s := by
  induction texts with
  | nil => simp [bindTexts]
  | cons s texts ih =>
      rw [List.forall_mem_cons, ← ih, bindTexts, Bindable]
      cases hs : s.any isSurrogate with
      | true => simp
      | false => cases hfits : sql.fits [s] <;> simp

/-- The ids are in order, up to the last one given. -/
structure TicketDb.Ordered (db : TicketDb) : Prop where
  increasing : db.tickets.Pairwise fun t u => t.id < u.id
  le_seq : ∀ t ∈ db.tickets, t.id ≤ db.seq

/-- In an ordered table the last id is that of `sqlite_sequence`. -/
theorem TicketDb.Ordered.lastId_eq {db : TicketDb} (h : db.Ordered) : db.lastId = db.seq := by
  have hfold : ∀ tickets : List Ticket, (∀ t ∈ tickets, t.id ≤ db.seq) →
      tickets.foldl (fun last t => max last t.id) db.seq = db.seq := by
    intro tickets hle
    induction tickets with
    | nil => rfl
    | cons t tickets ih =>
        rw [List.foldl_cons, Int.max_eq_left (hle t List.mem_cons_self)]
        exact ih fun u hu => hle u (List.mem_cons_of_mem t hu)
  exact hfold db.tickets h.le_seq

/-- The row can be inserted: its texts are taken, as they are and as a row, and there is an id
left. -/
structure Insertable (sql : Sqlite) (db : TicketDb) (title body createdAt : Str) : Prop where
  bindable : ∀ s ∈ [title, body, createdAt], Bindable sql s
  id_left : db.lastId ≠ 2 ^ 63 - 1
  fits : sql.fits [title, body, lit "open", createdAt] = true

/-- The table with one row more. -/
def TicketDb.inserted (db : TicketDb) (title body createdAt : Str) : TicketDb :=
  { tickets := db.tickets ++ [⟨db.lastId + 1, title, body, lit "open", createdAt⟩]
    seq := db.lastId + 1 }

/-- The table with the status of one row replaced. -/
def TicketDb.updated (db : TicketDb) (ticketId : ℤ) (status : Str) : TicketDb :=
  { db with
    tickets := db.tickets.map fun t => if t.id = ticketId then t.withStatus status else t }

/-- A creation returns where the row can be inserted. -/
theorem createTicket_of_insertable {title body createdAt : Str}
    (h : Insertable sql (connect file) title body createdAt) :
    createTicket sql file title body createdAt =
      (.ok (.status ((connect file).lastId + 1) (lit "open")),
        some ((connect file).inserted title body createdAt)) := by
  have hbind := bindTexts_eq_ok_iff.mpr h.bindable
  simp only [createTicket, withConnection, TicketDb.insert, hbind, h.id_left, h.fits, if_true,
    if_false, TicketDb.inserted]

/-- A creation raises where it cannot, and nothing is left of it. -/
theorem createTicket_of_not_insertable {title body createdAt : Str}
    (h : ¬Insertable sql (connect file) title body createdAt) :
    ∃ e, createTicket sql file title body createdAt = (.error e, some (connect file)) := by
  simp only [createTicket, withConnection, TicketDb.insert]
  cases hbind : bindTexts sql [title, body, createdAt] with
  | error e => exact ⟨e, rfl⟩
  | ok u =>
      by_cases hid : (connect file).lastId = 2 ^ 63 - 1
      · simp only [hid, if_true]
        exact ⟨_, rfl⟩
      · by_cases hfits : sql.fits [title, body, lit "open", createdAt] = true
        · exact absurd ⟨bindTexts_eq_ok_iff.mp hbind, hid, hfits⟩ h
        · simp only [hid, hfits, if_false, Bool.false_eq_true]
          exact ⟨_, rfl⟩

/-- The statement of an update raises, or replaces the status of the rows it counts. -/
theorem TicketDb.update_cases (db : TicketDb) (status : Str) (ticketId : ℤ) :
    (∃ e, db.update sql status ticketId = (.error e, db)) ∨
      db.update sql status ticketId =
        (.ok (db.tickets.countP fun t => t.id = ticketId), db.updated ticketId status) := by
  simp only [TicketDb.update]
  cases bindTexts sql [status] with
  | error e => exact .inl ⟨e, rfl⟩
  | ok u =>
      split_ifs
      · exact .inr rfl
      · exact .inl ⟨_, rfl⟩
      · exact .inl ⟨_, rfl⟩

/-- An update returns only of a valid status and an id that is there; where it raises nothing
is left of it, although the rows are counted after they have been updated. -/
theorem updateStatus_cases (ticketId : ℤ) (status : Str) :
    (∃ e, (updateStatus sql py file ticketId status).1 = .error e ∧
      connect (updateStatus sql py file ticketId status).2 = connect file) ∨
    (status ∈ validStatuses ∧ (∃ t ∈ ticketsOf file, t.id = ticketId) ∧
      updateStatus sql py file ticketId status =
        (.ok (.status ticketId status), some ((connect file).updated ticketId status))) := by
  by_cases hvalid : status ∈ validStatuses
  · rw [updateStatus, if_neg (not_not.mpr hvalid)]
    simp only [withConnection]
    obtain ⟨e, he⟩ | hupdate := @TicketDb.update_cases sql (connect file) status ticketId
    · exact .inl ⟨e, by rw [he], by rw [he]; rfl⟩
    · rw [hupdate]
      by_cases hcount : (connect file).tickets.countP (fun t => t.id = ticketId) = 0
      · left
        simp only [hcount, if_true]
        exact ⟨_, rfl, rfl⟩
      · right
        obtain ⟨t, ht, hid⟩ := List.countP_pos_iff.mp (Nat.pos_of_ne_zero hcount)
        refine ⟨hvalid, ⟨t, ht, of_decide_eq_true hid⟩, ?_⟩
        simp only [hcount, if_false]
  · left
    rw [updateStatus, if_pos hvalid]
    exact ⟨_, rfl, rfl⟩

/-- An update of an invalid status, or of an id that is not there, raises and leaves the table
as it was. -/
theorem updateStatus_of_bad {ticketId : ℤ} {status : Str}
    (h : status ∉ validStatuses ∨ ∀ t ∈ ticketsOf file, t.id ≠ ticketId) :
    (∃ e, (updateStatus sql py file ticketId status).1 = .error e) ∧
      ticketsOf (updateStatus sql py file ticketId status).2 = ticketsOf file := by
  obtain ⟨e, he, hconnect⟩ | ⟨hvalid, ⟨t, ht, hid⟩, -⟩ :=
    @updateStatus_cases sql py file ticketId status
  · exact ⟨⟨e, he⟩, congrArg TicketDb.tickets hconnect⟩
  · rcases h with h | h
    · exact absurd hvalid h
    · exact absurd hid (h t ht)

/-- A search leaves the table as it was. -/
theorem connect_searchTickets (query : Str) :
    connect (searchTickets sql file query).2 = connect file := by
  simp only [searchTickets, withConnection]
  cases (connect file).select sql (lit "%" ++ query ++ lit "%") <;> rfl

/-- An operation that raises leaves the table as it was. -/
theorem connect_of_error {op : TicketOp} {e : TicketError}
    (h : (perform sql py file op).1 = .error e) :
    connect (perform sql py file op).2 = connect file := by
  cases op with
  | create title body createdAt =>
      by_cases hinsert : Insertable sql (connect file) title body createdAt
      · simp only [perform, createTicket_of_insertable hinsert, reduceCtorEq] at h
      · obtain ⟨e', he'⟩ := createTicket_of_not_insertable hinsert
        simp only [perform, he']
        rfl
  | search query => exact connect_searchTickets query
  | update ticketId status =>
      obtain ⟨-, -, hconnect⟩ | ⟨-, -, heq⟩ :=
        @updateStatus_cases sql py file ticketId status
      · exact hconnect
      · simp only [perform, heq, reduceCtorEq] at h

/-! ### The table and the map -/

/-- A row with a fresh id is a new entry. -/
theorem entries_concat {tickets : List Ticket} {t : Ticket} (h : ∀ u ∈ tickets, u.id ≠ t.id) :
    entries (tickets ++ [t]) = Function.update (entries tickets) t.id (some t.entry) := by
  funext id
  by_cases hid : id = t.id
  · subst hid
    have hnone : tickets.find? (fun u => u.id = t.id) = none :=
      List.find?_eq_none.mpr fun u hu => by simpa using h u hu
    simp [entries, List.find?_append, hnone]
  · rw [Function.update_of_ne hid]
    simp [entries, List.find?_append, Ne.symm hid]

/-- The status of a row is the status of its entry. -/
theorem entries_withStatus (tickets : List Ticket) (ticketId : ℤ) (status : Str) :
    entries (tickets.map fun t => if t.id = ticketId then t.withStatus status else t) =
      Function.update (entries tickets) ticketId
        ((entries tickets ticketId).map fun e => { e with status := status }) := by
  funext id
  have hsame : ∀ t : Ticket, (if t.id = ticketId then t.withStatus status else t).id = t.id := by
    intro t
    split <;> rfl
  induction tickets with
  | nil => by_cases hid : id = ticketId <;> simp [entries, Function.update_apply, hid]
  | cons t tickets ih =>
      simp only [entries, List.map_cons, List.find?_cons, hsame, Function.update_apply] at ih ⊢
      by_cases ht : t.id = id
      · subst ht
        by_cases hid : t.id = ticketId
        · simp [hid, Ticket.entry, Ticket.withStatus]
        · simp [hid]
      · by_cases hid : id = ticketId
        · subst hid
          simpa [ht] using ih
        · simpa [ht, hid] using ih

/-- What holds between operations. -/
structure TicketRun.Sound (st : TicketRun) : Prop where
  ordered : (connect st.file).Ordered
  valid : ∀ t ∈ ticketsOf st.file, t.status ∈ validStatuses
  refines : entries (ticketsOf st.file) = st.history.foldl TicketMap.apply fun _ => none

theorem TicketRun.sound_init : TicketRun.init.Sound :=
  ⟨⟨.nil, fun _ h => absurd h List.not_mem_nil⟩, fun _ h => absurd h List.not_mem_nil, rfl⟩

/-- A row can be inserted only behind the others. -/
theorem TicketDb.Ordered.inserted {db : TicketDb} (h : db.Ordered) (title body createdAt : Str) :
    (db.inserted title body createdAt).Ordered := by
  have hlast : ∀ t ∈ db.tickets, t.id < db.lastId + 1 := fun t ht => by
    rw [h.lastId_eq]
    exact Int.lt_add_one_of_le (h.le_seq t ht)
  constructor
  · refine List.pairwise_append.mpr ⟨h.increasing, List.pairwise_singleton _ _, fun t ht u hu => ?_⟩
    obtain rfl := List.mem_singleton.mp hu
    exact hlast t ht
  · intro t ht
    rcases List.mem_append.mp ht with ht | ht
    · exact Int.le_of_lt (hlast t ht)
    · obtain rfl := List.mem_singleton.mp ht
      exact Int.le_refl _

/-- An update moves no row. -/
theorem TicketDb.Ordered.updated {db : TicketDb} (h : db.Ordered) (ticketId : ℤ) (status : Str) :
    (db.updated ticketId status).Ordered := by
  have hsame : ∀ t : Ticket, (if t.id = ticketId then t.withStatus status else t).id = t.id := by
    intro t
    split <;> rfl
  constructor
  · refine List.pairwise_map.mpr (h.increasing.imp fun {t u} htu => ?_)
    rwa [hsame, hsame]
  · intro t ht
    obtain ⟨u, hu, rfl⟩ := List.mem_map.mp ht
    rw [hsame]
    exact h.le_seq u hu

/-- **One operation keeps the table in step with the map.** -/
theorem TicketRun.Sound.step {st st' : TicketRun} {op : TicketOp} (h : st.Sound)
    (hstep : (ticketServer sql py).step st op = some st') : st'.Sound := by
  obtain rfl := Option.some.inj hstep
  have hunchanged : connect (perform sql py st.file op).2 = connect st.file →
      TicketMap.apply (entries (ticketsOf st.file)) (op, (perform sql py st.file op).1) =
        entries (ticketsOf st.file) →
      TicketRun.Sound ⟨(perform sql py st.file op).2,
        st.history ++ [(op, (perform sql py st.file op).1)]⟩ := by
    intro hconnect happly
    refine ⟨hconnect ▸ h.ordered, ?_, ?_⟩
    · simp only [ticketsOf, hconnect]
      exact h.valid
    · rw [List.foldl_append, List.foldl_cons, List.foldl_nil, ← h.refines, happly]
      simp only [ticketsOf, hconnect]
  cases op with
  | create title body createdAt =>
      by_cases hinsert : Insertable sql (connect st.file) title body createdAt
      · simp only [createTicket_of_insertable hinsert]
        refine ⟨h.ordered.inserted title body createdAt, fun t ht => ?_, ?_⟩
        · rcases List.mem_append.mp ht with ht | ht
          · exact h.valid t ht
          · obtain rfl := List.mem_singleton.mp ht
            exact List.mem_cons_self
        · have hfresh : ∀ t ∈ (connect st.file).tickets, t.id ≠ (connect st.file).lastId + 1 := by
            intro t ht heq
            have hle := h.ordered.le_seq t ht
            rw [h.ordered.lastId_eq] at heq
            omega
          rw [List.foldl_append, List.foldl_cons, List.foldl_nil, ← h.refines]
          exact entries_concat hfresh
      · obtain ⟨e, he⟩ := createTicket_of_not_insertable hinsert
        refine hunchanged ?_ ?_ <;> simp only [perform, he] <;> rfl
  | search query =>
      exact hunchanged (connect_searchTickets query) rfl
  | update ticketId status =>
      obtain ⟨e, he, hconnect⟩ | ⟨hvalid, -, heq⟩ :=
        @updateStatus_cases sql py st.file ticketId status
      · refine hunchanged hconnect ?_
        simp only [perform, he]
        rfl
      · simp only [heq]
        refine ⟨h.ordered.updated ticketId status, fun t ht => ?_, ?_⟩
        · obtain ⟨u, hu, rfl⟩ := List.mem_map.mp ht
          split
          · exact hvalid
          · exact h.valid u hu
        · rw [List.foldl_append, List.foldl_cons, List.foldl_nil, ← h.refines]
          exact entries_withStatus _ ticketId status

/-- **The table is in step with the map in every reachable state.** -/
theorem TicketRun.sound_of_run {ops : List TicketOp} {st : TicketRun}
    (hrun : (ticketServer sql py).exec .init ops = some st) : st.Sound :=
  System.invariant' (fun _ _ _ h hstep => h.step hstep) TicketRun.sound_init hrun

/-- The server takes every call, and its history has them all. -/
theorem exec_ticketServer (sql : Sqlite) (py : Interpreter) (ops : List TicketOp)
    (st : TicketRun) : ∃ st', (ticketServer sql py).exec st ops = some st' ∧
      st'.history.map Prod.fst = st.history.map Prod.fst ++ ops := by
  induction ops generalizing st with
  | nil => exact ⟨st, rfl, (List.append_nil _).symm⟩
  | cons op ops ih =>
      obtain ⟨st', hrun, hhistory⟩ := ih ⟨(perform sql py st.file op).2,
        st.history ++ [(op, (perform sql py st.file op).1)]⟩
      refine ⟨st', System.exec_cons_eq_some.mpr ⟨_, rfl, hrun⟩, ?_⟩
      rw [hhistory, List.map_append, List.append_assoc]
      rfl

/-- **The ticket store refines a map.** After any calls from no database on, the table is the
map that its history makes: each creation that has returned has added a fresh entry with the
status `open`, each update that has returned has replaced one status. The ids are in order,
all statuses are valid, a creation returns exactly where the row can be inserted, and whatever
raises leaves the whole table as it was — an update of an invalid status or an id that is not
there always does. -/
theorem ticket_store_refines (sql : Sqlite) (py : Interpreter) (ops : List TicketOp) :
    ∃ st, (ticketServer sql py).exec .init ops = some st ∧ st.history.map Prod.fst = ops ∧
      entries (ticketsOf st.file) = st.history.foldl TicketMap.apply (fun _ => none) ∧
      (ticketsOf st.file).Pairwise (fun t u => t.id < u.id) ∧
      (∀ t ∈ ticketsOf st.file, t.status ∈ validStatuses) ∧
      (∀ title body createdAt,
        (∃ e, (perform sql py st.file (.create title body createdAt)).1 = .error e) ∧
            ¬Insertable sql (connect st.file) title body createdAt ∨
          Insertable sql (connect st.file) title body createdAt ∧
            ∃ id, (∀ t ∈ ticketsOf st.file, t.id < id) ∧
              (perform sql py st.file (.create title body createdAt)).1 =
                .ok (.status id (lit "open")) ∧
              ticketsOf (perform sql py st.file (.create title body createdAt)).2 =
                ticketsOf st.file ++ [⟨id, title, body, lit "open", createdAt⟩]) ∧
      (∀ ticketId status,
        (∃ e, (perform sql py st.file (.update ticketId status)).1 = .error e) ∨
          status ∈ validStatuses ∧ (∃ t ∈ ticketsOf st.file, t.id = ticketId) ∧
          ticketsOf (perform sql py st.file (.update ticketId status)).2 =
            (ticketsOf st.file).map fun t =>
              if t.id = ticketId then t.withStatus status else t) ∧
      (∀ query, ticketsOf (perform sql py st.file (.search query)).2 = ticketsOf st.file) ∧
      (∀ op e, (perform sql py st.file op).1 = .error e →
        ticketsOf (perform sql py st.file op).2 = ticketsOf st.file) ∧
      ∀ ticketId status, (status ∉ validStatuses ∨ ∀ t ∈ ticketsOf st.file, t.id ≠ ticketId) →
        (∃ e, (perform sql py st.file (.update ticketId status)).1 = .error e) ∧
          ticketsOf (perform sql py st.file (.update ticketId status)).2 = ticketsOf st.file := by
  obtain ⟨st, hrun, hhistory⟩ := exec_ticketServer sql py ops .init
  have h := TicketRun.sound_of_run hrun
  refine ⟨st, hrun, hhistory, h.refines, h.ordered.increasing, h.valid,
    fun title body createdAt => ?_, fun ticketId status => ?_,
    fun query => congrArg TicketDb.tickets (connect_searchTickets query),
    fun op e he => congrArg TicketDb.tickets (connect_of_error he),
    fun ticketId status hbad => updateStatus_of_bad hbad⟩
  · by_cases hinsert : Insertable sql (connect st.file) title body createdAt
    · right
      refine ⟨hinsert, (connect st.file).lastId + 1, fun t ht => ?_, ?_, ?_⟩
      · have hle := h.ordered.le_seq t ht
        rw [h.ordered.lastId_eq]
        omega
      · simp only [perform, createTicket_of_insertable hinsert]
      · simp only [perform, createTicket_of_insertable hinsert]
        rfl
    · left
      obtain ⟨e, he⟩ := createTicket_of_not_insertable hinsert
      exact ⟨⟨e, congrArg Prod.fst he⟩, hinsert⟩
  · obtain ⟨e, he, -⟩ | ⟨hvalid, hid, heq⟩ :=
      @updateStatus_cases sql py st.file ticketId status
    · exact .inl ⟨e, he⟩
    · exact .inr ⟨hvalid, hid, congrArg (fun r => ticketsOf r.2) heq⟩

/-- The library as it is built by default; a row has a header besides its texts. -/
def defaultSqlite : Sqlite where
  maxPattern := 50000
  fits texts := (texts.map utf8Length).sum + 64 ≤ 1000000000
  fits_of_small texts h := decide_eq_true (by omega)

/-- **A creation may raise**: a lone surrogate has no UTF-8 encoding, and the table gets no
row. -/
theorem create_may_raise : ¬∀ (sql : Sqlite) (py : Interpreter) (ops : List TicketOp)
    (st : TicketRun) (title body createdAt : Str),
    (ticketServer sql py).exec .init ops = some st →
    ∃ id, entries (ticketsOf st.file) id = none ∧
      entries (ticketsOf (perform sql py st.file (.create title body createdAt)).2) =
        Function.update (entries (ticketsOf st.file)) id (some ⟨title, body, lit "open"⟩) := by
  intro hclaim
  obtain ⟨id, -, hentries⟩ := hclaim defaultSqlite ⟨100, fun _ => true⟩ [] .init [0xD800]
    (lit "body") (lit "2026-01-01T00:00:00+00:00") rfl
  have hempty : ticketsOf (perform defaultSqlite ⟨100, fun _ => true⟩ TicketRun.init.file
      (.create [0xD800] (lit "body") (lit "2026-01-01T00:00:00+00:00"))).2 = [] := by
    decide +kernel
  have hnone := congrFun hentries id
  rw [Function.update_self, hempty] at hnone
  exact absurd hnone (by simp [entries])

end AgentOpsGateway
