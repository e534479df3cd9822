import Mathlib.Algebra.Ring.Int.Defs
import Mathlib.Data.List.Lex
import Mathlib.Data.List.Pairwise
import Mathlib.Order.Fin.Basic
import AgentOpsGateway.ByteLines
import AgentOpsGateway.Ranking
import AgentOpsGateway.TextLines
import AgentOpsGateway.Transition

/-!
# The Docs Server

`search_docs` and `read_doc` answer from a corpus that the first call reads from a directory
and that stays in the module's globals. The three globals are written one after the other:
where the index cannot be built, the corpus is already there, so `read_doc` answers from it
while every search reads the directory once more.

The directory may change between two calls. The index of `rank_bm25` is a parameter, of which
nothing is assumed.

## Main results

* `search_docs_best`: in every run, **a search answers with the best five of the documents
  with a positive score**, in order of score.
* `docs_snapshot`: from the first answered search on, **every answer comes from one reading
  of the directory**.
-/

namespace AgentOpsGateway

open Python Transition

/-! ### The server -/

/-- `c` is in the class `[a-z0-9가-힣]`. -/
def isTokenChar (c : CodePoint) : Bool :=
  (0x61 ≤ c.val && c.val ≤ 0x7A) || isDigit c || (0xAC00 ≤ c.val && c.val ≤ 0xD7A3)

/-- The token read so far, unless it is empty. -/
def tokenOf (token : Str) : List Str := if token = [] then [] else [token]

/-- The matches of `[a-z0-9가-힣]+` from the middle of a match on. -/
def tokensFrom (token : Str) : Str → List Str
  | [] => tokenOf token
  | c :: cs =>
    if isTokenChar c then tokensFrom (token ++ [c]) cs else tokenOf token ++ tokensFrom [] cs

/-- `_tokenize(text)`. -/
def tokenize (lower : Str → Str) (text : Str) : List Str := tokensFrom [] (lower text)

/-- `BM25Okapi`: the index of tokenized documents, `none` where it divides by zero, and the
score of each document for a tokenized query. -/
structure Bm25 (ι score : Type*) where
  build : List (List Str) → Option ι
  getScores : ι → List Str → List score

/-- A directory: the names in it, in the order they are listed, with the bytes that reading
gives, `none` where it fails. -/
structure Directory where
  entries : List (Str × Option Bytes)
  names_nodup : (entries.map Prod.fst).Nodup

/-- What the two tools raise. -/
inductive DocsError
  | osError
  | unicodeDecodeError
  | zeroDivisionError
  | attributeError
  | keyError (key : Str)
  | valueError (message : Str)
  deriving DecidableEq

/-- The globals of the module. -/
structure DocsState (ι : Type*) where
  corpus : Option (List (Str × Str)) := none
  bm25 : Option ι := none
  docIds : List Str := []

/-- `corpus_dir.glob("*.md")`. -/
def globMd (dir : Directory) : List (Str × Option Bytes) :=
  dir.entries.filter fun entry => (lit ".md").isSuffixOf entry.1

/-- `p.stem`: the name up to its last dot, unless that is its first or last character. -/
def stem (name : Str) : Str :=
  match name.reverse.findIdx? (· == ofChar '.') with
  | none => name
  | some behind =>
    let i := name.length - 1 - behind
    if 0 < i ∧ i < name.length - 1 then name.take i else name

/-- `p.read_text(encoding="utf-8")`. -/
def readText : Option Bytes → Except DocsError Str
  | none => .error .osError
  | some bytes =>
    match decodeUtf8 bytes with
    | none => .error .unicodeDecodeError
    | some text => .ok (universalNewlines text)

/-- The dictionary of the files from one on. -/
def corpusFrom (corpus : List (Str × Str)) :
    List (Str × Option Bytes) → Except DocsError (List (Str × Str))
  | [] => .ok corpus
  | (name, content) :: files =>
    match readText content with
    | .error e => .error e
    | .ok text => corpusFrom (dictSet (stem name) text corpus) files

/-- The corpus of a directory, its files in the order of their names. -/
def readCorpus (dir : Directory) : Except DocsError (List (Str × Str)) :=
  corpusFrom [] ((globMd dir).mergeSort fun p q => p.1 ≤ q.1)

/-- A document that a search finds. -/
structure Hit (score : Type*) where
  docId : Str
  score : score
  snippet : Str
  deriving DecidableEq

/-- What `read_doc` returns. -/
structure Doc where
  docId : Str
  content : Str
  deriving DecidableEq

section Tools

variable {ι score : Type*} [LinearOrder score] [Zero score] (bm : Bm25 ι score)
  (lower : Str → Str)

/-- The documents of the corpus as the index takes them. -/
def tokenized (docIds : List Str) (corpus : List (Str × Str)) : List (List Str) :=
  docIds.map fun d => tokenize lower ((dictGet d corpus).getD [])

/-- `_load()`. -/
def load (dir : Directory) (docs : DocsState ι) : Except DocsError Unit × DocsState ι :=
  match readCorpus dir with
  | .error e => (.error e, docs)
  | .ok corpus =>
    let docs := { docs with corpus := some corpus, docIds := corpus.map Prod.fst }
    match bm.build (tokenized lower docs.docIds corpus) with
    | none => (.error .zeroDivisionError, docs)
    | some index => (.ok (), { docs with bm25 := some index })

/-- The entries of ranked documents. -/
def hitsOf (corpus : List (Str × Str)) : List (Str × score) → Except DocsError (List (Hit score))
  | [] => .ok []
  | (docId, score) :: ranked =>
    match dictGet docId corpus with
    | none => .error (.keyError docId)
    | some text => (hitsOf corpus ranked).map (⟨docId, score, text.take 160⟩ :: ·)

/-- The documents with their scores for a query. -/
def scored (index : ι) (docIds : List Str) (query : Str) : List (Str × score) :=
  docIds.zip (bm.getScores index (tokenize lower query))

/-- The rest of `search_docs`, behind the loading. -/
def rankDocs (query : Str) (docs : DocsState ι) : Except DocsError (List (Hit score)) :=
  match docs.bm25 with
  | none => .error .attributeError
  | some index =>
    let ranked := sortedDesc Prod.snd (scored bm lower index docs.docIds query)
    hitsOf (docs.corpus.getD []) ((ranked.take 5).filter fun p => 0 < p.2)

/-- `search_docs(query)`. -/
def searchDocs (query : Str) (dir : Directory) (docs : DocsState ι) :
    Except DocsError (List (Hit score)) × DocsState ι :=
  match if docs.bm25.isNone then load bm lower dir docs else (.ok (), docs) with
  | (.error e, docs) => (.error e, docs)
  | (.ok (), docs) => (rankDocs bm lower query docs, docs)

/-- The rest of `read_doc`, behind the loading. -/
def contentOf (py : Interpreter) (docId : Str) (corpus : List (Str × Str)) :
    Except DocsError Doc :=
  match dictGet docId corpus with
  | none => .error (.valueError (lit "doc " ++ repr py docId ++ lit " not found"))
  | some content => .ok ⟨docId, content⟩

/-- `read_doc(doc_id)`. -/
def readDoc (py : Interpreter) (docId : Str) (dir : Directory) (docs : DocsState ι) :
    Except DocsError Doc × DocsState ι :=
  match if docs.corpus.isNone then load bm lower dir docs else (.ok (), docs) with
  | (.error e, docs) => (.error e, docs)
  | (.ok (), docs) => (contentOf py docId (docs.corpus.getD []), docs)

/-- A call of a tool with what it answered. -/
inductive DocsEvent (score : Type*)
  | searchDocs (query : Str) (answer : Except DocsError (List (Hit score)))
  | readDoc (docId : Str) (answer : Except DocsError Doc)

/-- A call of a tool. -/
inductive DocsCall
  | searchDocs (query : Str)
  | readDoc (docId : Str)

/-- The globals and the calls so far, each with the directory as it was. -/
structure DocsRun (ι score : Type*) where
  docs : DocsState ι := {}
  history : List (Directory × DocsEvent score) := []

/-- A call of a tool, and what it answers. -/
def answerCall (py : Interpreter) (dir : Directory) (docs : DocsState ι) :
    DocsCall → DocsEvent score × DocsState ι
  | .searchDocs query =>
    let (answer, docs) := searchDocs bm lower query dir docs
    (.searchDocs query answer, docs)
  | .readDoc docId =>
    let (answer, docs) := readDoc bm lower py docId dir docs
    (.readDoc docId answer, docs)

/-- The docs server: any call at any time, on a directory that may have changed. -/
def docsServer (py : Interpreter) : System (DocsRun ι score) (Directory × DocsCall) where
  step st a :=
    let (event, docs) := answerCall bm lower py a.1 st.docs a.2
    some ⟨docs, st.history ++ [(a.1, event)]⟩

end Tools

/-! ### The corpus and the directory -/

/-- The keys of a dictionary after a write: a new one comes last. -/
theorem map_fst_dictSet {α : Type*} (k : Str) (v : α) (d : List (Str × α)) :
    (dictSet k v d).map Prod.fst =
      if k ∈ d.map Prod.fst then d.map Prod.fst else d.map Prod.fst ++ [k] := by
  induction d with
  | nil => rfl
  | cons p d ih =>
      obtain ⟨k', v'⟩ := p
      by_cases hk : k' = k
      · simp [dictSet, hk]
      · have hk' : k ≠ k' := fun h => hk h.symm
        rw [dictSet, if_neg hk, List.map_cons, ih, List.map_cons]
        by_cases hmem : k ∈ d.map Prod.fst
        · rw [if_pos hmem, if_pos (List.mem_cons_of_mem _ hmem)]
        · rw [if_neg hmem, if_neg (List.not_mem_cons_of_ne_of_not_mem hk' hmem)]
          rfl

/-- A key of a dictionary has a value. -/
theorem dictGet_isSome_iff {α : Type*} {k : Str} {d : List (Str × α)} :
    (dictGet k d).isSome = true ↔ k ∈ d.map Prod.fst := by
  induction d with
  | nil => simp [dictGet]
  | cons p d ih =>
      obtain ⟨k', v⟩ := p
      by_cases hk : k' = k
      · simp [dictGet, hk]
      · have hk' : k ≠ k' := fun h => hk h.symm
        rw [dictGet, if_neg hk, ih, List.map_cons, List.mem_cons]
        simp [hk']

/-- Where no key repeats, the value of a key is that of its entry. -/
theorem dictGet_eq_some_iff {α : Type*} {k : Str} {v : α} {d : List (Str × α)}
    (hkeys : (d.map Prod.fst).Nodup) : dictGet k d = some v ↔ (k, v) ∈ d := by
  refine ⟨mem_of_dictGet, fun hmem => ?_⟩
  obtain ⟨w, hw⟩ := Option.isSome_iff_exists.mp
    (dictGet_isSome_iff.mpr (List.mem_map_of_mem (f := Prod.fst) hmem))
  have heq := List.inj_on_of_nodup_map hkeys (mem_of_dictGet hw) hmem rfl
  obtain rfl := (Prod.mk.inj heq).2
  exact hw

/-- No two documents of a corpus have one id. Induction on the files. -/
theorem nodup_corpusFrom {files : List (Str × Option Bytes)} {acc corpus : List (Str × Str)}
    (hacc : (acc.map Prod.fst).Nodup) (h : corpusFrom acc files = .ok corpus) :
    (corpus.map Prod.fst).Nodup := by
  induction files generalizing acc with
  | nil =>
      obtain rfl := Except.ok.inj h
      exact hacc
  | cons file files ih =>
      obtain ⟨name, content⟩ := file
      cases htext : readText content with
      | error e => simp [corpusFrom, htext] at h
      | ok text =>
          simp only [corpusFrom, htext] at h
          refine ih ?_ h
          rw [map_fst_dictSet]
          split
          · exact hacc
          · next hnew => exact List.nodup_append.mpr ⟨hacc, List.nodup_singleton _, by
              rintro k hk k' hk' rfl
              exact hnew (List.mem_singleton.mp hk' ▸ hk)⟩

/-- The text of a document is that of the last file with its id. Induction on the files. -/
theorem dictGet_corpusFrom {files : List (Str × Option Bytes)} {acc corpus : List (Str × Str)}
    (h : corpusFrom acc files = .ok corpus) (d : Str) :
    dictGet d corpus = ((files.filter fun file => stem file.1 = d).getLast?).elim
      (dictGet d acc) fun file => (readText file.2).toOption := by
  induction files generalizing acc with
  | nil =>
      obtain rfl := Except.ok.inj h
      rfl
  | cons file files ih =>
      obtain ⟨name, content⟩ := file
      cases htext : readText content with
      | error e => simp [corpusFrom, htext] at h
      | ok text =>
          simp only [corpusFrom, htext] at h
          rw [ih h, dictGet_dictSet]
          by_cases hstem : stem name = d
          · rw [if_pos hstem, List.filter_cons_of_pos (by simpa using hstem), List.getLast?_cons]
            cases (files.filter fun file => stem file.1 = d).getLast? with
            | none => simp [htext, Except.toOption]
            | some last => rfl
          · rw [if_neg hstem, List.filter_cons_of_neg (by simpa using hstem)]

/-- The stem of a name with the suffix: what is in front of it, if that is not empty. -/
theorem stem_append_md (front : Str) :
    stem (front ++ lit ".md") = if front = [] then lit ".md" else front := by
  have hmd : lit ".md" = [ofChar '.', ofChar 'm', ofChar 'd'] := rfl
  have hdot : (lit ".md").reverse.findIdx? (· == ofChar '.') = some 2 := by decide
  rw [stem, List.reverse_append, List.findIdx?_append, hdot]
  cases front with
  | nil => rfl
  | cons c cs => simp [hmd]

/-- The file behind an id: `id.md`, or else, for the id `.md`, the file of that name. -/
def Directory.docFile (dir : Directory) (docId : Str) : Option (Option Bytes) :=
  if docId = [] then none
  else (dictGet (docId ++ lit ".md") dir.entries).or
    (if docId = lit ".md" then dictGet docId dir.entries else none)

/-- The files with an id, in the order of their names. -/
def Directory.filesOf (dir : Directory) (docId : Str) : List (Str × Option Bytes) :=
  ((globMd dir).mergeSort fun p q => p.1 ≤ q.1).filter fun file => stem file.1 = docId

/-- A file has the id `d` where it is `d.md`, or `.md` itself. -/
theorem mem_filesOf {dir : Directory} {d : Str} {file : Str × Option Bytes} :
    file ∈ dir.filesOf d ↔ file ∈ dir.entries ∧
      (d ≠ [] ∧ file.1 = d ++ lit ".md" ∨ d = lit ".md" ∧ file.1 = lit ".md") := by
  rw [Directory.filesOf, List.mem_filter, List.mem_mergeSort, globMd, List.mem_filter, and_assoc,
    List.isSuffixOf_iff_suffix, decide_eq_true_eq]
  refine and_congr_right fun _ => ⟨fun h => ?_, fun h => ?_⟩
  · obtain ⟨⟨front, hfront⟩, hstem⟩ := h
    rw [← hfront, stem_append_md] at hstem
    by_cases hnil : front = []
    · rw [if_pos hnil] at hstem
      exact .inr ⟨hstem.symm, by rw [← hfront, hnil, List.nil_append]⟩
    · rw [if_neg hnil] at hstem
      exact .inl ⟨hstem ▸ hnil, by rw [← hfront, hstem]⟩
  · rcases h with ⟨hd, hname⟩ | ⟨hd, hname⟩
    · rw [hname, stem_append_md, if_neg hd]
      exact ⟨List.suffix_append _ _, rfl⟩
    · rw [hname, hd]
      exact ⟨List.suffix_rfl, rfl⟩

/-- The file `.md.md` comes behind the file `.md`. -/
theorem md_lt_append : lit ".md" < lit ".md" ++ lit ".md" :=
  List.Lex.cons (List.Lex.cons (List.Lex.cons List.Lex.nil))

/-- The last file with an id is the one behind the id. -/
theorem getLast?_filesOf (dir : Directory) (d : Str) :
    (dir.filesOf d).getLast?.map Prod.snd = dir.docFile d := by
  have hget : ∀ name content, dictGet name dir.entries = some content ↔
      (name, content) ∈ dir.entries := fun name content => dictGet_eq_some_iff dir.names_nodup
  cases hlast : (dir.filesOf d).getLast? with
  | none =>
      have hnone : ∀ file, file ∉ dir.filesOf d := fun file h => by
        rw [List.getLast?_eq_none_iff.mp hlast] at h
        exact List.not_mem_nil h
      rw [Option.map_none, Directory.docFile]
      split
      · rfl
      · next hd =>
          have hid : dictGet (d ++ lit ".md") dir.entries = none :=
            Option.eq_none_iff_forall_ne_some.mpr fun content h =>
              hnone _ (mem_filesOf.mpr ⟨(hget _ _).mp h, .inl ⟨hd, rfl⟩⟩)
          rw [hid, Option.none_or]
          split
          · next hmd =>
              exact (Option.eq_none_iff_forall_ne_some.mpr fun content h =>
                hnone _ (mem_filesOf.mpr ⟨(hget _ _).mp h, .inr ⟨hmd, hmd⟩⟩)).symm
          · rfl
  | some last =>
      obtain ⟨name, content⟩ := last
      obtain ⟨hfile, hcases⟩ := mem_filesOf.mp (List.mem_of_getLast? hlast)
      rw [Option.map_some, Directory.docFile]
      rcases hcases with ⟨hd, rfl⟩ | ⟨rfl, rfl⟩
      · rw [if_neg hd, (hget _ _).mpr hfile, Option.some_or]
      · -- a file `.md.md` would come behind the file `.md`
        have hid : dictGet (lit ".md" ++ lit ".md") dir.entries = none := by
          refine Option.eq_none_iff_forall_ne_some.mpr fun other h => ?_
          have hother : (lit ".md" ++ lit ".md", other) ∈ dir.filesOf (lit ".md") :=
            mem_filesOf.mpr ⟨(hget _ _).mp h, .inl ⟨by decide, rfl⟩⟩
          have hle := ((pairwise_mergeSort_key Prod.fst (globMd dir)).filter
            fun file => stem file.1 = lit ".md").rel_getLast hother
          rw [List.getLast?_eq_some_getLast (List.ne_nil_of_mem hother), Option.some.injEq] at hlast
          exact not_le_of_gt md_lt_append (hle.trans_eq (congrArg Prod.fst hlast))
        rw [if_neg (by decide), hid, Option.none_or, if_pos rfl, (hget _ _).mpr hfile]

/-- The ids of a corpus are distinct. -/
theorem nodup_readCorpus {dir : Directory} {corpus : List (Str × Str)}
    (h : readCorpus dir = .ok corpus) : (corpus.map Prod.fst).Nodup :=
  nodup_corpusFrom (by simp) h

/-- **A document is its file**: an id reads the file `id.md` of the directory. -/
theorem dictGet_readCorpus {dir : Directory} {corpus : List (Str × Str)}
    (h : readCorpus dir = .ok corpus) (docId : Str) :
    dictGet docId corpus = (dir.docFile docId).bind fun content => (readText content).toOption := by
  have hget := dictGet_corpusFrom h docId
  rw [← getLast?_filesOf, hget]
  change ((dir.filesOf docId).getLast?).elim none _ = _
  cases (dir.filesOf docId).getLast? <;> rfl

/-- A directory gives one corpus, in whatever order it is listed. -/
theorem readCorpus_of_perm {dir dir' : Directory} (hperm : dir'.entries.Perm dir.entries) :
    readCorpus dir' = readCorpus dir := by
  have hsub : ((globMd dir).map Prod.fst).Nodup :=
    dir.names_nodup.sublist (List.filter_sublist.map _)
  have hfiles : (globMd dir').Perm (globMd dir) := hperm.filter _
  rw [readCorpus, readCorpus, sorted_eq_of_perm hsub hfiles]

/-! ### A run -/

/-- The index of three documents of one word each, all different: for each time the query has
its word a document scores `log(2.5) - log(1.5)`, here in units of `1e-16`. -/
def wordBm25 : Bm25 (List (List Str)) ℤ where
  build docs := if docs.flatten = [] then none else some docs
  getScores docs query := docs.map fun doc =>
    5108256237659907 * (query.countP fun word => word ∈ doc : ℕ)

/-- Three documents. -/
def sampleDirectory : Directory where
  entries := [(lit "a.md", some (asciiBytes (lit "vpn"))),
    (lit "b.md", some (asciiBytes (lit "wifi"))),
    (lit "c.md", some (asciiBytes (lit "mail")))]
  names_nodup := by decide

/-- The same directory after a clean-up. -/
def emptyDirectory : Directory := ⟨[], List.nodup_nil⟩

/-- The corpus of the three documents. -/
def sampleCorpus : List (Str × Str) :=
  [(lit "a", lit "vpn"), (lit "b", lit "wifi"), (lit "c", lit "mail")]

theorem readCorpus_sampleDirectory : readCorpus sampleDirectory = .ok sampleCorpus := by
  have hsorted :
      ((globMd sampleDirectory).mergeSort fun p q => p.1 ≤ q.1) = sampleDirectory.entries := by
    rw [show globMd sampleDirectory = sampleDirectory.entries by decide]
    refine List.mergeSort_of_pairwise ?_
    decide
  rw [readCorpus, hsorted]
  rfl

/-- The scores of the query `vpn`. -/
def sampleScores : List (Str × ℤ) :=
  [(lit "a", 5108256237659907), (lit "b", 0), (lit "c", 0)]

/-- The search, and a read behind the clean-up. -/
def sampleDocsCalls : List (Directory × DocsCall) :=
  [(sampleDirectory, .searchDocs (lit "vpn")), (emptyDirectory, .readDoc (lit "a"))]

/-- The run of these calls. -/
def sampleDocsRun : DocsRun (List (List Str)) ℤ where
  docs := ⟨some sampleCorpus, some [[lit "vpn"], [lit "wifi"], [lit "mail"]],
    [lit "a", lit "b", lit "c"]⟩
  history := [(sampleDirectory, .searchDocs (lit "vpn")
      (.ok [⟨lit "a", 5108256237659907, lit "vpn"⟩])),
    (emptyDirectory, .readDoc (lit "a") (.ok ⟨lit "a", lit "vpn"⟩))]

theorem exec_sampleDocsCalls :
    (docsServer wordBm25 (fun s => s) ⟨0, fun _ => true⟩).exec {} sampleDocsCalls =
      some sampleDocsRun := by
  have hload : load wordBm25 (fun s => s) sampleDirectory {} = (.ok (), sampleDocsRun.docs) := by
    simp only [load, readCorpus_sampleDirectory]
    rfl
  have hscored : scored wordBm25 (fun s => s) [[lit "vpn"], [lit "wifi"], [lit "mail"]]
      [lit "a", lit "b", lit "c"] (lit "vpn") = sampleScores := by
    decide
  have hsorted : sortedDesc Prod.snd sampleScores = sampleScores :=
    List.mergeSort_of_pairwise (by decide)
  have hrank : rankDocs wordBm25 (fun s => s) (lit "vpn") sampleDocsRun.docs =
      .ok [⟨lit "a", 5108256237659907, lit "vpn"⟩] := by
    simp only [rankDocs, sampleDocsRun, hscored, hsorted]
    decide
  have hsearch : searchDocs wordBm25 (fun s => s) (lit "vpn") sampleDirectory {} =
      (.ok [⟨lit "a", 5108256237659907, lit "vpn"⟩], sampleDocsRun.docs) := by
    simp only [searchDocs, Option.isNone_none, if_true, hload, hrank]
  simp only [sampleDocsCalls, System.exec, docsServer, answerCall, hsearch]
  rfl

/-! ### What one call does -/

section Runs

variable {ι score : Type*} {bm : Bm25 ι score} {lower : Str → Str} {py : Interpreter}

/-- The index, where there is one, is that of the corpus. -/
def DocsState.Indexed (bm : Bm25 ι score) (lower : Str → Str) (docs : DocsState ι) : Prop :=
  ∀ index, docs.bm25 = some index → ∃ corpus, docs.corpus = some corpus ∧
    docs.docIds = corpus.map Prod.fst ∧ bm.build (tokenized lower docs.docIds corpus) = some index

/-- The index takes the texts of the corpus in order. -/
theorem tokenized_eq {corpus : List (Str × Str)} (hids : (corpus.map Prod.fst).Nodup) :
    tokenized lower (corpus.map Prod.fst) corpus = corpus.map fun doc => tokenize lower doc.2 := by
  rw [tokenized, List.map_map]
  refine List.map_congr_left fun doc hdoc => ?_
  have hget := (dictGet_eq_some_iff hids).mpr (show (doc.1, doc.2) ∈ corpus from hdoc)
  rw [Function.comp_apply, hget, Option.getD_some]

/-- Ranked documents of the corpus become hits. Induction on the ranked documents. -/
theorem hitsOf_eq {corpus : List (Str × Str)} {ranked : List (Str × score)}
    (hmem : ∀ p ∈ ranked, p.1 ∈ corpus.map Prod.fst) :
    ∃ hits, hitsOf corpus ranked = .ok hits ∧
      hits.map (fun hit => (hit.docId, hit.score)) = ranked ∧
      ∀ hit ∈ hits, ∃ text, dictGet hit.docId corpus = some text ∧
        hit.snippet = text.take 160 := by
  induction ranked with
  | nil => exact ⟨[], rfl, rfl, fun _ h => absurd h List.not_mem_nil⟩
  | cons p ranked ih =>
      obtain ⟨d, s⟩ := p
      obtain ⟨hhead, hrest⟩ := List.forall_mem_cons.mp hmem
      obtain ⟨hits, hhits, hmap, hsnippets⟩ := ih hrest
      obtain ⟨text, htext⟩ := Option.isSome_iff_exists.mp (dictGet_isSome_iff.mpr hhead)
      refine ⟨⟨d, s, text.take 160⟩ :: hits, ?_, ?_, ?_⟩
      · simp only [hitsOf, htext, hhits]
        rfl
      · rw [List.map_cons, hmap]
      · exact List.forall_mem_cons.mpr ⟨⟨text, htext, rfl⟩, hsnippets⟩

/-- What loading leaves behind. -/
theorem load_cases (bm : Bm25 ι score) (lower : Str → Str) (dir : Directory) (docs : DocsState ι) :
    (∃ e, load bm lower dir docs = (.error e, docs)) ∨
      ∃ corpus docs', readCorpus dir = .ok corpus ∧ docs'.corpus = some corpus ∧
        docs'.docIds = corpus.map Prod.fst ∧
        (load bm lower dir docs = (.error .zeroDivisionError, docs') ∧ docs'.bm25 = docs.bm25 ∨
          load bm lower dir docs = (.ok (), docs') ∧
            ∃ index, docs'.bm25 = some index ∧
              bm.build (tokenized lower docs'.docIds corpus) = some index) := by
  cases hread : readCorpus dir with
  | error e => exact .inl ⟨e, by simp [load, hread]⟩
  | ok corpus =>
      refine .inr ?_
      cases hbuild : bm.build (tokenized lower (corpus.map Prod.fst) corpus) with
      | none =>
          refine ⟨corpus, { docs with corpus := some corpus, docIds := corpus.map Prod.fst }, rfl,
            rfl, rfl, .inl ⟨?_, rfl⟩⟩
          simp only [load, hread, hbuild]
      | some index =>
          refine ⟨corpus, ⟨some corpus, some index, corpus.map Prod.fst⟩, rfl, rfl, rfl,
            .inr ⟨?_, index, rfl, hbuild⟩⟩
          simp only [load, hread, hbuild]

/-- What a call leaves behind: globals with an index stay as they are, and without one the
call may have read the directory. -/
structure DocsStep (bm : Bm25 ι score) (lower : Str → Str) (dir : Directory)
    (docs docs' : DocsState ι) : Prop where
  indexed : docs'.Indexed bm lower
  moved : docs' = docs ∨ docs.bm25.isSome = false ∧
    ∃ corpus, readCorpus dir = .ok corpus ∧ docs'.corpus = some corpus

/-- With an index nothing is read again. -/
theorem DocsStep.kept {dir : Directory} {docs docs' : DocsState ι}
    (h : DocsStep bm lower dir docs docs') (hsome : docs.bm25.isSome = true) : docs' = docs := by
  rcases h.moved with heq | ⟨hnone, -⟩
  · exact heq
  · rw [hsome] at hnone
    exact nomatch hnone

/-- The first lines of both tools: load, where what the tool reads is missing. -/
theorem loading_step {docs docs' : DocsState ι} {dir : Directory} {missing : Bool}
    {r : Except DocsError Unit} (hindexed : docs.Indexed bm lower)
    (hmissing : missing = true → docs.bm25 = none)
    (h : (if missing then load bm lower dir docs else (.ok (), docs)) = (r, docs')) :
    DocsStep bm lower dir docs docs' ∧
      (docs'.bm25.isSome = true → r = .ok ()) ∧
      (docs'.bm25.isSome = false → missing = true → ∃ e, r = .error e) := by
  cases missing with
  | false =>
      obtain ⟨rfl, rfl⟩ := Prod.mk.inj h
      exact ⟨⟨hindexed, .inl rfl⟩, fun _ => rfl, fun _ h => nomatch h⟩
  | true =>
      have hnone := hmissing rfl
      rw [if_pos rfl] at h
      rcases load_cases bm lower dir docs with
        ⟨e, he⟩ | ⟨corpus, loaded, hread, hcorpus, hids, ⟨hload, hbm⟩ | ⟨hload, index, hbm, hbuild⟩⟩
      · obtain ⟨rfl, rfl⟩ := Prod.mk.inj (he.symm.trans h)
        exact ⟨⟨hindexed, .inl rfl⟩, fun hs => by simp [hnone] at hs, fun _ _ => ⟨e, rfl⟩⟩
      · obtain ⟨rfl, rfl⟩ := Prod.mk.inj (hload.symm.trans h)
        rw [hnone] at hbm
        exact ⟨⟨fun index hi => by simp [hbm] at hi,
          .inr ⟨by simp [hnone], corpus, hread, hcorpus⟩⟩,
          fun hs => by simp [hbm] at hs, fun _ _ => ⟨_, rfl⟩⟩
      · obtain ⟨rfl, rfl⟩ := Prod.mk.inj (hload.symm.trans h)
        refine ⟨⟨fun i hi => ?_, .inr ⟨by simp [hnone], corpus, hread, hcorpus⟩⟩,
          fun _ => rfl, fun hs => by simp [hbm] at hs⟩
        obtain rfl := Option.some.inj (hbm.symm.trans hi)
        exact ⟨corpus, hcorpus, hids, hbuild⟩

variable [LinearOrder score] [Zero score]

/-- A search that has returned. -/
def DocsEvent.Searched : DocsEvent score → Prop
  | .searchDocs _ answer => ∃ hits, answer = .ok hits
  | .readDoc _ _ => False

/-- The event is what the globals give. -/
def DocsEvent.Answered (bm : Bm25 ι score) (lower : Str → Str) (py : Interpreter)
    (docs : DocsState ι) : DocsEvent score → Prop
  | .searchDocs query answer => answer = rankDocs bm lower query docs
  | .readDoc docId answer => answer = contentOf py docId (docs.corpus.getD [])

/-- **What one call does**: where it leaves no index behind, it is not a search that has
returned, and otherwise its answer is read off the globals. -/
theorem answerCall_step {docs docs' : DocsState ι} {dir : Directory} {call : DocsCall}
    {event : DocsEvent score} (hindexed : docs.Indexed bm lower)
    (h : answerCall bm lower py dir docs call = (event, docs')) :
    DocsStep bm lower dir docs docs' ∧ (docs'.bm25.isSome = false → ¬event.Searched) ∧
      (docs'.bm25.isSome = true → event.Answered bm lower py docs') := by
  cases call with
  | searchDocs query =>
      cases hload : if docs.bm25.isNone then load bm lower dir docs else (.ok (), docs) with
      | mk r loaded =>
          obtain ⟨hstep, hok, herror⟩ := loading_step hindexed Option.isNone_iff_eq_none.mp hload
          cases r with
          | error e =>
              simp only [answerCall, searchDocs, hload] at h
              obtain ⟨rfl, rfl⟩ := Prod.mk.inj h
              exact ⟨hstep, fun _ ⟨hits, hhits⟩ => (nomatch hhits), fun hs => nomatch hok hs⟩
          | ok u =>
              simp only [answerCall, searchDocs, hload] at h
              obtain ⟨rfl, rfl⟩ := Prod.mk.inj h
              refine ⟨hstep, fun hs => ?_, fun _ => rfl⟩
              cases hbm : docs.bm25 with
              | none =>
                  obtain ⟨e, he⟩ := herror hs (by rw [hbm]; rfl)
                  exact nomatch he
              | some index =>
                  rw [hstep.kept (by rw [hbm]; rfl), hbm] at hs
                  exact nomatch hs
  | readDoc docId =>
      have hmissing : docs.corpus.isNone = true → docs.bm25 = none := by
        intro hnone
        refine Option.eq_none_iff_forall_ne_some.mpr fun index hindex => ?_
        obtain ⟨corpus, hcorpus, -⟩ := hindexed index hindex
        simp [hcorpus] at hnone
      cases hload : if docs.corpus.isNone then load bm lower dir docs else (.ok (), docs) with
      | mk r loaded =>
          obtain ⟨hstep, hok, -⟩ := loading_step hindexed hmissing hload
          cases r with
          | error e =>
              simp only [answerCall, readDoc, hload] at h
              obtain ⟨rfl, rfl⟩ := Prod.mk.inj h
              exact ⟨hstep, fun _ hsearched => hsearched, fun hs => nomatch hok hs⟩
          | ok u =>
              simp only [answerCall, readDoc, hload] at h
              obtain ⟨rfl, rfl⟩ := Prod.mk.inj h
              exact ⟨hstep, fun _ hsearched => hsearched, fun _ => rfl⟩

/-! ### Every run -/

/-- The event at a place is a search that has returned. -/
def DocsRun.SearchedAt (st : DocsRun ι score) (i : ℕ) : Prop :=
  ∃ dir event, st.history[i]? = some (dir, event) ∧ event.Searched

/-- What holds between calls. -/
structure DocsRun.Sound (bm : Bm25 ι score) (lower : Str → Str) (py : Interpreter)
    (st : DocsRun ι score) : Prop where
  indexed : st.docs.Indexed bm lower
  loaded : ∀ corpus, st.docs.corpus = some corpus → ∃ k dir event,
    st.history[k]? = some (dir, event) ∧ readCorpus dir = .ok corpus ∧ ∀ i, st.SearchedAt i → k ≤ i
  settled : ∀ i, st.SearchedAt i → st.docs.bm25.isSome = true ∧ ∀ j dir event, i ≤ j →
    st.history[j]? = some (dir, event) → event.Answered bm lower py st.docs

theorem DocsRun.sound_init : DocsRun.Sound bm lower py {} where
  indexed _ h := nomatch h
  loaded _ h := nomatch h
  settled i h := by
    obtain ⟨dir, event, hget, -⟩ := h
    exact nomatch hget

/-- **A call keeps what holds between calls.** The globals move on only while there is no
index, and then no search has returned yet. -/
theorem DocsRun.Sound.step {st st' : DocsRun ι score} {a : Directory × DocsCall}
    (h : st.Sound bm lower py) (hstep : (docsServer bm lower py).step st a = some st') :
    st'.Sound bm lower py := by
  obtain ⟨dir, call⟩ := a
  obtain ⟨docs, history⟩ := st
  cases hcall : answerCall bm lower py dir docs call with
  | mk event docs' =>
      simp only [docsServer, hcall, Option.some.injEq] at hstep
      subst hstep
      obtain ⟨hcallstep, hmissed, hanswered⟩ := answerCall_step h.indexed hcall
      have hsearched : ∀ i, (DocsRun.mk docs' (history ++ [(dir, event)])).SearchedAt i →
          (DocsRun.mk docs history).SearchedAt i ∨ i = history.length ∧ event.Searched := by
        rintro i ⟨dir', event', hget, hev⟩
        rcases getElem?_concat_eq_some.mp hget with hget | ⟨hi, heq⟩
        · exact .inl ⟨dir', event', hget, hev⟩
        · obtain ⟨rfl, rfl⟩ := Prod.mk.inj heq
          exact .inr ⟨hi, hev⟩
      have hold : ∀ i, (DocsRun.mk docs history).SearchedAt i →
          docs' = docs ∧ i < history.length := by
        intro i hi
        refine ⟨hcallstep.kept (h.settled i hi).1, ?_⟩
        obtain ⟨dir', event', hget, -⟩ := hi
        exact lt_length_of_getElem? hget
      refine ⟨hcallstep.indexed, fun corpus hcorpus => ?_, fun i hi => ?_⟩
      · rcases hcallstep.moved with rfl | ⟨hnone, corpus', hread, hcorpus'⟩
        · obtain ⟨k, dir', event', hget, hread, hle⟩ := h.loaded corpus hcorpus
          refine ⟨k, dir', event', getElem?_concat_eq_some.mpr (.inl hget), hread, fun i hi => ?_⟩
          rcases hsearched i hi with hi | ⟨rfl, -⟩
          · exact hle i hi
          · exact Nat.le_of_lt (lt_length_of_getElem? hget)
        · obtain rfl := Option.some.inj (hcorpus'.symm.trans hcorpus)
          refine ⟨history.length, dir, event, getElem?_concat_eq_some.mpr (.inr ⟨rfl, rfl⟩), hread,
            fun i hi => ?_⟩
          rcases hsearched i hi with hi | ⟨rfl, -⟩
          · rw [(h.settled i hi).1] at hnone
            exact nomatch hnone
          · exact Nat.le_refl _
      · have hsome : docs'.bm25.isSome = true := by
          rcases hsearched i hi with hi | ⟨-, hev⟩
          · rw [(hold i hi).1]
            exact (h.settled i hi).1
          · exact (Bool.eq_false_or_eq_true _).resolve_right fun hnone => hmissed hnone hev
        refine ⟨hsome, fun j dir' event' hij hget => ?_⟩
        rcases getElem?_concat_eq_some.mp hget with hget | ⟨-, heq⟩
        · rcases hsearched i hi with hi | ⟨rfl, -⟩
          · rw [(hold i hi).1]
            exact (h.settled i hi).2 j dir' event' hij hget
          · exact absurd (lt_length_of_getElem? hget) (Nat.not_lt.mpr hij)
        · obtain ⟨rfl, rfl⟩ := Prod.mk.inj heq
          exact hanswered hsome

/-- It holds at the end of every run. -/
theorem DocsRun.Sound.run {calls : List (Directory × DocsCall)} {st : DocsRun ι score}
    (hrun : (docsServer bm lower py).exec {} calls = some st) : st.Sound bm lower py :=
  System.invariant' (fun _ _ _ h hstep => h.step hstep) sound_init hrun

/-! ### The answers of a search -/

/-- The hits are the best five: the documents with a positive score that fewer than five
others outrank, in their order, each with the beginning of its text. -/
structure BestFive (entries : List (Str × score)) (corpus : List (Str × Str))
    (hits : List (Hit score)) : Prop where
  ranked : ∃ best : List ((Str × score) × ℕ), best.Pairwise (Outranks Prod.snd) ∧
    (∀ p, p ∈ best ↔ entries[p.2]? = some p.1 ∧ 0 < p.1.2 ∧
      entries.zipIdx.countP (fun q => Outranks Prod.snd q p) < 5) ∧
    hits.map (fun hit => (hit.docId, hit.score)) = best.map Prod.fst
  snippets : ∀ hit ∈ hits, ∃ text, dictGet hit.docId corpus = some text ∧
    hit.snippet = text.take 160

/-- **With an index, a search answers with the best five.** -/
theorem rankDocs_eq (bm : Bm25 ι score) (lower : Str → Str) {docs : DocsState ι}
    {corpus : List (Str × Str)} {index : ι}
    (hbm : docs.bm25 = some index) (hcorpus : docs.corpus = some corpus)
    (hids : docs.docIds = corpus.map Prod.fst) (query : Str) :
    ∃ hits, rankDocs bm lower query docs = .ok hits ∧
      BestFive (scored bm lower index docs.docIds query) corpus hits := by
  have hmem : ∀ p ∈ ((sortedDesc Prod.snd (scored bm lower index docs.docIds query)).take 5).filter
      fun p => 0 < p.2, p.1 ∈ corpus.map Prod.fst := by
    intro p hp
    have hsorted := List.mem_of_mem_take (List.mem_of_mem_filter hp)
    rw [← hids]
    exact (List.of_mem_zip (List.mem_mergeSort.mp hsorted)).1
  obtain ⟨hits, hhits, hmap, hsnippets⟩ := hitsOf_eq hmem
  refine ⟨hits, by simpa only [rankDocs, hbm, hcorpus, Option.getD_some] using hhits,
    ⟨?_, hsnippets⟩⟩
  refine ⟨((rankedIdx Prod.snd (scored bm lower index docs.docIds query)).take 5).filter
    fun p => 0 < p.1.2, ?_, fun p => ?_, ?_⟩
  · exact ((pairwise_rankedIdx _ _).sublist (List.take_sublist _ _)).filter _
  · rw [List.mem_filter, mem_take_rankedIdx, decide_eq_true_eq, and_assoc, and_comm (a := 0 < _)]
  · rw [hmap, ← map_rankedIdx, ← List.map_take, List.filter_map]
    rfl

/-- What has been loaded when a search returns. -/
theorem DocsRun.Sound.snapshot {st : DocsRun ι score} (h : st.Sound bm lower py) {i : ℕ}
    (hi : st.SearchedAt i) :
    ∃ k ≤ i, ∃ dir event corpus index, st.history[k]? = some (dir, event) ∧
      readCorpus dir = .ok corpus ∧ st.docs.corpus = some corpus ∧ st.docs.bm25 = some index ∧
      st.docs.docIds = corpus.map Prod.fst ∧
      bm.build (corpus.map fun doc => tokenize lower doc.2) = some index := by
  obtain ⟨index, hindex⟩ := Option.isSome_iff_exists.mp (h.settled i hi).1
  obtain ⟨corpus, hcorpus, hids, hbuild⟩ := h.indexed index hindex
  obtain ⟨k, dir, event, hk, hread, hle⟩ := h.loaded corpus hcorpus
  rw [hids, tokenized_eq (nodup_readCorpus hread)] at hbuild
  exact ⟨k, hle i hi, dir, event, corpus, index, hk, hread, hcorpus, hindex, hids, hbuild⟩

/-- **A search answers with the best five.** From the first search that returns on,
no search fails, and each answers with the best five documents of one directory as it was
then, whatever becomes of the directory and in whatever order it was listed. -/
theorem search_docs_best {calls : List (Directory × DocsCall)} {st : DocsRun ι score}
    (hrun : (docsServer bm lower py).exec {} calls = some st) {i : ℕ} {dir₀ : Directory}
    {query₀ : Str} {hits₀ : List (Hit score)}
    (hi : st.history[i]? = some (dir₀, .searchDocs query₀ (.ok hits₀))) :
    ∃ k ≤ i, ∃ dir event corpus index, st.history[k]? = some (dir, event) ∧
      (∀ dir', dir'.entries.Perm dir.entries → readCorpus dir' = .ok corpus) ∧
      (corpus.map Prod.fst).Nodup ∧
      bm.build (corpus.map fun doc => tokenize lower doc.2) = some index ∧
      ∀ j dir' query answer, i ≤ j → st.history[j]? = some (dir', .searchDocs query answer) →
        ∃ hits, answer = .ok hits ∧
          BestFive (scored bm lower index (corpus.map Prod.fst) query) corpus hits := by
  have hsound := DocsRun.Sound.run hrun
  have hsearched : st.SearchedAt i := ⟨_, _, hi, hits₀, rfl⟩
  obtain ⟨k, hk, dir, event, corpus, index, hget, hread, hcorpus, hindex, hids, hbuild⟩ :=
    hsound.snapshot hsearched
  refine ⟨k, hk, dir, event, corpus, index, hget, fun dir' hperm => ?_, nodup_readCorpus hread,
    hbuild, fun j dir' query answer hij hj => ?_⟩
  · rw [readCorpus_of_perm hperm, hread]
  · obtain ⟨hits, hhits, hbest⟩ := rankDocs_eq bm lower hindex hcorpus hids query
    rw [← hids]
    exact ⟨hits, ((hsound.settled i hsearched).2 j dir' _ hij hj).trans hhits, hbest⟩

theorem search_docs_best_sample : ∃ corpus index,
    BestFive (scored wordBm25 (fun s => s) index (corpus.map Prod.fst) (lit "vpn")) corpus
      [⟨lit "a", 5108256237659907, lit "vpn"⟩] := by
  obtain ⟨k, -, dir, event, corpus, index, -, -, -, -, hbest⟩ :=
    search_docs_best exec_sampleDocsCalls (i := 0) rfl
  obtain ⟨hits, hhits, h⟩ := hbest 0 _ _ _ (Nat.le_refl 0) rfl
  obtain rfl := Except.ok.inj hhits
  exact ⟨corpus, index, h⟩

/-- `read_doc` on a directory whose files can be read. -/
def Directory.readDoc (dir : Directory) (py : Interpreter) (docId : Str) : Except DocsError Doc :=
  match (dir.docFile docId).bind fun content => (readText content).toOption with
  | none => .error (.valueError (lit "doc " ++ repr py docId ++ lit " not found"))
  | some content => .ok ⟨docId, content⟩

/-- **A search and the reads behind it see one directory.** From the first search that returns
on, `read_doc` gives the files of one directory as they were then, and a hit is the
beginning of what it gives. -/
theorem docs_snapshot {calls : List (Directory × DocsCall)} {st : DocsRun ι score}
    (hrun : (docsServer bm lower py).exec {} calls = some st) {i : ℕ} {dir₀ : Directory}
    {query : Str} {hits : List (Hit score)}
    (hi : st.history[i]? = some (dir₀, .searchDocs query (.ok hits))) :
    ∃ k ≤ i, ∃ dir event, st.history[k]? = some (dir, event) ∧
      ∀ j dir' docId answer, i ≤ j → st.history[j]? = some (dir', .readDoc docId answer) →
        answer = dir.readDoc py docId ∧
        ∀ hit ∈ hits, hit.docId = docId →
          ∃ content, answer = .ok ⟨docId, content⟩ ∧ hit.snippet = content.take 160 := by
  have hsound := DocsRun.Sound.run hrun
  have hsearched : st.SearchedAt i := ⟨_, _, hi, hits, rfl⟩
  obtain ⟨k, hk, dir, event, corpus, index, hget, hread, hcorpus, hindex, hids, -⟩ :=
    hsound.snapshot hsearched
  have hanswered := (hsound.settled i hsearched).2
  refine ⟨k, hk, dir, event, hget, fun j dir' docId answer hij hj => ?_⟩
  have hanswer : answer = contentOf py docId corpus := by
    have h := hanswered j dir' _ hij hj
    rwa [DocsEvent.Answered, hcorpus] at h
  refine ⟨?_, fun hit hhit hid => ?_⟩
  · rw [hanswer, contentOf, dictGet_readCorpus hread, Directory.readDoc]
  · obtain ⟨hits', hhits', hbest⟩ := rankDocs_eq bm lower hindex hcorpus hids query
    have heq : Except.ok hits = Except.ok hits' :=
      (hanswered i dir₀ _ (Nat.le_refl i) hi).trans hhits'
    obtain rfl := Except.ok.inj heq
    obtain ⟨content, hcontent, hsnippet⟩ := hbest.snippets hit hhit
    rw [hid] at hcontent
    exact ⟨content, by rw [hanswer, contentOf, hcontent], hsnippet⟩

theorem docs_snapshot_sample : ∃ content,
    (Except.ok ⟨lit "a", lit "vpn"⟩ : Except DocsError Doc) = .ok ⟨lit "a", content⟩ ∧
      lit "vpn" = content.take 160 := by
  obtain ⟨k, -, dir, event, -, hreads⟩ := docs_snapshot exec_sampleDocsCalls (i := 0) rfl
  exact (hreads 1 _ _ _ (Nat.zero_le 1) rfl).2 _ List.mem_cons_self rfl

end Runs

end AgentOpsGateway
