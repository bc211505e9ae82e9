import Mathlib.Data.List.AList
import Mathlib.Data.List.Dedup
import Mathlib.Data.List.Induction
import Mathlib.Data.List.ReduceOption
import Mathlib.Logic.Equiv.Basic
import ShredTools.Audit.VerifiedShred
import ShredTools.Library.Csv
import ShredTools.Postpack.Credits

/-!
# The names of the validators

The names that a manifest gives for the leaders come from a report that is published every day, a
table with a column of keys and one of names.  `refresh_names` takes the newest report that names
anybody, and `leader_names` picks out the leaders of the epoch.  The result is what that table says,
however it is written (`leader_names_exact`).

Here is the parser of the report as it is in the source, line by line and character by character,
with the quotes that a field may stand in.  The specification knows nothing of it: a table is a list
of rows (`namesOf`, `lastName`), and `Published` says which text is a way to write it.  `Newest`
finds the report by the answers of the last days.  What a day is answered, how a key is printed and
which texts are keys are parameters.
-/

namespace ShredTools.Audit

open Postpack (trim)

/-! ### Reading a report -/

/-- `str::lines`, after the characters `cur` of a line: a line feed ends a line, with a carriage
return before it, and the last line has to have something in it. -/
def linesLoop (cur : List Char) : List Char → List (List Char)
  | [] => if cur = [] then [] else [cur]
  | c :: chars =>
    if c = '\n' then
      (if cur.getLast? = some '\r' then cur.dropLast else cur) :: linesLoop [] chars
    else linesLoop (cur ++ [c]) chars

/-- The loop of `parse_csv_line`: the fields so far, the one that it is in, and whether that is in
quotes. -/
def parseCsvLoop (fields : List String) (cur : List Char) (inQuotes : Bool) :
    List Char → List String
  | [] => fields ++ [String.ofList cur]
  | c :: chars =>
    if inQuotes then
      if c = '"' then
        match chars with
        | '"' :: chars => parseCsvLoop fields (cur ++ ['"']) true chars
        | chars => parseCsvLoop fields cur false chars
      else parseCsvLoop fields (cur ++ [c]) true chars
    else if c = '"' then parseCsvLoop fields cur true chars
    else if c = ',' then parseCsvLoop (fields ++ [String.ofList cur]) [] false chars
    else parseCsvLoop fields (cur ++ [c]) false chars

/-- `parse_csv_line` -/
def parseCsvLine (line : List Char) : List String := parseCsvLoop [] [] false line

/-- The names by the keys of the validators. -/
abbrev ValidatorNames := AList fun _ : Pubkey => String

section Reports

variable (parse : String → Option Pubkey)

/-- The body of the loop of `parse_report`. -/
def reportLine (li ni : ℕ) (names : ValidatorNames) (line : List Char) : ValidatorNames :=
  if line = [] then names
  else
    let f := parseCsvLine line
    match f[li]?, f[ni]? with
    | some leader, some name =>
      let name := trim name
      if name = "" then names
      else
        match parse leader with
        | some id => names.insert id name
        | none => names
    | _, _ => names

/-- `parse_report` -/
def parseReport (csv : String) : ValidatorNames :=
  match linesLoop [] csv.toList with
  | [] => ∅
  | header :: lines =>
    let cols := parseCsvLine header
    match cols.idxOf? "leader", cols.idxOf? "name" with
    | some li, some ni => lines.foldl (reportLine parse li ni) ∅
    | _, _ => ∅

/-- How the request for the report of a day ends. -/
inductive ReportReply
  /-- With a report. -/
  | report (csv : String)
  /-- With something that is no text. -/
  | unreadable (error : String)
  /-- With status 404. -/
  | notFound
  /-- With another error. -/
  | failed (error : String)

/-- `LOOKBACK_DAYS` -/
def lookbackDays : ℕ := 7

/-- The address of the report of a day. -/
def reportUrl (day : String) : String :=
  "https://reports.firedancer.io/api/export" ++ "?date=" ++ day ++
    "&report_type=validator&period=daily&min_stake=0"

variable (day : ℕ → String) (get : String → ReportReply)

/-- The loop of `fetch_validator_names`, from the day `back` days ago on, with so many days to go,
after the error `lastErr`. -/
def fetchLoop (back : ℕ) (lastErr : Option String) : ℕ → Except String ValidatorNames
  | 0 => .error (lastErr.getD "no validator report in the lookback window")
  | days + 1 =>
    match get (reportUrl (day back)) with
    | .report csv =>
      let map := parseReport parse csv
      if map ≠ ∅ then .ok map else fetchLoop (back + 1) lastErr days
    | .unreadable error => .error error
    | .notFound => fetchLoop (back + 1) lastErr days
    | .failed error => fetchLoop (back + 1) (some error) days

/-- `fetch_validator_names` -/
def fetchValidatorNames : Except String ValidatorNames :=
  fetchLoop parse day get 0 none (lookbackDays + 1)

/-- The schedule with the names, which `LeaderSchedule` holds side by side. -/
structure NamedSchedule where
  /-- `inner` -/
  inner : LeaderSchedule
  /-- `names` -/
  names : ValidatorNames

/-- `LeaderSchedule::refresh_names` -/
def NamedSchedule.refreshNames (schedule : NamedSchedule) : Except String Unit × NamedSchedule :=
  match fetchValidatorNames parse day get with
  | .ok map => (.ok (), { schedule with names := map })
  | .error error => (.error error, schedule)

end Reports

/-- `Iterator::collect` into a map: the last entry of a key counts. -/
def collect {κ : Type*} [DecidableEq κ] (entries : List (κ × String)) : AList fun _ : κ => String :=
  entries.foldl (fun names entry => names.insert entry.1 entry.2) ∅

/-- `LeaderSchedule::leader_names`, given how keys are printed. -/
def NamedSchedule.leaderNames (toText : Pubkey → String) (schedule : NamedSchedule) :
    AList fun _ : String => String :=
  match schedule.inner with
  | none => ∅
  | some e =>
    collect (e.leaders.reduceOption.dedup.filterMap fun pubkey =>
      (schedule.names.lookup pubkey).map fun name => (toText pubkey, name))

/-! ### Written tables are read back -/

section Scan

variable (fields : List String) (cur : List Char)

/-- A quote outside quotes opens them. -/
lemma parseCsvLoop_open (chars : List Char) :
    parseCsvLoop fields cur false ('"' :: chars) = parseCsvLoop fields cur true chars := by
  rw [parseCsvLoop.eq_def]
  rfl

/-- A comma outside quotes ends the field. -/
lemma parseCsvLoop_comma (chars : List Char) :
    parseCsvLoop fields cur false (',' :: chars) =
      parseCsvLoop (fields ++ [String.ofList cur]) [] false chars := by
  rw [parseCsvLoop.eq_def]
  rfl

/-- Another character outside quotes goes to the field. -/
lemma parseCsvLoop_char {c : Char} (hquote : c ≠ '"') (hcomma : c ≠ ',') (chars : List Char) :
    parseCsvLoop fields cur false (c :: chars) =
      parseCsvLoop fields (cur ++ [c]) false chars := by
  rw [parseCsvLoop.eq_def]
  dsimp only
  rw [if_neg Bool.false_ne_true, if_neg hquote, if_neg hcomma]

/-- A doubled quote in quotes stands for one. -/
lemma parseCsvLoop_pair (chars : List Char) :
    parseCsvLoop fields cur true ('"' :: '"' :: chars) =
      parseCsvLoop fields (cur ++ ['"']) true chars := by
  rw [parseCsvLoop.eq_def]
  rfl

/-- A quote in quotes that no other follows closes them. -/
lemma parseCsvLoop_close {chars : List Char} (h : chars.head? ≠ some '"') :
    parseCsvLoop fields cur true ('"' :: chars) = parseCsvLoop fields cur false chars := by
  rw [parseCsvLoop.eq_def]
  dsimp only
  rw [if_pos rfl, if_pos rfl]
  split
  · exact absurd rfl h
  · rfl

/-- Another character in quotes goes to the field, commas as well. -/
lemma parseCsvLoop_inside {c : Char} (hquote : c ≠ '"') (chars : List Char) :
    parseCsvLoop fields cur true (c :: chars) =
      parseCsvLoop fields (cur ++ [c]) true chars := by
  rw [parseCsvLoop.eq_def]
  dsimp only
  rw [if_pos rfl, if_neg hquote]

/-- Characters that mean nothing outside quotes go to the field. -/
lemma parseCsvLoop_bare {text : List Char} (h : ∀ c ∈ text, c ∉ ['"', ',', '\r', '\n'])
    (rest : List Char) :
    parseCsvLoop fields cur false (text ++ rest) =
      parseCsvLoop fields (cur ++ text) false rest := by
  induction text generalizing cur with
  | nil => rw [List.nil_append, List.append_nil]
  | cons c text ih =>
    obtain ⟨hquote, hcomma, -, -⟩ : c ≠ '"' ∧ c ≠ ',' ∧ c ≠ '\r' ∧ c ≠ '\n' := by
      simpa using h c List.mem_cons_self
    rw [List.cons_append, parseCsvLoop_char fields cur hquote hcomma,
      ih _ (fun d hd => h d (List.mem_cons_of_mem c hd)), List.append_assoc, List.singleton_append]

/-- In quotes, a field whose quotes are doubled is read up to the quote that closes it. -/
lemma parseCsvLoop_doubled (text : List Char) {rest : List Char} (hrest : rest.head? ≠ some '"') :
    parseCsvLoop fields cur true (Csv.doubled text ++ '"' :: rest) =
      parseCsvLoop fields (cur ++ text) false rest := by
  induction text generalizing cur with
  | nil =>
    rw [Csv.doubled, List.flatMap_nil, List.nil_append, List.append_nil,
      parseCsvLoop_close fields cur hrest]
  | cons c text ih =>
    have hdoubled : Csv.doubled (c :: text) =
      (if c = '"' then ['"', '"'] else [c]) ++ Csv.doubled text := List.flatMap_cons
    have hmore : cur ++ [c] ++ text = cur ++ c :: text := by
      rw [List.append_assoc, List.singleton_append]
    rw [hdoubled, List.append_assoc, ← hmore]
    by_cases hc : c = '"'
    · rw [if_pos hc]
      subst hc
      exact (parseCsvLoop_pair fields cur _).trans (ih _)
    · rw [if_neg hc]
      exact (parseCsvLoop_inside fields cur hc _).trans (ih _)

end Scan

/-- A written field is read back. -/
lemma parseCsvLoop_field {field : String} {text : List Char} (h : Csv.Field field text)
    (fields : List String) {rest : List Char} (hrest : rest.head? ≠ some '"') :
    parseCsvLoop fields [] false (text ++ rest) =
      parseCsvLoop fields field.toList false rest := by
  cases h with
  | bare text h =>
    rw [parseCsvLoop_bare fields [] h, List.nil_append, String.toList_ofList]
  | quoted field h =>
    rw [List.cons_append, List.cons_append, List.append_assoc, List.singleton_append,
      parseCsvLoop_open, parseCsvLoop_doubled fields [] field hrest, List.nil_append,
      String.toList_ofList]

/-- A row is read after other fields. -/
lemma parseCsvLoop_row {row : List String} {line : List Char} (h : Csv.Row row line)
    (fields : List String) : parseCsvLoop fields [] false line = fields ++ row := by
  induction h generalizing fields with
  | @single field text h =>
    have hend : ([] : List Char).head? ≠ some '"' := by simp
    have hread := parseCsvLoop_field h fields hend
    rw [List.append_nil] at hread
    rw [hread, parseCsvLoop.eq_def]
    dsimp only
    rw [String.ofList_toList]
  | @cons field text row line h hrow ih =>
    rw [parseCsvLoop_field h fields (by simp), parseCsvLoop_comma, ih, String.ofList_toList,
      List.append_assoc, List.singleton_append]

/-- `parse_csv_line` reads a written row back. -/
lemma parseCsvLine_row {row : List String} {line : List Char} (h : Csv.Row row line) :
    parseCsvLine line = row := parseCsvLoop_row h []

/-- What is not a line feed goes to the line. -/
lemma linesLoop_append {text : List Char} (h : '\n' ∉ text) (cur rest : List Char) :
    linesLoop cur (text ++ rest) = linesLoop (cur ++ text) rest := by
  induction text generalizing cur with
  | nil => rw [List.nil_append, List.append_nil]
  | cons c text ih =>
    rw [List.mem_cons, not_or] at h
    obtain ⟨hc, htext⟩ := h
    rw [List.cons_append, linesLoop, if_neg (Ne.symm hc), ih htext, List.append_assoc,
      List.singleton_append]

/-- The lines of a written table are its rows. -/
lemma lines_table {table : List (List String)} {text : List Char} (h : Csv.Table table text) :
    List.Forall₂ Csv.Row table (linesLoop [] text) := by
  induction h with
  | nil => exact .nil
  | @last row line h hline =>
    have hlines : linesLoop [] line = [line] := by
      have := linesLoop_append h.newline_notMem [] []
      rwa [List.append_nil, List.nil_append, linesLoop, if_neg hline] at this
    rw [hlines]
    exact .cons h .nil
  | @cons row line stop rows text h hstop hrows ih =>
    have hline : '\n' ∉ line ++ stop := by
      rw [List.mem_append]
      rintro (hmem | hmem)
      · exact h.newline_notMem hmem
      · rcases hstop with rfl | rfl <;> simp at hmem
    have hended : (if (line ++ stop).getLast? = some '\r' then (line ++ stop).dropLast
        else line ++ stop) = line := by
      rcases hstop with rfl | rfl
      · rw [List.append_nil, if_neg h.getLast?_ne]
      · rw [List.getLast?_concat, if_pos rfl, List.dropLast_concat]
    rw [linesLoop_append hline, List.nil_append, linesLoop, if_pos rfl, hended]
    exact .cons h ih

/-! ### What a report says -/

section Meaning

variable (parse : String → Option Pubkey)

/-- The field of a row in a column of the header. -/
def column (header row : List String) (name : String) : Option String :=
  (header.idxOf? name).bind (row[·]?)

/-- The key and the name that a row gives, if both are there and the name is not blank. -/
def rowName (header row : List String) : Option (Pubkey × String) := do
  let leader ← column header row "leader"
  let name ← column header row "name"
  let pubkey ← parse leader
  if trim name = "" then none else some (pubkey, trim name)

/-- The keys and names that the rows of a table give. -/
def namesOf : List (List String) → List (Pubkey × String)
  | [] => []
  | header :: rows => rows.filterMap (rowName parse header)

/-- The name that the last row of a table gives for a key. -/
def lastName (table : List (List String)) (pubkey : Pubkey) : Option String :=
  ((namesOf parse table).reverse.find? (·.1 = pubkey)).map (·.2)

lemma collect_concat {κ : Type*} [DecidableEq κ] (entries : List (κ × String))
    (entry : κ × String) :
    collect (entries ++ [entry]) = (collect entries).insert entry.1 entry.2 := List.foldl_concat ..

lemma lookup_collect {κ : Type*} [DecidableEq κ] (entries : List (κ × String)) (k : κ) :
    (collect entries).lookup k = (entries.reverse.find? (·.1 = k)).map (·.2) := by
  induction entries using List.reverseRecOn with
  | nil => rfl
  | append_singleton entries entry ih =>
    rw [collect_concat, List.reverse_concat]
    by_cases hk : entry.1 = k
    · subst hk
      rw [AList.lookup_insert, List.find?_cons_of_pos (by simp), Option.map_some]
    · rw [AList.lookup_insert_ne (Ne.symm hk), List.find?_cons_of_neg (by simpa using hk), ih]

/-- If the entries agree about each key, the table has just these. -/
lemma lookup_collect_eq_some_iff {κ : Type*} [DecidableEq κ] {entries : List (κ × String)}
    (hagree : ∀ a ∈ entries, ∀ b ∈ entries, a.1 = b.1 → a.2 = b.2) {k : κ} {v : String} :
    (collect entries).lookup k = some v ↔ (k, v) ∈ entries := by
  rw [lookup_collect, Option.map_eq_some_iff]
  constructor
  · rintro ⟨entry, hfind, rfl⟩
    have hkey : entry.1 = k := by simpa using List.find?_some hfind
    have hmem : entry ∈ entries := List.mem_reverse.mp (List.mem_of_find?_eq_some hfind)
    rwa [← hkey]
  · intro hmem
    cases hfind : entries.reverse.find? (·.1 = k) with
    | none =>
      have := List.find?_eq_none.mp hfind (k, v) (List.mem_reverse.mpr hmem)
      simp at this
    | some entry =>
      have hkey : entry.1 = k := by simpa using List.find?_some hfind
      have hentry : entry ∈ entries := List.mem_reverse.mp (List.mem_of_find?_eq_some hfind)
      exact ⟨entry, rfl, hagree entry hentry (k, v) hmem hkey⟩

lemma collect_eq_empty_iff {κ : Type*} [DecidableEq κ] {entries : List (κ × String)} :
    collect entries = ∅ ↔ entries = [] := by
  constructor
  · intro hempty
    obtain rfl | ⟨entries, entry, rfl⟩ := List.eq_nil_or_concat entries
    · rfl
    · have hlookup := AList.lookup_insert (collect entries) (a := entry.1) (b := entry.2)
      rw [List.concat_eq_append] at hempty
      rw [← collect_concat, hempty, AList.lookup_empty] at hlookup
      cases hlookup
  · rintro rfl
    rfl

/-- The two columns that are looked for differ. -/
lemma idxOf?_leader_ne {header : List String} {li ni : ℕ}
    (hli : header.idxOf? "leader" = some li) (hni : header.idxOf? "name" = some ni) : li ≠ ni := by
  rintro rfl
  obtain ⟨_, hleader, -⟩ := List.idxOf?_eq_some_iff.mp hli
  obtain ⟨_, hname, -⟩ := List.idxOf?_eq_some_iff.mp hni
  rw [hleader] at hname
  exact absurd hname (by decide)

/-- The name that a row gives, by the places of the two columns. -/
lemma rowName_of_idxOf? {header : List String} {li ni : ℕ}
    (hli : header.idxOf? "leader" = some li) (hni : header.idxOf? "name" = some ni)
    (row : List String) :
    rowName parse header row =
      row[li]?.bind fun leader => row[ni]?.bind fun name => (parse leader).bind fun pubkey =>
        if trim name = "" then none else some (pubkey, trim name) := by
  unfold rowName column
  rw [hli, hni]
  rfl

/-- Without one of the columns, nobody is named. -/
lemma rowName_of_missing {header : List String}
    (h : header.idxOf? "leader" = none ∨ header.idxOf? "name" = none) (row : List String) :
    rowName parse header row = none := by
  unfold rowName column
  rcases h with h | h
  · rw [h]
    rfl
  · rw [h]
    cases (header.idxOf? "leader").bind (row[·]?) <;> rfl

/-- The body of the loop of `parse_report` takes in what the row of the line gives. -/
lemma reportLine_row {header row : List String} {line : List Char} (h : Csv.Row row line)
    {li ni : ℕ} (hli : header.idxOf? "leader" = some li) (hni : header.idxOf? "name" = some ni)
    (names : ValidatorNames) :
    reportLine parse li ni names line =
      (rowName parse header row).elim names fun entry => names.insert entry.1 entry.2 := by
  rw [rowName_of_idxOf? parse hli hni]
  unfold reportLine
  by_cases hline : line = []
  · -- an empty line is a row of one field, in which one of the columns is missing
    subst hline
    have hlength := h.length_of_nil
    have hne := idxOf?_leader_ne hli hni
    rw [if_pos rfl]
    cases hleader : row[li]? with
    | none => rfl
    | some leader =>
      have hli0 : li < row.length := (List.getElem?_eq_some_iff.mp hleader).1
      have hname : row[ni]? = none := List.getElem?_eq_none (by omega)
      rw [hname]
      rfl
  · rw [if_neg hline, parseCsvLine_row h]
    dsimp only
    cases hleader : row[li]? with
    | none => rfl
    | some leader =>
      cases hname : row[ni]? with
      | none => rfl
      | some name =>
        dsimp only [Option.bind_some]
        by_cases hblank : trim name = ""
        · rw [if_pos hblank]
          cases parse leader <;> simp [hblank]
        · rw [if_neg hblank]
          cases parse leader <;> simp [hblank]

/-- The loop of `parse_report` over the lines of some rows. -/
lemma foldl_reportLine {header : List String} {rows : List (List String)}
    {lines : List (List Char)} (h : List.Forall₂ Csv.Row rows lines) {li ni : ℕ}
    (hli : header.idxOf? "leader" = some li) (hni : header.idxOf? "name" = some ni)
    (names : ValidatorNames) :
    lines.foldl (reportLine parse li ni) names =
      (rows.filterMap (rowName parse header)).foldl
        (fun names entry => names.insert entry.1 entry.2) names := by
  induction h generalizing names with
  | nil => rfl
  | @cons row line rows lines h hrows ih =>
    rw [List.foldl_cons, ih, reportLine_row parse h hli hni]
    cases hname : rowName parse header row with
    | none =>
      rw [List.filterMap_cons_none hname]
      rfl
    | some entry =>
      rw [List.filterMap_cons_some hname]
      rfl

/-- `parse_report` reads what a table says, however it is written. -/
lemma parseReport_table {table : List (List String)} {csv : String}
    (h : Csv.Table table csv.toList) : parseReport parse csv = collect (namesOf parse table) := by
  have hlines := lines_table h
  unfold parseReport
  cases table with
  | nil =>
    rw [List.forall₂_nil_left_iff] at hlines
    rw [hlines]
    rfl
  | cons header rows =>
    obtain ⟨line, lines, hheader, hrows, heq⟩ := List.forall₂_cons_left_iff.mp hlines
    rw [heq]
    dsimp only
    rw [parseCsvLine_row hheader]
    have hmissing (hnone : header.idxOf? "leader" = none ∨ header.idxOf? "name" = none) :
        ∅ = collect (namesOf parse (header :: rows)) := by
      have : namesOf parse (header :: rows) = [] :=
        List.filterMap_eq_nil_iff.mpr fun row _ => rowName_of_missing parse hnone row
      rw [this]
      rfl
    cases hli : header.idxOf? "leader" with
    | none => exact hmissing (.inl hli)
    | some li =>
      cases hni : header.idxOf? "name" with
      | none => exact hmissing (.inr hni)
      | some ni => exact foldl_reportLine parse hrows hli hni ∅

/-! ### The names that a manifest gives -/

/-- A day is passed over: there is no report, it cannot be fetched, or it names nobody. -/
def ReportReply.PassedOver : ReportReply → Prop
  | .report csv => ∃ table, Csv.Table table csv.toList ∧ namesOf parse table = []
  | .unreadable _ => False
  | .notFound => True
  | .failed _ => True

variable (day : ℕ → String) (get : String → ReportReply)

/-- The reports that are fetched are tables, written in some way. -/
def Published : Prop :=
  ∀ back ≤ lookbackDays, ∀ csv, get (reportUrl (day back)) = .report csv →
    ∃ table, Csv.Table table csv.toList

/-- The newest report that names anybody is a table, and so many days old. -/
structure Newest (back : ℕ) (table : List (List String)) : Prop where
  /-- The report is not too old. -/
  recent : back ≤ lookbackDays
  /-- The report is fetched. -/
  fetched : ∃ csv, get (reportUrl (day back)) = .report csv ∧ Csv.Table table csv.toList
  /-- The report names somebody. -/
  names : namesOf parse table ≠ []
  /-- The days after it are passed over. -/
  passed : ∀ b < back, (get (reportUrl (day b))).PassedOver parse

/-- A day that is passed over is one day less to go. -/
lemma fetchLoop_of_passedOver {back : ℕ} (h : (get (reportUrl (day back))).PassedOver parse)
    (lastErr : Option String) (days : ℕ) :
    ∃ lastErr', fetchLoop parse day get back lastErr (days + 1) =
      fetchLoop parse day get (back + 1) lastErr' days := by
  rw [fetchLoop]
  cases hreply : get (reportUrl (day back)) with
  | report csv =>
    rw [hreply] at h
    obtain ⟨table, htable, hnames⟩ := h
    have hempty : parseReport parse csv = ∅ := by
      rw [parseReport_table parse htable, collect_eq_empty_iff, hnames]
    dsimp only
    rw [if_neg (not_not.mpr hempty)]
    exact ⟨lastErr, rfl⟩
  | unreadable error =>
    rw [hreply] at h
    exact h.elim
  | notFound => exact ⟨lastErr, rfl⟩
  | failed error => exact ⟨some error, rfl⟩

/-- From the day `back` days ago on, the first report that names anybody is `k` days older, and a
table. -/
structure FirstNamed (back k : ℕ) (table : List (List String)) : Prop where
  /-- The report is fetched. -/
  fetched : ∃ csv, get (reportUrl (day (back + k))) = .report csv ∧ Csv.Table table csv.toList
  /-- The report names somebody. -/
  names : namesOf parse table ≠ []
  /-- The days before it are passed over. -/
  passed : ∀ j < k, (get (reportUrl (day (back + j)))).PassedOver parse

/-- A day that is passed over goes before. -/
lemma firstNamed_succ_iff {back k : ℕ} {table : List (List String)}
    (h : (get (reportUrl (day back))).PassedOver parse) :
    FirstNamed parse day get back (k + 1) table ↔ FirstNamed parse day get (back + 1) k table := by
  have hshift (j : ℕ) : back + (j + 1) = back + 1 + j := by omega
  constructor
  · rintro ⟨hfetched, hnames, hpassed⟩
    exact ⟨hshift k ▸ hfetched, hnames,
      fun j hj => hshift j ▸ hpassed (j + 1) (Nat.succ_lt_succ hj)⟩
  · rintro ⟨hfetched, hnames, hpassed⟩
    refine ⟨hshift k ▸ hfetched, hnames, ?_⟩
    rintro (_ | j) hj
    · exact h
    · exact hshift j ▸ hpassed j (Nat.lt_of_succ_lt_succ hj)

/-- The loop ends with the first report that names somebody. -/
lemma fetchLoop_of_firstNamed {k : ℕ} {table : List (List String)} :
    ∀ {back days : ℕ} (lastErr : Option String), k < days →
      FirstNamed parse day get back k table →
      fetchLoop parse day get back lastErr days = .ok (collect (namesOf parse table)) := by
  induction k with
  | zero =>
    intro back days lastErr hdays h
    obtain ⟨days, rfl⟩ := Nat.exists_eq_succ_of_ne_zero (Nat.ne_of_gt hdays)
    obtain ⟨csv, hfetched, htable⟩ := h.fetched
    rw [Nat.add_zero] at hfetched
    rw [Nat.succ_eq_add_one, fetchLoop, hfetched]
    dsimp only
    rw [parseReport_table parse htable, if_pos (mt collect_eq_empty_iff.mp h.names)]
  | succ k ih =>
    intro back days lastErr hdays h
    obtain ⟨days, rfl⟩ := Nat.exists_eq_succ_of_ne_zero (Nat.ne_of_gt (Nat.zero_lt_of_lt hdays))
    have hpassed : (get (reportUrl (day back))).PassedOver parse := h.passed 0 (Nat.succ_pos k)
    obtain ⟨lastErr', heq⟩ := fetchLoop_of_passedOver parse day get hpassed lastErr days
    rw [Nat.succ_eq_add_one, heq]
    exact ih lastErr' (Nat.lt_of_succ_lt_succ hdays)
      ((firstNamed_succ_iff parse day get hpassed).mp h)

/-- If the loop ends well, then with such a report. -/
lemma exists_firstNamed_of_fetchLoop {map : ValidatorNames} (days : ℕ) :
    ∀ {back : ℕ} {lastErr : Option String},
      (∀ j < days, ∀ csv, get (reportUrl (day (back + j))) = .report csv →
        ∃ table, Csv.Table table csv.toList) →
      fetchLoop parse day get back lastErr days = .ok map →
      ∃ k < days, ∃ table, FirstNamed parse day get back k table := by
  induction days with
  | zero =>
    intro back lastErr _ h
    cases h
  | succ days ih =>
    intro back lastErr hwritten h
    -- the rest of the loop, after a day that is passed over
    have hlater (hpassed : (get (reportUrl (day back))).PassedOver parse) {lastErr' : Option String}
        (hrest : fetchLoop parse day get (back + 1) lastErr' days = .ok map) :
        ∃ k < days + 1, ∃ table, FirstNamed parse day get back k table := by
      have hshift (j : ℕ) : back + 1 + j = back + (j + 1) := by omega
      obtain ⟨k, hk, table, hfirst⟩ :=
        ih (fun j hj csv hcsv => hwritten (j + 1) (Nat.succ_lt_succ hj) csv (hshift j ▸ hcsv)) hrest
      exact ⟨k + 1, Nat.succ_lt_succ hk, table,
        (firstNamed_succ_iff parse day get hpassed).mpr hfirst⟩
    rw [fetchLoop] at h
    cases hreply : get (reportUrl (day back)) with
    | report csv =>
      obtain ⟨table, htable⟩ := hwritten 0 (Nat.succ_pos days) csv hreply
      rw [hreply] at h
      dsimp only at h
      by_cases hnames : namesOf parse table = []
      · have hempty : parseReport parse csv = ∅ := by
          rw [parseReport_table parse htable, collect_eq_empty_iff, hnames]
        rw [if_neg (not_not.mpr hempty)] at h
        exact hlater (hreply ▸ ⟨table, htable, hnames⟩) h
      · exact ⟨0, Nat.succ_pos days, table, ⟨csv, hreply, htable⟩, hnames, fun j hj => by omega⟩
    | unreadable error =>
      rw [hreply] at h
      cases h
    | notFound =>
      rw [hreply] at h
      exact hlater (hreply ▸ trivial) h
    | failed error =>
      rw [hreply] at h
      exact hlater (hreply ▸ trivial) h

/-- The newest report that names anybody is the first one from today on, if it is not too old. -/
lemma newest_iff {back : ℕ} {table : List (List String)} :
    Newest parse day get back table ↔
      back ≤ lookbackDays ∧ FirstNamed parse day get 0 back table := by
  constructor
  · rintro ⟨hrecent, hfetched, hnames, hpassed⟩
    exact ⟨hrecent, by rwa [Nat.zero_add], hnames, by simpa only [Nat.zero_add] using hpassed⟩
  · rintro ⟨hrecent, hfetched, hnames, hpassed⟩
    exact ⟨hrecent, by rwa [Nat.zero_add] at hfetched, hnames,
      by simpa only [Nat.zero_add] using hpassed⟩

/-- `fetch_validator_names` gives the names of the newest report that names anybody. -/
lemma fetchValidatorNames_of_newest {back : ℕ} {table : List (List String)}
    (h : Newest parse day get back table) :
    fetchValidatorNames parse day get = .ok (collect (namesOf parse table)) := by
  obtain ⟨hrecent, hfirst⟩ := (newest_iff parse day get).mp h
  exact fetchLoop_of_firstNamed parse day get none (Nat.lt_succ_of_le hrecent) hfirst

/-- Without one, it fails. -/
lemma fetchValidatorNames_of_none (hwritten : Published day get)
    (h : ∀ back table, ¬ Newest parse day get back table) :
    ∃ error, fetchValidatorNames parse day get = .error error := by
  cases hfetch : fetchValidatorNames parse day get with
  | error error => exact ⟨error, rfl⟩
  | ok map =>
    obtain ⟨k, hk, table, hfirst⟩ := exists_firstNamed_of_fetchLoop parse day get _
      (fun j hj csv hcsv => hwritten j (Nat.le_of_lt_succ hj) csv (Nat.zero_add j ▸ hcsv)) hfetch
    exact absurd ((newest_iff parse day get).mpr ⟨Nat.le_of_lt_succ hk, hfirst⟩) (h k table)

/-- A validator leads a slot of the epoch. -/
def NamedSchedule.Leads (schedule : NamedSchedule) (pubkey : Pubkey) : Prop :=
  ∃ e, schedule.inner = some e ∧ some pubkey ∈ e.leaders

/-- `leader_names` gives the leaders that have a name, if no two keys look alike. -/
lemma NamedSchedule.lookup_leaderNames {toText : Pubkey → String} (hinj : toText.Injective)
    (schedule : NamedSchedule) {text name : String} :
    (schedule.leaderNames toText).lookup text = some name ↔
      ∃ pubkey, toText pubkey = text ∧ schedule.Leads pubkey ∧
        schedule.names.lookup pubkey = some name := by
  unfold leaderNames Leads
  cases schedule.inner with
  | none => simp
  | some e =>
    dsimp only
    rw [lookup_collect_eq_some_iff]
    · simp only [List.mem_filterMap, List.mem_dedup, List.reduceOption_mem_iff,
        Option.map_eq_some_iff, Prod.mk.injEq, Option.some.injEq, exists_eq_left']
      constructor
      · rintro ⟨pubkey, hleads, name, hname, rfl, rfl⟩
        exact ⟨pubkey, rfl, hleads, hname⟩
      · rintro ⟨pubkey, rfl, hleads, hname⟩
        exact ⟨pubkey, hleads, name, hname, rfl, rfl⟩
    · -- entries with one text are about one key
      intro a ha b hb hab
      obtain ⟨p, -, hp⟩ := List.mem_filterMap.mp ha
      obtain ⟨q, -, hq⟩ := List.mem_filterMap.mp hb
      obtain ⟨v, hv, rfl⟩ := Option.map_eq_some_iff.mp hp
      obtain ⟨w, hw, rfl⟩ := Option.map_eq_some_iff.mp hq
      have hpq : p = q := hinj hab
      rw [hpq, hw] at hv
      exact (Option.some.inj hv).symm

/-- The names that a manifest gives after `refresh_names` are those of the leaders of the epoch in
the newest report that names anybody, the last row of a leader with a name counting; without such a
report, `refresh_names` fails and the names are as they were. -/
theorem leader_names_exact {toText : Pubkey → String} (hinj : toText.Injective)
    (hwritten : Published day get) (schedule : NamedSchedule) :
    (∀ back table, Newest parse day get back table →
      (schedule.refreshNames parse day get).1 = .ok () ∧
      ∀ text name,
        ((schedule.refreshNames parse day get).2.leaderNames toText).lookup text = some name ↔
          ∃ pubkey, toText pubkey = text ∧ schedule.Leads pubkey ∧
            lastName parse table pubkey = some name) ∧
    ((∀ back table, ¬ Newest parse day get back table) →
      ∃ error, schedule.refreshNames parse day get = (.error error, schedule)) := by
  constructor
  · intro back table h
    have hrefresh : schedule.refreshNames parse day get =
        (.ok (), { schedule with names := collect (namesOf parse table) }) := by
      unfold NamedSchedule.refreshNames
      rw [fetchValidatorNames_of_newest parse day get h]
    refine ⟨by rw [hrefresh], fun text name => ?_⟩
    rw [hrefresh, NamedSchedule.lookup_leaderNames hinj]
    simp only [lookup_collect]
    rfl
  · intro h
    obtain ⟨error, hfetch⟩ := fetchValidatorNames_of_none parse day get hwritten h
    refine ⟨error, ?_⟩
    unfold NamedSchedule.refreshNames
    rw [hfetch]

end Meaning

/-- The key of 32 zeros. -/
def systemKey : Pubkey := Vector.replicate 32 0

/-- What it is printed as. -/
def systemText : String := "11111111111111111111111111111111"

/-- A parser that knows this key. -/
def parseSystem (text : String) : Option Pubkey :=
  if text = systemText then some systemKey else none

/-- A byte as a character. -/
def latinChar (b : UInt8) : Char where
  val := b.toUInt32
  valid := by
    have hlt : b.toNat < 256 := b.toNat_lt
    left
    simpa using by omega

/-- A printer that prints it so: byte by byte, but for a swap with the key of 32 characters `1`. -/
def printKey (pubkey : Pubkey) : String :=
  String.ofList ((Equiv.swap systemKey (Vector.replicate 32 0x31) pubkey).toList.map latinChar)

lemma printKey_injective : printKey.Injective := by
  intro p q h
  unfold printKey at h
  have hchar : Function.Injective latinChar := fun a b hab =>
    UInt8.toUInt32_inj.mp (congrArg Char.val hab)
  have hlist := List.map_injective_iff.mpr hchar (String.ofList_injective h)
  exact (Equiv.swap _ _).injective (Vector.toList_inj.mp hlist)

lemma printKey_systemKey : printKey systemKey = systemText := by
  unfold printKey
  rw [Equiv.swap_apply_left]
  rfl

/-- A report of one validator, with a comma in the name. -/
def acmeReport : String := "leader,name\n11111111111111111111111111111111,\"Acme, Inc\""

/-- The table of the report. -/
def acmeTable : List (List String) := [["leader", "name"], [systemText, "Acme, Inc"]]

lemma acmeReport_table : Csv.Table acmeTable acmeReport.toList := by
  have hheader : Csv.Row ["leader", "name"] "leader,name".toList :=
    .cons (.bare "leader".toList (by simp)) (.single (.bare "name".toList (by simp)))
  have hrow : Csv.Row [systemText, "Acme, Inc"]
      (systemText.toList ++ ',' :: ('"' :: "Acme, Inc".toList ++ ['"'])) :=
    .cons (.bare systemText.toList (by simp [systemText]))
      (.single (.quoted "Acme, Inc".toList (by simp)))
  exact .cons hheader (.inl rfl) (.last hrow (by simp))

/-- The report of the day before is there, and no other. -/
def acmeReply (url : String) : ReportReply :=
  if url = reportUrl "2026-02-07" then .report acmeReport else .notFound

/-- The last days. -/
def acmeDay (back : ℕ) : String :=
  ["2026-02-08", "2026-02-07", "2026-02-06", "2026-02-05", "2026-02-04", "2026-02-03",
    "2026-02-02", "2026-02-01"].getD back ""

lemma acme_published : Published acmeDay acmeReply := by
  intro back hback csv hcsv
  unfold acmeReply at hcsv
  split at hcsv
  · cases hcsv
    exact ⟨acmeTable, acmeReport_table⟩
  · cases hcsv

lemma acme_newest : Newest parseSystem acmeDay acmeReply 1 acmeTable where
  recent := by decide
  fetched := ⟨acmeReport, if_pos rfl, acmeReport_table⟩
  names := by decide
  passed b hb := by
    obtain rfl : b = 0 := by omega
    have hreply : acmeReply (reportUrl (acmeDay 0)) = .notFound := if_neg (by decide)
    rw [hreply]
    trivial

/-- An epoch in which this validator leads the first slot, and no names so far. -/
def acmeSchedule : NamedSchedule := ⟨some ⟨0, 0, [some systemKey, none]⟩, ∅⟩

/-- The name of the leader is found. -/
theorem leader_names_exact_acme :
    ((acmeSchedule.refreshNames parseSystem acmeDay acmeReply).2.leaderNames printKey).lookup
      systemText = some "Acme, Inc" := by
  have hnames := (leader_names_exact parseSystem acmeDay acmeReply printKey_injective
    acme_published acmeSchedule).1 1 acmeTable acme_newest
  exact (hnames.2 systemText "Acme, Inc").mpr
    ⟨systemKey, printKey_systemKey, ⟨_, rfl, by decide⟩, by decide⟩

end ShredTools.Audit
