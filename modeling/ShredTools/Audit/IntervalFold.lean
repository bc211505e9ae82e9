import Mathlib.Algebra.GroupWithZero.Nat
import Mathlib.Algebra.Ring.Int.Defs
import ShredTools.Audit.LiveStats
import ShredTools.Library.Run

/-!
# Published intervals

The export to Postgres folds the rows of the sets, and publishes a row of sums for each provider
whenever an interval ends; then it starts again.  The names of the providers are fixed for the run.

Each column of integers is a sum: over the sets, for what the live statistics count, or over the
rows.  What a batch adds to a column is what its sets add, each on its own
(`IntervalFold.column_ingest`), so what was published and what is held are always together what the
batches brought (`columnSum_published_add`).  The sums over the intervals are those of one fold over
all rows, as long as the rows of a set come in one batch (`intervals_add_up`).
-/

namespace ShredTools.Audit

/-- `ProviderSums` -/
structure ProviderSums (F : Type) where
  /-- Shreds that did not come. -/
  missed : ℕ
  /-- Shreds that failed verification. -/
  invalid : ℕ
  /-- Of these, the ones whose data matches a leader-signed copy. -/
  invalidSig : ℕ
  /-- Of these, the ones whose data differs from a leader-signed copy. -/
  invalidData : ℕ
  /-- Of these, the ones without a leader-signed copy to compare. -/
  invalidUnknown : ℕ
  /-- Shreds with a payload seen before. -/
  duplicated : ℕ
  /-- Shreds of an unknown leader. -/
  sigUnverifiable : ℕ
  /-- Distinct data positions. -/
  nData : ℕ
  /-- Distinct coding positions. -/
  nCode : ℕ
  /-- The sum of the fill times, in microseconds. -/
  fillSumUs : F
  /-- The number of fill times. -/
  fillN : ℕ
  /-- The greatest fill time. -/
  fillMaxUs : F

/-- `ProviderRow`, as `IntervalFold::rows` fills it in. -/
structure ProviderRow (F : Type) where
  /-- The name of the provider. -/
  provider : String
  /-- Sets that the provider delivered something of. -/
  setsPresent : ℕ
  /-- Sets that it delivered valid and decoded. -/
  setsValid : ℕ
  /-- All sets. -/
  setsTotal : ℕ
  /-- Races that it took part in. -/
  races : ℕ
  /-- Races that it won. -/
  wins : ℕ
  /-- The sum of its delays behind the winners. -/
  behindSumUs : F
  /-- The number of these delays. -/
  behindN : ℕ
  /-- The greatest of them. -/
  behindMaxUs : F
  /-- Shreds that did not come. -/
  missed : ℕ
  /-- Shreds that failed verification. -/
  invalid : ℕ
  /-- Of these, the ones whose data matches a leader-signed copy. -/
  invalidSig : ℕ
  /-- Of these, the ones whose data differs from a leader-signed copy. -/
  invalidData : ℕ
  /-- Of these, the ones without a leader-signed copy to compare. -/
  invalidUnknown : ℕ
  /-- Shreds with a payload seen before. -/
  duplicated : ℕ
  /-- Shreds of an unknown leader. -/
  sigUnverifiable : ℕ
  /-- Distinct data positions. -/
  shredsData : ℕ
  /-- Distinct coding positions. -/
  shredsCode : ℕ
  /-- The sum of the fill times. -/
  fillSumUs : F
  /-- The number of fill times. -/
  fillN : ℕ
  /-- The greatest fill time. -/
  fillMaxUs : F

section Sums

variable {F : Type}

/-- `ProviderSums::default` -/
def ProviderSums.default [Zero F] : ProviderSums F := ⟨0, 0, 0, 0, 0, 0, 0, 0, 0, 0, 0, 0⟩

/-- The body of the loop of `IntervalFold::ingest`. -/
def ProviderSums.add [Add F] [Max F] (micros : ℤ → F) (r : SetRow) (s : ProviderSums F) :
    ProviderSums F :=
  let s :=
    { s with
      missed := s.missed + r.missed
      invalid := s.invalid + r.invalid
      invalidSig := s.invalidSig + r.invalidSig
      invalidData := s.invalidData + r.invalidData
      invalidUnknown := s.invalidUnknown + r.invalidUnknown
      duplicated := s.duplicated + r.duplicated
      sigUnverifiable := s.sigUnverifiable + r.sigUnverifiable
      nData := s.nData + r.nData
      nCode := s.nCode + r.nCode }
  match r.decodeNs with
  | some decoded =>
    let fill := micros (max (decoded - r.firstNs) 0)
    { s with
      fillSumUs := s.fillSumUs + fill
      fillN := s.fillN + 1
      fillMaxUs := max s.fillMaxUs fill }
  | none => s

end Sums

/-- `IntervalFold` -/
structure IntervalFold (F : Type) (providers : ℕ) where
  /-- The sums by set. -/
  live : LiveStats F
  /-- The sums by row, for each provider. -/
  sums : List (ProviderSums F)
  /-- Every provider has its sums. -/
  length_sums : sums.length = providers

namespace IntervalFold

variable {F : Type} [Zero F] {providers : ℕ}

/-- `IntervalFold::new` -/
def new (F : Type) [Zero F] (providers : ℕ) : IntervalFold F providers where
  live := .new
  sums := List.replicate providers .default
  length_sums := List.length_replicate

/-- The row of the provider number `id`, whose number a set row has as 16 bits. -/
def row (fold : IntervalFold F providers) (name : String) (id : ℕ) : ProviderRow F :=
  let l := fold.live.provider (id % u16Size)
  let s := fold.sums[id]?.getD .default
  { provider := name
    setsPresent := l.present
    setsValid := l.valid
    setsTotal := fold.live.totalSets
    races := l.races
    wins := l.wins
    behindSumUs := l.deltaSumUs
    behindN := l.deltaN
    behindMaxUs := l.deltaMaxUs
    missed := s.missed
    invalid := s.invalid
    invalidSig := s.invalidSig
    invalidData := s.invalidData
    invalidUnknown := s.invalidUnknown
    duplicated := s.duplicated
    sigUnverifiable := s.sigUnverifiable
    shredsData := s.nData
    shredsCode := s.nCode
    fillSumUs := s.fillSumUs
    fillN := s.fillN
    fillMaxUs := s.fillMaxUs }

/-- `IntervalFold::rows` -/
def rows (names : List String) (fold : IntervalFold F names.length) : List (ProviderRow F) :=
  names.zipIdx.map fun name => fold.row name.1 name.2

/-- `IntervalFold::reset`, for as many providers as there are sums. -/
def reset (_fold : IntervalFold F providers) : IntervalFold F providers := new F providers

variable [Add F] [Max F] (micros : ℤ → F)

/-- The loop of `IntervalFold::ingest` over the rows. -/
def addRows (rows : List SetRow) (sums : List (ProviderSums F)) : List (ProviderSums F) :=
  rows.foldl (fun sums r => sums.modify r.provider (.add micros r)) sums

omit [Zero F] in
lemma length_addRows (rows : List SetRow) (sums : List (ProviderSums F)) :
    (addRows micros rows sums).length = sums.length := by
  unfold addRows
  induction rows generalizing sums with
  | nil => rfl
  | cons r rows ih => rw [List.foldl_cons, ih, List.length_modify]

/-- `IntervalFold::ingest` -/
def ingest (batch : RowBatch providers) (fold : IntervalFold F providers) :
    IntervalFold F providers where
  live := fold.live.ingest micros batch
  sums := addRows micros batch.rows fold.sums
  length_sums := (length_addRows micros batch.rows fold.sums).trans fold.length_sums

end IntervalFold

/-- A call of the sink. -/
inductive SinkCall (providers : ℕ)
  | writeSets (batch : RowBatch providers)
  | flush

/-- The batch of rows that a call brings. -/
def SinkCall.batch? {providers : ℕ} : SinkCall providers → Option (RowBatch providers)
  | writeSets batch => some batch
  | flush => none

/-- `PgSink::write_sets` and `PgSink::flush` on the fold, with the rows that are published. -/
def IntervalFold.step {F : Type} [Zero F] [Add F] [Max F] (micros : ℤ → F) (names : List String)
    (fold : IntervalFold F names.length) :
    SinkCall names.length → IntervalFold F names.length × List (List (ProviderRow F))
  | .writeSets batch => (fold.ingest micros batch, [])
  | .flush => (fold.reset, [fold.rows names])

/-! ### Columns -/

/-- The sums of a provider over its rows. -/
inductive RowColumn
  | missed
  | invalid
  | invalidSig
  | invalidData
  | invalidUnknown
  | duplicated
  | sigUnverifiable
  | shredsData
  | shredsCode
  | fillN

/-- What a row adds to a sum of its provider. -/
def RowColumn.gain (r : SetRow) : RowColumn → ℕ
  | missed => r.missed
  | invalid => r.invalid
  | invalidSig => r.invalidSig
  | invalidData => r.invalidData
  | invalidUnknown => r.invalidUnknown
  | duplicated => r.duplicated
  | sigUnverifiable => r.sigUnverifiable
  | shredsData => r.nData
  | shredsCode => r.nCode
  | fillN => if r.decodeNs.isSome then 1 else 0

/-- The value of a sum. -/
def RowColumn.of {F : Type} (s : ProviderSums F) : RowColumn → ℕ
  | missed => s.missed
  | invalid => s.invalid
  | invalidSig => s.invalidSig
  | invalidData => s.invalidData
  | invalidUnknown => s.invalidUnknown
  | duplicated => s.duplicated
  | sigUnverifiable => s.sigUnverifiable
  | shredsData => s.nData
  | shredsCode => s.nCode
  | fillN => s.fillN

/-- The columns of integers that an interval publishes. -/
inductive Column
  | ofSets (c : SetColumn)
  | ofRows (c : RowColumn)

/-- The value of a column in a published row. -/
def ProviderRow.column {F : Type} (row : ProviderRow F) : Column → ℕ
  | .ofSets .setsTotal => row.setsTotal
  | .ofSets .setsPresent => row.setsPresent
  | .ofSets .setsValid => row.setsValid
  | .ofSets .races => row.races
  | .ofSets .wins => row.wins
  | .ofSets .behindN => row.behindN
  | .ofRows .missed => row.missed
  | .ofRows .invalid => row.invalid
  | .ofRows .invalidSig => row.invalidSig
  | .ofRows .invalidData => row.invalidData
  | .ofRows .invalidUnknown => row.invalidUnknown
  | .ofRows .duplicated => row.duplicated
  | .ofRows .sigUnverifiable => row.sigUnverifiable
  | .ofRows .shredsData => row.shredsData
  | .ofRows .shredsCode => row.shredsCode
  | .ofRows .fillN => row.fillN

/-- What a set adds to a column of a provider. -/
def Column.gain (id : ℕ) (set : List SetRow) : Column → ℕ
  | ofSets c => c.gain (id % u16Size) set
  | ofRows c => (set.map fun r => if r.provider = id then c.gain r else 0).sum

/-- The order of the rows in a set does not matter. -/
theorem Column.gain_perm {set set' : List SetRow} (h : set.Perm set') (id : ℕ) (c : Column) :
    c.gain id set = c.gain id set' := by
  cases c with
  | ofSets c => exact SetColumn.gain_perm h _ c
  | ofRows c => exact (h.map _).sum_eq

section Columns

variable {F : Type} [Zero F] {providers : ℕ}

/-- A column of the row of a provider. -/
lemma IntervalFold.column_row (fold : IntervalFold F providers) (name : String) (id : ℕ)
    (c : Column) :
    (fold.row name id).column c = match c with
      | .ofSets c => c.of fold.live (id % u16Size)
      | .ofRows c => c.of (fold.sums[id]?.getD .default) := by
  rcases c with c | c
  · cases c <;> rfl
  · cases c <;> rfl

/-- A fold that starts has nothing in its columns. -/
theorem IntervalFold.column_new (name : String) (id : ℕ) (c : Column) :
    ((IntervalFold.new F providers).row name id).column c = 0 := by
  rw [column_row]
  rcases c with c | c
  · cases c <;> rfl
  · have hdefault : (List.replicate providers ProviderSums.default)[id]?.getD .default =
        (ProviderSums.default : ProviderSums F) := by
      rw [List.getElem?_replicate]
      split <;> rfl
    dsimp only [new]
    rw [hdefault]
    cases c <;> rfl

variable [Add F] [Max F] {micros : ℤ → F}

omit [Zero F] in
/-- What a row adds to the sums of its provider. -/
lemma RowColumn.of_add (r : SetRow) (s : ProviderSums F) (c : RowColumn) :
    c.of (s.add micros r) = c.of s + c.gain r := by
  unfold ProviderSums.add
  cases hdecode : r.decodeNs with
  | none => cases c <;> simp [of, gain, hdecode]
  | some decoded => cases c <;> simp [of, gain, hdecode]

/-- What rows add to the sums of a provider. -/
lemma RowColumn.of_addRows (rows : List SetRow) {sums : List (ProviderSums F)} {id : ℕ}
    (hid : id < sums.length) (c : RowColumn) :
    c.of ((IntervalFold.addRows micros rows sums)[id]?.getD .default) =
      c.of (sums[id]?.getD .default) +
        (rows.map fun r => if r.provider = id then c.gain r else 0).sum := by
  unfold IntervalFold.addRows
  induction rows generalizing sums with
  | nil => rfl
  | cons r rows ih =>
    have hid' : id < (sums.modify r.provider (.add micros r)).length := by
      rwa [List.length_modify]
    rw [List.foldl_cons, ih hid', List.getElem?_modify, List.getElem?_eq_getElem hid]
    simp only [Option.map_eq_map, Option.map_some, Option.getD_some, List.map_cons, List.sum_cons]
    by_cases hr : r.provider = id
    · rw [if_pos hr, if_pos hr, of_add, Nat.add_assoc]
    · rw [if_neg hr, if_neg hr, Nat.zero_add]

/-- **What a batch adds to a column**, set by set. -/
theorem IntervalFold.column_ingest (batch : RowBatch providers) (fold : IntervalFold F providers)
    (name : String) {id : ℕ} (hid : id < providers) (c : Column) :
    ((fold.ingest micros batch).row name id).column c =
      (fold.row name id).column c +
        List.groupTotal SetRow.setId (fun set => c.gain id set) batch.rows := by
  rw [column_row, column_row]
  cases c with
  | ofSets c => exact SetColumn.of_ingest batch fold.live _ c
  | ofRows c =>
    have hlt : id < fold.sums.length := by rwa [fold.length_sums]
    dsimp only [Column.gain]
    rw [List.groupTotal_sum]
    exact RowColumn.of_addRows batch.rows hlt c

end Columns

/-! ### Intervals -/

/-- The batches of rows that some calls bring. -/
def batches {providers : ℕ} (calls : List (SinkCall providers)) : List (RowBatch providers) :=
  calls.filterMap SinkCall.batch?

/-- A column of a provider, summed over what was published. -/
def columnSum {F : Type} (id : ℕ) (c : Column) (tables : List (List (ProviderRow F))) : ℕ :=
  (tables.map fun rows => rows[id]?.elim 0 fun row => row.column c).sum

section Intervals

variable {F : Type} [Zero F] [Add F] [Max F] (micros : ℤ → F) (names : List String)

/-- The rows that some calls publish, from the start on. -/
def published (calls : List (SinkCall names.length)) : List (List (ProviderRow F)) :=
  (Machine.outputs (IntervalFold.step micros names) (IntervalFold.new F names.length) calls).flatten

variable {names}

omit [Add F] [Max F] in
/-- The row published for a provider. -/
lemma getElem?_rows (fold : IntervalFold F names.length) {id : ℕ} (hid : id < names.length) :
    (fold.rows names)[id]? = some (fold.row names[id] id) := by
  unfold IntervalFold.rows
  rw [List.getElem?_map, List.getElem?_zipIdx, List.getElem?_eq_getElem hid]
  simp

/-- What is published and what is held are together what the batches bring. -/
theorem columnSum_published_add (calls : List (SinkCall names.length)) {id : ℕ}
    (hid : id < names.length) (c : Column) :
    columnSum id c (published micros names calls) +
        ((Machine.finalState (IntervalFold.step micros names) (IntervalFold.new F names.length)
          calls).row names[id] id).column c =
      ((batches calls).map fun batch =>
        List.groupTotal SetRow.setId (fun set => c.gain id set) batch.rows).sum := by
  unfold published
  induction calls using List.reverseRecOn with
  | nil => exact (Nat.zero_add _).trans (IntervalFold.column_new _ _ _)
  | append_singleton calls call ih =>
    rw [Machine.finalState_concat, Machine.outputs_concat, List.flatten_append]
    generalize Machine.finalState (IntervalFold.step micros names) _ calls = fold at ih ⊢
    generalize Machine.outputs (IntervalFold.step micros names) _ calls = tables at ih ⊢
    unfold batches at ih ⊢
    rw [List.filterMap_append, List.map_append, List.sum_append, ← ih]
    unfold columnSum
    rw [List.map_append, List.sum_append]
    cases call with
    | writeSets batch =>
      dsimp only [IntervalFold.step]
      rw [IntervalFold.column_ingest batch fold _ hid]
      simp [SinkCall.batch?]
      omega
    | flush =>
      have hnone : List.filterMap SinkCall.batch? [(SinkCall.flush : SinkCall names.length)] = [] :=
        rfl
      dsimp only [IntervalFold.step, IntervalFold.reset]
      rw [IntervalFold.column_new, hnone]
      simp [getElem?_rows fold hid]

/-- One fold over all rows has in its columns what each of the sets adds. -/
lemma columnSum_ingest (whole : RowBatch names.length) {id : ℕ} (hid : id < names.length)
    (c : Column) :
    columnSum id c [((IntervalFold.new F names.length).ingest micros whole).rows names] =
      List.groupTotal SetRow.setId (fun set => c.gain id set) whole.rows := by
  unfold columnSum
  rw [List.map_singleton, List.sum_singleton, getElem?_rows _ hid]
  dsimp only [Option.elim_some]
  rw [IntervalFold.column_ingest whole _ _ hid, IntervalFold.column_new, Nat.zero_add]

variable (names) in
/-- **Published intervals add up.**  Whatever batches the rows come in, in whatever order, and
wherever the intervals end, the integers of the intervals add up to those of one fold over all rows,
as long as no two batches have rows of one set.  They are what the sets add, each on its own, and a
set is a race exactly if two of its rows are valid and decoded. -/
theorem intervals_add_up (calls : List (SinkCall names.length)) (whole : RowBatch names.length)
    (hrows : ((batches calls).flatMap RowBatch.rows).Perm whole.rows)
    (hsplit : (batches calls).Pairwise fun b b' =>
      ∀ r ∈ b.rows, ∀ r' ∈ b'.rows, r.setId ≠ r'.setId) :
    (∀ id < names.length, ∀ c, columnSum id c (published micros names (calls ++ [.flush])) =
      columnSum id c [((IntervalFold.new F names.length).ingest micros whole).rows names]) ∧
    (∀ id < names.length, ∀ c, columnSum id c (published micros names (calls ++ [.flush])) =
      (whole.sets.map fun set => c.gain id set).sum) ∧
    ∀ set ∈ whole.sets, RaceScores set fun id c => c.gain id set := by
  have hfold : ∀ id < names.length, ∀ c,
      columnSum id c (published micros names (calls ++ [.flush])) =
        List.groupTotal SetRow.setId (fun set => c.gain id set) whole.rows := by
    intro id hid c
    have hperm : ∀ l l', l.Perm l' → c.gain id l = c.gain id l' := fun _ _ h => c.gain_perm h id
    have hbatches : batches (calls ++ [.flush]) = batches calls := by
      unfold batches
      rw [List.filterMap_append]
      exact List.append_nil _
    -- after the last call nothing is held
    have hsum := columnSum_published_add micros (calls ++ [.flush]) hid c
    rw [Machine.finalState_concat] at hsum
    dsimp only [IntervalFold.step, IntervalFold.reset] at hsum
    rw [IntervalFold.column_new, Nat.add_zero, hbatches] at hsum
    rw [hsum, ← List.groupTotal_perm hperm hrows, List.flatMap_def,
      List.groupTotal_flatten _ (List.pairwise_map.mpr hsplit), List.map_map]
    rfl
  refine ⟨fun id hid c => ?_, fun id hid c => ?_, fun set _ => raceScores_gain set⟩
  · rw [hfold id hid c, columnSum_ingest micros whole hid c]
  · have hsets := (whole.sets_perm.map fun set => c.gain id set).sum_eq
    rw [hfold id hid c, hsets, List.map_map, ← List.sum_groups]
    rfl

end Intervals

/-- The names of two providers. -/
def plainNames : List String := ["a", "b"]

/-- A row of a set with 30 data shreds and 2 coding shreds. -/
def plainRow (provider fecSetIndex : ℕ) (decodeNs : Option ℤ) : SetRow where
  provider := provider
  slot := 100
  fecSetIndex := fecSetIndex
  leader := none
  firstNs := 0
  decodeNs := decodeNs
  lastNs := 0
  nData := 30
  nCode := 2
  expectedTotal := none
  missed := 0
  invalid := 0
  invalidSig := 0
  invalidData := 0
  invalidUnknown := 0
  duplicated := 0
  sigUnverifiable := 0
  isValid := decodeNs.isSome
  lastInSlot := false

/-- A race of two providers. -/
def raceBatch : RowBatch plainNames.length where
  rows := [plainRow 0 0 (some 1000), plainRow 1 0 (some 1500)]
  sets := [[plainRow 0 0 (some 1000), plainRow 1 0 (some 1500)]]
  sets_perm := by decide
  provider_lt := by decide

/-- A set that one of them delivers alone. -/
def soloBatch : RowBatch plainNames.length where
  rows := [plainRow 0 32 (some 2000)]
  sets := [[plainRow 0 32 (some 2000)]]
  sets_perm := by decide
  provider_lt := by decide

/-- Both sets in one batch, in another order. -/
def bothBatch : RowBatch plainNames.length where
  rows := [plainRow 1 0 (some 1500), plainRow 0 32 (some 2000), plainRow 0 0 (some 1000)]
  sets := [[plainRow 0 32 (some 2000)], [plainRow 1 0 (some 1500), plainRow 0 0 (some 1000)]]
  sets_perm := by decide
  provider_lt := by decide

/-- The intervals of the race and of the solo delivery add up: provider a is in both sets, and wins
the race; provider b loses it. -/
theorem intervals_add_up_race :
    let tables := published (fun ns => ns / 1000) plainNames
      ([.writeSets raceBatch, .flush, .writeSets soloBatch] ++ [.flush])
    (∀ id < plainNames.length, ∀ c, columnSum id c tables =
      columnSum id c [((IntervalFold.new ℤ plainNames.length).ingest (fun ns => ns / 1000)
        bothBatch).rows plainNames]) ∧
    ([.setsTotal, .setsPresent, .setsValid, .races, .wins, .behindN].map fun c =>
        (columnSum 0 (.ofSets c) tables, columnSum 1 (.ofSets c) tables)) =
      [(2, 2), (2, 1), (2, 1), (1, 1), (1, 0), (1, 1)] ∧
    ([.shredsData, .shredsCode].map fun c =>
        (columnSum 0 (.ofRows c) tables, columnSum 1 (.ofRows c) tables)) =
      [(60, 30), (4, 2)] := by
  have hrows : ((batches [SinkCall.writeSets raceBatch, .flush, .writeSets soloBatch]).flatMap
      RowBatch.rows).Perm bothBatch.rows := by decide
  obtain ⟨hsame, hsets, -⟩ := intervals_add_up (fun ns => ns / 1000) plainNames
    [.writeSets raceBatch, .flush, .writeSets soloBatch] bothBatch hrows (by decide)
  refine ⟨hsame, ?_, ?_⟩
  · simp only [List.map_cons, List.map_nil, hsets 0 (by decide), hsets 1 (by decide)]
    decide
  · simp only [List.map_cons, List.map_nil, hsets 0 (by decide), hsets 1 (by decide)]
    decide

end ShredTools.Audit
