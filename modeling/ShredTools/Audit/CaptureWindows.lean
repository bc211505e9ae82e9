import Mathlib.Algebra.BigOperators.Group.List.Basic
import Mathlib.Algebra.GroupWithZero.Nat
import Mathlib.Data.List.ReduceOption
import ShredTools.Audit.MainLoop

/-!
# Windows of the capture and their archives

A `CaptureWindow` is what the rounds of the main loop bring between two rotations, told without the
aggregator and the sink: its shreds, those of them that came in time, and its transactions.  A shred
comes in time if its slot is above the floor, which follows the highest slot round by round.

The table of a window has one row for each set that has shreds in time, made of all of these
(`RowsOf`).  `main_archives` says that the archives are the windows, one each and in order, with
such tables, that the numbers of a manifest are those of its tables, and that a snapshot is the
beginning of the table that its window has in the end.
-/

/-- An element of a list that ends in `x` begins one of a list in which `x` has grown. -/
lemma List.getElem?_grows {α : Type*} {tables : List (List α)} {rows more : List α}
    (later : List (List α)) {i : ℕ} {shown : List α}
    (h : ∃ table, (tables ++ [rows])[i]? = some table ∧ shown <+: table) :
    ∃ table, (tables ++ (rows ++ more) :: later)[i]? = some table ∧ shown <+: table := by
  obtain ⟨table, hget, hshown⟩ := h
  rcases Nat.lt_trichotomy i tables.length with hlt | heq | hgt
  · rw [List.getElem?_append_left hlt] at hget
    rw [List.getElem?_append_left hlt]
    exact ⟨table, hget, hshown⟩
  · rw [heq, List.getElem?_concat_length] at hget
    rw [← Option.some.inj hget] at hshown
    refine ⟨rows ++ more, ?_, hshown.trans (List.prefix_append rows more)⟩
    rw [heq, List.getElem?_append_right le_rfl, Nat.sub_self, List.getElem?_cons_zero]
  · rw [List.getElem?_eq_none (by rw [List.length_append, List.length_singleton]; omega)] at hget
    cases hget

namespace ShredTools.Audit

/-! ### Windows -/

/-- What a window of the capture is about. -/
structure CaptureWindow (wait : ℕ) where
  /-- The highest slot and the floor. -/
  clock : Aggregator.Window wait
  /-- The shreds that came. -/
  shreds : List VerifiedShred
  /-- The late shreds whose slot was above the floor. -/
  inTime : List VerifiedShred
  /-- The transactions. -/
  txns : List TxnRow

/-- The transactions that a round brings. -/
def MainRound.txnsRead (rotates : Bool) (round : MainRound) : List TxnRow :=
  round.txns.getD [] ++ if rotates then round.rotate.getD [] else []

namespace CaptureWindow

variable {wait : ℕ}

/-- A window in which nothing came. -/
def opened (clock : Aggregator.Window wait) : CaptureWindow wait := ⟨clock, [], [], []⟩

/-- A shred comes. -/
def hear (w : CaptureWindow wait) (s : VerifiedShred) : CaptureWindow wait :=
  { w with
    clock := w.clock.step (.ingest s)
    shreds := w.shreds ++ [s]
    inTime := if w.clock.floor < s.slot then w.inTime ++ [s] else w.inTime }

/-- Transactions come. -/
def bill (w : CaptureWindow wait) (rows : List TxnRow) : CaptureWindow wait :=
  { w with txns := w.txns ++ rows }

/-- The floor follows the highest slot. -/
def settle (w : CaptureWindow wait) : CaptureWindow wait :=
  { w with clock := w.clock.step .harvest }

/-- What a round brings. -/
def gather (w : CaptureWindow wait) (round : MainRound) : CaptureWindow wait :=
  ((round.shreds.getD []).foldl hear w).settle.bill (round.txns.getD [])

/-- A round; if it ends the window, this window, and the next one instead. -/
def step (rotates : Bool) (w : CaptureWindow wait) (round : MainRound) :
    CaptureWindow wait × Option (CaptureWindow wait) :=
  let w := w.gather round
  match round.rotate with
  | some txns => if rotates then (opened w.clock, some (w.bill txns)) else (w, none)
  | none => (w, none)

variable (wait) in
/-- The windows of a run. -/
def windows (rotates : Bool) (rounds : List MainRound) (batches : List (List VerifiedShred))
    (txns : Option (List TxnRow)) : List (CaptureWindow wait) :=
  let start : CaptureWindow wait := opened Aggregator.Window.start
  (Machine.outputs (step rotates) start rounds).reduceOption ++
    [(batches.flatten.foldl hear (Machine.finalState (step rotates) start rounds)).bill
      (txns.getD [])]

end CaptureWindow

/-! ### Tables -/

/-- The shreds of a set. -/
def ofKey (key : SetKey) (l : List VerifiedShred) : List VerifiedShred :=
  l.filter fun s => s.setKey = key

/-- The rows of the sets that are done, for the shreds that came in time. -/
structure RowsOf (inTime : List VerifiedShred) (done : SetKey → Prop) (rows : List SetRow) :
    Prop where
  /-- A row is about a set that is done, and made of all its shreds. -/
  made : ∀ row ∈ rows, done row.key ∧ ∃ st truth,
    setOf (ofKey row.key inTime) = some st ∧ row = finalize row.key st truth
  /-- A set that is done has a row if it has shreds. -/
  complete : ∀ key, done key → ofKey key inTime ≠ [] → ∃ row ∈ rows, row.key = key
  /-- No set has two rows. -/
  nodup : (rows.map SetRow.key).Nodup

/-- The invalid shreds that some rows tell of. -/
def invalidOf (rows : List SetRow) : ProviderInvalid :=
  ⟨(rows.map SetRow.invalidSig).sum, (rows.map SetRow.invalidData).sum,
    (rows.map SetRow.invalidUnknown).sum⟩

/-- The manifest of some rows, and some numbers of shreds and transactions. -/
def manifestOf (providers : ℕ) (rows : List SetRow) (shreds txns : ℕ) : Manifest where
  minSlot :=
    let lowest := (rows.map SetRow.slot).foldl min (u64Size - 1)
    if lowest = u64Size - 1 then 0 else lowest
  maxSlot := (rows.map SetRow.slot).foldl max 0
  rowsFecSets := rows.length
  rowsShreds := shreds
  rowsTxns := txns
  invalid := invalidOf rows
  providerShreds := (List.range providers).map fun id =>
    invalidOf (rows.filter fun row => row.provider = id)

/-- The archive of a window with a table. -/
def CaptureWindow.archive {wait : ℕ} (dumpShreds dumpTxns : Bool) (w : CaptureWindow wait)
    (rows : List SetRow) : Archive where
  sets := rows
  shreds := if dumpShreds then some w.shreds else none
  txns := if dumpTxns then some w.txns else none

/-- The manifest of a window with a table. -/
def CaptureWindow.manifest {wait : ℕ} (providers : ℕ) (dumpShreds dumpTxns : Bool)
    (w : CaptureWindow wait) (rows : List SetRow) : Manifest :=
  manifestOf providers rows (if dumpShreds then w.shreds.length else 0)
    (if dumpTxns then w.txns.length else 0)

/-! ### The aggregator in a window -/

/-- One more shred. -/
lemma ofKey_concat (key : SetKey) (l : List VerifiedShred) (s : VerifiedShred) :
    ofKey key (l ++ [s]) = if s.setKey = key then ofKey key l ++ [s] else ofKey key l := by
  unfold ofKey
  rw [List.filter_append, List.filter_singleton]
  by_cases hkey : s.setKey = key
  · rw [if_pos hkey, decide_eq_true hkey, cond_true]
  · rw [if_neg hkey, decide_eq_false hkey, cond_false, List.append_nil]

/-- The aggregator follows the clock of a window, has the sets whose slots are above the floor, and
has given the rows of the others. -/
structure Aggregator.Holds {wait : ℕ} (clock : Aggregator.Window wait)
    (inTime : List VerifiedShred) (rows : List SetRow) (agg : Aggregator) : Prop where
  /-- The configuration. -/
  configured : agg.maxWaitSlots = wait
  /-- The highest slot. -/
  highest : agg.maxSlot = clock.highest
  /-- The floor. -/
  floor : agg.evictedUpto = clock.floor
  /-- The pending sets. -/
  pending : ∀ key, agg.sets.lookup key =
    if key.slot ≤ clock.floor then none else setOf (ofKey key inTime)
  /-- The rows given. -/
  rowsOf : RowsOf inTime (fun key => key.slot ≤ clock.floor) rows

namespace Aggregator.Holds

variable {wait : ℕ} {clock : Aggregator.Window wait} {inTime : List VerifiedShred}
  {rows : List SetRow} {agg : Aggregator}

/-- A new aggregator has nothing of a window in which nothing came. -/
theorem new (wait : ℕ) :
    (Aggregator.new wait).Holds (Aggregator.Window.start : Aggregator.Window wait) [] [] where
  configured := rfl
  highest := rfl
  floor := rfl
  pending key := (ite_self none).symm
  rowsOf :=
    { made := by simp
      complete := fun _ _ hne => absurd rfl hne
      nodup := List.nodup_nil }

/-- A pending set is above the floor and made of all its shreds. -/
theorem of_lookup (h : agg.Holds clock inTime rows) {key : SetKey} {st : SetState}
    (hst : agg.sets.lookup key = some st) :
    clock.floor < key.slot ∧ setOf (ofKey key inTime) = some st := by
  rw [h.pending] at hst
  by_cases hle : key.slot ≤ clock.floor
  · rw [if_pos hle] at hst
    cases hst
  · rw [if_neg hle] at hst
    exact ⟨not_le.mp hle, hst⟩

/-- The aggregator takes in a shred. -/
theorem ingest (h : agg.Holds clock inTime rows) (s : VerifiedShred) :
    (agg.ingest s).Holds (clock.step (.ingest s))
      (if clock.floor < s.slot then inTime ++ [s] else inTime) rows := by
  refine ⟨?_, ?_, ?_, ?_, ?_⟩
  · rw [ingest_maxWaitSlots, h.configured]
  · rw [ingest_maxSlot, h.highest]
    rfl
  · rw [ingest_evictedUpto, h.floor]
    rfl
  · intro key
    change _ = if key.slot ≤ clock.floor then none else _
    rw [lookup_ingest, h.floor, h.pending]
    by_cases hlt : clock.floor < s.slot
    · rw [if_pos hlt, ofKey_concat]
      by_cases hkey : key = s.setKey
      · have hnot : ¬ key.slot ≤ clock.floor := not_le.mpr (hkey ▸ hlt)
        rw [if_pos ⟨hkey, hlt⟩, if_neg hnot, if_pos hkey.symm, setOf_concat, setFor, ← hkey,
          h.pending, if_neg hnot]
      · rw [if_neg fun hboth => hkey hboth.1, if_neg (Ne.symm hkey)]
    · rw [if_neg hlt, if_neg fun hboth => hlt hboth.2]
  · change RowsOf _ (fun key => key.slot ≤ clock.floor) rows
    by_cases hlt : clock.floor < s.slot
    -- a set of a closed slot does not get the shred
    · have hsame : ∀ key : SetKey, key.slot ≤ clock.floor →
          ofKey key (inTime ++ [s]) = ofKey key inTime := by
        intro key hle
        rw [ofKey_concat, if_neg]
        intro hkey
        have hslot : s.slot = key.slot := congrArg SetKey.slot hkey
        omega
      rw [if_pos hlt]
      refine ⟨?_, ?_, h.rowsOf.nodup⟩
      · intro row hrow
        have hmade := h.rowsOf.made row hrow
        rw [hsame _ hmade.1]
        exact hmade
      · intro key hle hne
        rw [hsame key hle] at hne
        exact h.rowsOf.complete key hle hne
    · rw [if_neg hlt]
      exact h.rowsOf

/-- With the rows of a harvest, there are those of the sets that were done or ready. -/
lemma rowsOf_harvest (h : agg.Holds clock inTime rows) (drainAll : Bool) :
    RowsOf inTime (fun key => key.slot ≤ clock.floor ∨ agg.ready drainAll key = true)
      (rows ++ (agg.harvest drainAll).2) where
  made row hrow := by
    rcases List.mem_append.mp hrow with hold | hnew
    · obtain ⟨hdone, hmade⟩ := h.rowsOf.made row hold
      exact ⟨Or.inl hdone, hmade⟩
    · obtain ⟨key, st, hlookup, hready, rfl⟩ := mem_harvest_iff.mp hnew
      exact ⟨Or.inr hready, st, agg.truth, (h.of_lookup hlookup).2, rfl⟩
  complete key hdone hne := by
    by_cases hle : key.slot ≤ clock.floor
    · obtain ⟨row, hrow, hkey⟩ := h.rowsOf.complete key hle hne
      exact ⟨row, List.mem_append_left _ hrow, hkey⟩
    · obtain ⟨st, hst⟩ := Option.ne_none_iff_exists'.mp (mt setOf_eq_none_iff.mp hne)
      have hlookup : agg.sets.lookup key = some st := by rw [h.pending, if_neg hle, hst]
      exact ⟨finalize key st agg.truth, List.mem_append_right _
        (mem_harvest_iff.mpr ⟨key, st, hlookup, hdone.resolve_left hle, rfl⟩), rfl⟩
  nodup := by
    rw [List.map_append]
    refine h.rowsOf.nodup.append (nodup_keys_harvest agg drainAll) ?_
    intro key hold hnew
    obtain ⟨row, hrow, rfl⟩ := List.mem_map.mp hold
    obtain ⟨row', hrow', heq⟩ := List.mem_map.mp hnew
    obtain ⟨key', st, hlookup, -, rfl⟩ := mem_harvest_iff.mp hrow'
    have hle : row.key.slot ≤ clock.floor := (h.rowsOf.made row hrow).1
    have hlt : clock.floor < key'.slot := (h.of_lookup hlookup).1
    rw [key_finalize] at heq
    rw [heq] at hlt
    omega

/-- The cutoff is the floor to which a harvest moves the clock. -/
theorem cutoff_eq (h : agg.Holds clock inTime rows) :
    agg.cutoff = (clock.step .harvest).floor := by
  unfold cutoff
  rw [h.highest, h.configured]
  rfl

/-- A harvest gives the rows of the sets that the floor passes. -/
theorem harvest (h : agg.Holds clock inTime rows) :
    (agg.harvest false).1.Holds (clock.step .harvest) inTime
      (rows ++ (agg.harvest false).2) := by
  have hle_cutoff : agg.evictedUpto ≤ agg.cutoff := by
    rw [h.floor, h.cutoff_eq]
    exact Window.floor_le_step clock .harvest
  have hready : ∀ key, agg.ready false key = true ↔ key.slot ≤ (clock.step .harvest).floor := by
    intro key
    rw [← h.cutoff_eq]
    simp [ready]
  refine ⟨?_, ?_, ?_, ?_, ?_⟩
  · rw [harvest_maxWaitSlots, h.configured]
  · rw [harvest_maxSlot, h.highest]
    rfl
  · rw [harvest_evictedUpto, if_neg Bool.false_ne_true, max_eq_right hle_cutoff, h.cutoff_eq]
  · intro key
    rw [harvest_sets, AList.lookup_retain, h.pending]
    by_cases hle : key.slot ≤ (clock.step .harvest).floor
    · rw [if_pos hle, Option.filter_eq_none_iff]
      intro st _
      simp [(hready key).mpr hle]
    · have hlt : ¬ key.slot ≤ clock.floor := fun hle' =>
        hle (hle'.trans (Window.floor_le_step clock .harvest))
      have hnot : agg.ready false key = false := by
        rw [← Bool.not_eq_true, hready]
        exact hle
      rw [if_neg hle, if_neg hlt, hnot]
      cases setOf (ofKey key inTime) <;> rfl
  · have hdone : (fun key => key.slot ≤ clock.floor ∨ agg.ready false key = true) =
        fun key => key.slot ≤ (clock.step .harvest).floor := by
      funext key
      rw [hready, or_iff_right_of_imp fun hle => hle.trans (Window.floor_le_step clock .harvest)]
    rw [← hdone]
    exact h.rowsOf_harvest false

/-- With the rows of a drain, there are those of all sets. -/
lemma rowsOf_drain (h : agg.Holds clock inTime rows) :
    RowsOf inTime (fun _ => True) (rows ++ (agg.harvest true).2) := by
  have hrows := h.rowsOf_harvest true
  refine ⟨?_, ?_, hrows.nodup⟩
  · intro row hrow
    exact ⟨trivial, (hrows.made row hrow).2⟩
  · intro key _ hne
    exact hrows.complete key (Or.inr rfl) hne

/-- A drain leaves nothing for the next window. -/
theorem drain (h : agg.Holds clock inTime rows) :
    (agg.harvest true).1.Holds (clock.step .harvest) [] [] where
  configured := by rw [harvest_maxWaitSlots, h.configured]
  highest := by
    rw [harvest_maxSlot, h.highest]
    rfl
  floor := by rw [harvest_evictedUpto, if_pos rfl, h.cutoff_eq]
  pending key := by
    rw [AList.lookup_eq_none.mpr (not_mem_sets_drain agg key)]
    exact (ite_self none).symm
  rowsOf :=
    { made := by simp
      complete := fun _ _ hne => absurd rfl hne
      nodup := List.nodup_nil }

end Aggregator.Holds

/-! ### The sums of a window -/

/-- One more row. -/
lemma invalidOf_concat (rows : List SetRow) (r : SetRow) :
    invalidOf (rows ++ [r]) = (invalidOf rows).add r := by
  simp [invalidOf, ProviderInvalid.add]

/-- One more row, which may not count. -/
lemma invalidOf_filter_concat (rows : List SetRow) (r : SetRow) (id : ℕ) :
    invalidOf ((rows ++ [r]).filter fun row => row.provider = id) =
      if r.provider = id then (invalidOf (rows.filter fun row => row.provider = id)).add r
      else invalidOf (rows.filter fun row => row.provider = id) := by
  rw [List.filter_append, List.filter_singleton]
  by_cases hid : r.provider = id
  · rw [if_pos hid, decide_eq_true hid, cond_true, invalidOf_concat]
  · rw [if_neg hid, decide_eq_false hid, cond_false, List.append_nil]

/-- The running sums are those of some rows, and of some numbers of rows. -/
structure WindowStats.Sums (rows : List SetRow) (sets shreds txns : ℕ) (stats : WindowStats) :
    Prop where
  /-- Rows in the table of sets. -/
  rowsSets : stats.rowsSets = sets
  /-- Rows in the table of shreds. -/
  rowsShreds : stats.rowsShreds = shreds
  /-- Rows in the table of transactions. -/
  rowsTxns : stats.rowsTxns = txns
  /-- The lowest slot. -/
  minSlot : stats.minSlot = (rows.map SetRow.slot).foldl min (u64Size - 1)
  /-- The highest slot. -/
  maxSlot : stats.maxSlot = (rows.map SetRow.slot).foldl max 0
  /-- Invalid shreds. -/
  invalid : stats.invalid = invalidOf rows
  /-- Invalid shreds of each provider. -/
  providers : ∀ id, stats.providers.getD id ProviderInvalid.default =
    invalidOf (rows.filter fun row => row.provider = id)

namespace WindowStats

/-- The sums of no rows. -/
lemma sums_default : default.Sums [] 0 0 0 :=
  ⟨rfl, rfl, rfl, rfl, rfl, rfl, fun _ => rfl⟩

/-- Adding to an element of a list that is made long enough. -/
lemma getD_modify_resized (l : List ProviderInvalid) (r : SetRow) (id : ℕ) :
    ((l ++ List.replicate (r.provider + 1 - l.length) ProviderInvalid.default).modify r.provider
        fun provider => provider.add r).getD id ProviderInvalid.default =
      if r.provider = id then (l.getD id ProviderInvalid.default).add r
      else l.getD id ProviderInvalid.default := by
  have hpadded : ∀ n, (l ++ List.replicate n ProviderInvalid.default).getD id
      ProviderInvalid.default = l.getD id ProviderInvalid.default := by
    intro n
    rw [List.getD_eq_getElem?_getD, List.getD_eq_getElem?_getD, List.getElem?_append,
      List.getElem?_replicate]
    split_ifs with hlt hpad
    · rfl
    · rw [List.getElem?_eq_none (not_lt.mp hlt)]
      rfl
    · rw [List.getElem?_eq_none (not_lt.mp hlt)]
  rw [List.getD_eq_getElem?_getD, List.getElem?_modify]
  by_cases hid : r.provider = id
  · have hlen : id < (l ++ List.replicate (r.provider + 1 - l.length)
        ProviderInvalid.default).length := by
      rw [List.length_append, List.length_replicate]
      omega
    rw [if_pos hid, ← hpadded (r.provider + 1 - l.length), List.getD_eq_getElem?_getD,
      List.getElem?_eq_getElem hlen]
    simp [hid]
  · rw [if_neg hid, ← hpadded (r.provider + 1 - l.length), List.getD_eq_getElem?_getD]
    simp [hid]

/-- A row is added to the sums. -/
theorem Sums.observe {stats : WindowStats} {rows : List SetRow} {sets shreds txns : ℕ}
    (h : stats.Sums rows sets shreds txns) (r : SetRow) :
    (stats.observe r).Sums (rows ++ [r]) sets shreds txns where
  rowsSets := h.rowsSets
  rowsShreds := h.rowsShreds
  rowsTxns := h.rowsTxns
  minSlot := by
    rw [List.map_append, List.map_singleton, List.foldl_append, ← h.minSlot]
    rfl
  maxSlot := by
    rw [List.map_append, List.map_singleton, List.foldl_append, ← h.maxSlot]
    rfl
  invalid := by
    rw [invalidOf_concat, ← h.invalid]
    rfl
  providers id := by
    rw [invalidOf_filter_concat, ← h.providers id]
    exact getD_modify_resized stats.providers r id

/-- Rows are added to the sums. -/
theorem Sums.observeSets {stats : WindowStats} {rows : List SetRow} {sets shreds txns : ℕ}
    (h : stats.Sums rows sets shreds txns) (more : List SetRow) :
    (stats.observeSets more).Sums (rows ++ more) sets shreds txns := by
  induction more generalizing stats rows with
  | nil =>
    rw [List.append_nil]
    exact h
  | cons r more ih =>
    rw [List.append_cons]
    exact ih (h.observe r)

/-- The manifest of the sums. -/
theorem Sums.buildManifest {stats : WindowStats} {rows : List SetRow} {shreds txns : ℕ}
    (h : stats.Sums rows rows.length shreds txns) (providers : ℕ) :
    ShredTools.Audit.buildManifest providers stats = manifestOf providers rows shreds txns := by
  unfold ShredTools.Audit.buildManifest manifestOf minSlotOrZero
  rw [h.rowsSets, h.rowsShreds, h.rowsTxns, h.minSlot, h.maxSlot, h.invalid]
  simp only [h.providers]

/-- The sums of a snapshot. -/
lemma sums_fromSets (rows : List SetRow) : (fromSets rows).Sums rows rows.length 0 0 := by
  have h := sums_default.observeSets rows
  rw [List.nil_append] at h
  exact ⟨rfl, h.rowsShreds, h.rowsTxns, h.minSlot, h.maxSlot, h.invalid, h.providers⟩

end WindowStats

/-! ### The loop in a window -/

namespace CaptureWindow

variable {wait : ℕ}

/-- Shreds change what a window has of shreds. -/
lemma shreds_foldl_hear (shreds : List VerifiedShred) (w : CaptureWindow wait) :
    (shreds.foldl hear w).shreds = w.shreds ++ shreds := by
  induction shreds generalizing w with
  | nil => exact (List.append_nil _).symm
  | cons s shreds ih =>
    rw [List.foldl_cons, ih]
    exact (List.append_cons w.shreds s shreds).symm

/-- Shreds leave the transactions alone. -/
lemma txns_foldl_hear (shreds : List VerifiedShred) (w : CaptureWindow wait) :
    (shreds.foldl hear w).txns = w.txns := by
  induction shreds generalizing w with
  | nil => rfl
  | cons s shreds ih =>
    rw [List.foldl_cons, ih]
    rfl

/-- What a round adds to a window, or shares out to this window and the next. -/
lemma step_shares (rotates : Bool) (w : CaptureWindow wait) (round : MainRound) :
    (w.step rotates round).2.toList.flatMap shreds ++ (w.step rotates round).1.shreds =
        w.shreds ++ round.shreds.getD [] ∧
      (w.step rotates round).2.toList.flatMap txns ++ (w.step rotates round).1.txns =
        w.txns ++ round.txnsRead rotates := by
  have hshreds : (w.gather round).shreds = w.shreds ++ round.shreds.getD [] :=
    shreds_foldl_hear (round.shreds.getD []) w
  have htxns : (w.gather round).txns = w.txns ++ round.txns.getD [] := by
    change ((round.shreds.getD []).foldl hear w).txns ++ _ = _
    rw [txns_foldl_hear]
  unfold step MainRound.txnsRead
  cases round.rotate with
  | none =>
    rw [Option.getD_none, ite_self, List.append_nil]
    exact ⟨hshreds, htxns⟩
  | some txns =>
    cases rotates with
    | false =>
      rw [if_neg Bool.false_ne_true, List.append_nil]
      exact ⟨hshreds, htxns⟩
    | true =>
      dsimp only
      rw [if_pos rfl, if_pos rfl, Option.toList_some, List.flatMap_singleton,
        List.flatMap_singleton, ← List.append_assoc, ← htxns, ← hshreds]
      exact ⟨List.append_nil _, List.append_nil _⟩

/-- The windows of a run share out what came. -/
lemma windows_share (wait : ℕ) (rotates : Bool) (rounds : List MainRound)
    (batches : List (List VerifiedShred)) (last : Option (List TxnRow)) :
    (windows wait rotates rounds batches last).flatMap shreds =
        rounds.flatMap (fun round => round.shreds.getD []) ++ batches.flatten ∧
      (windows wait rotates rounds batches last).flatMap txns =
        rounds.flatMap (MainRound.txnsRead rotates) ++ last.getD [] := by
  have hrun : ∀ w : CaptureWindow wait,
      (Machine.outputs (step rotates) w rounds).reduceOption.flatMap shreds ++
          (Machine.finalState (step rotates) w rounds).shreds =
        w.shreds ++ rounds.flatMap (fun round => round.shreds.getD []) ∧
      (Machine.outputs (step rotates) w rounds).reduceOption.flatMap txns ++
          (Machine.finalState (step rotates) w rounds).txns =
        w.txns ++ rounds.flatMap (MainRound.txnsRead rotates) := by
    induction rounds with
    | nil => exact fun w => ⟨(List.append_nil _).symm, (List.append_nil _).symm⟩
    | cons round rounds ih =>
      intro w
      obtain ⟨hshreds, htxns⟩ := step_shares rotates w round
      obtain ⟨ihshreds, ihtxns⟩ := ih (w.step rotates round).1
      have hcons : ∀ (closed : Option (CaptureWindow wait)) l,
          List.reduceOption (closed :: l) = closed.toList ++ l.reduceOption := by
        intro closed l
        cases closed <;> rfl
      rw [Machine.outputs_cons, Machine.finalState_cons, hcons, List.flatMap_append,
        List.flatMap_append, List.append_assoc, List.append_assoc, ihshreds, ihtxns,
        ← List.append_assoc, ← List.append_assoc, hshreds, htxns, List.flatMap_cons,
        List.flatMap_cons, List.append_assoc, List.append_assoc]
      exact ⟨rfl, rfl⟩
  obtain ⟨hshreds, htxns⟩ := hrun (opened Aggregator.Window.start)
  unfold windows
  dsimp only
  rw [List.flatMap_append, List.flatMap_append, List.flatMap_singleton, List.flatMap_singleton]
  unfold bill
  dsimp only
  rw [shreds_foldl_hear, txns_foldl_hear, ← List.append_assoc, ← List.append_assoc, hshreds, htxns]
  exact ⟨rfl, rfl⟩

/-- The aggregator takes in shreds. -/
lemma holds_foldl {rows : List SetRow} (shreds : List VerifiedShred) {w : CaptureWindow wait}
    {agg : Aggregator} (h : agg.Holds w.clock w.inTime rows) :
    (shreds.foldl Aggregator.ingest agg).Holds (shreds.foldl hear w).clock
      (shreds.foldl hear w).inTime rows := by
  induction shreds generalizing w agg with
  | nil => exact h
  | cons s shreds ih =>
    rw [List.foldl_cons, List.foldl_cons]
    exact ih (h.ingest s)

end CaptureWindow

namespace MainLoop

/-- The options of a run that writes archives. -/
structure ZipArgs extends MainArgs where
  /-- `--dump-txns` -/
  dumpTxns : Bool
  /-- `rotate_secs` -/
  rotateSecs : ℕ

variable {wait : ℕ} {args : ZipArgs}

/-- The archive of a window with a table, in such a run. -/
def ZipArgs.archive (args : ZipArgs) (w : CaptureWindow wait) (rows : List SetRow) : Archive :=
  w.archive args.dumpShreds args.dumpTxns rows

/-- The manifest of a window with a table, in such a run. -/
def ZipArgs.manifest (args : ZipArgs) (w : CaptureWindow wait) (rows : List SetRow) : Manifest :=
  w.manifest args.providers args.dumpShreds args.dumpTxns rows

/-- What is written is the window and its table so far, and the sums are those. -/
structure Written (args : ZipArgs) (w : CaptureWindow wait) (rows : List SetRow) (st : MainLoop) :
    Prop where
  /-- The archive. -/
  sink : st.sink = .zip ⟨args.dumpShreds, args.dumpTxns, args.rotateSecs, args.archive w rows⟩
  /-- The sums. -/
  sums : st.stats.Sums rows rows.length (if args.dumpShreds then w.shreds.length else 0)
    (if args.dumpTxns then w.txns.length else 0)

/-- The loop is in a window whose table has some rows so far. -/
structure Follows (args : ZipArgs) (w : CaptureWindow wait) (rows : List SetRow) (st : MainLoop) :
    Prop where
  /-- The aggregator. -/
  holds : st.aggregator.Holds w.clock w.inTime rows
  /-- The sink and the sums. -/
  written : st.Written args w rows
  /-- The rows for snapshots. -/
  windowRows : args.live = true → st.windowRows = rows

/-- The loop starts in a window in which nothing came. -/
lemma follows_start (args : ZipArgs) (wait : ℕ) :
    (start wait (Sink.openZip args.dumpShreds args.dumpTxns args.rotateSecs)).Follows args
      (CaptureWindow.opened (Aggregator.Window.start : Aggregator.Window wait)) [] where
  holds := Aggregator.Holds.new wait
  written :=
    { sink := rfl
      sums := by
        have h := WindowStats.sums_default
        refine ⟨rfl, ?_, ?_, h.minSlot, h.maxSlot, h.invalid, h.providers⟩
        · exact (ite_self 0).symm
        · exact (ite_self 0).symm }
  windowRows _ := rfl

/-- Rows are written. -/
theorem Written.writeSets {w : CaptureWindow wait} {rows : List SetRow} {st : MainLoop}
    (h : st.Written args w rows) (more : List SetRow) :
    (st.writeSets more).Written args w (rows ++ more) := by
  have hsums := h.sums.observeSets more
  unfold MainLoop.writeSets
  rw [h.sink]
  refine ⟨rfl, ?_, hsums.rowsShreds, hsums.rowsTxns, hsums.minSlot, hsums.maxSlot, hsums.invalid,
    hsums.providers⟩
  change (st.stats.observeSets more).rowsSets + more.length = (rows ++ more).length
  rw [hsums.rowsSets, List.length_append]

/-- The table of transactions is that of the window with these transactions. -/
lemma ZipArgs.writeTxns_archive (args : ZipArgs) (w : CaptureWindow wait) (rows : List SetRow)
    (txns : List TxnRow) :
    (args.archive w rows).writeTxns txns =
      (args.archive (w.bill txns) rows, if args.dumpTxns then txns.length else 0) := by
  unfold ZipArgs.archive CaptureWindow.archive Archive.writeTxns CaptureWindow.bill
  cases args.dumpTxns with
  | true => rfl
  | false => rfl

/-- Transactions are written. -/
theorem Written.writeTxns {w : CaptureWindow wait} {rows : List SetRow} {st : MainLoop}
    (h : st.Written args w rows) (txns : List TxnRow) :
    (st.writeTxns txns).Written args (w.bill txns) rows := by
  unfold MainLoop.writeTxns
  by_cases hempty : txns.isEmpty = true
  · rw [if_pos hempty, List.isEmpty_iff.mp hempty]
    have hw : w.bill [] = w := by
      unfold CaptureWindow.bill
      rw [List.append_nil]
    rw [hw]
    exact h
  · have hsums := h.sums
    rw [if_neg hempty, h.sink]
    simp only [Sink.writeTxns, ZipArgs.writeTxns_archive]
    refine ⟨rfl, hsums.rowsSets, hsums.rowsShreds, ?_, hsums.minSlot, hsums.maxSlot,
      hsums.invalid, hsums.providers⟩
    change st.stats.rowsTxns + (if args.dumpTxns then txns.length else 0) =
      if args.dumpTxns then (w.txns ++ txns).length else 0
    rw [hsums.rowsTxns]
    cases args.dumpTxns with
    | true => exact List.length_append.symm
    | false => rfl

/-- The table of shreds is that of the window with these shreds. -/
lemma ZipArgs.writeShreds_archive (args : ZipArgs) (w : CaptureWindow wait) (rows : List SetRow)
    (shreds : List VerifiedShred) :
    (args.archive w rows).writeShreds shreds =
      (args.archive (shreds.foldl CaptureWindow.hear w) rows,
        if args.dumpShreds then shreds.length else 0) := by
  unfold ZipArgs.archive CaptureWindow.archive Archive.writeShreds
  rw [CaptureWindow.shreds_foldl_hear, CaptureWindow.txns_foldl_hear]
  cases args.dumpShreds with
  | true => rfl
  | false => rfl

/-- Shreds come in a window. -/
theorem Follows.ingest {w : CaptureWindow wait} {rows : List SetRow} {st : MainLoop}
    (h : st.Follows args w rows) (shreds : List VerifiedShred) :
    (st.ingest args.toMainArgs shreds).Follows args (shreds.foldl CaptureWindow.hear w) rows := by
  have hsums := h.written.sums
  have hholds := CaptureWindow.holds_foldl shreds h.holds
  unfold MainLoop.ingest
  by_cases hdump : args.dumpShreds = true
  · have hwrite := args.writeShreds_archive w rows shreds
    rw [if_pos hdump]
    dsimp only
    rw [h.written.sink]
    simp only [Sink.writeShreds, hwrite]
    refine ⟨hholds, ⟨rfl, hsums.rowsSets, ?_, ?_, hsums.minSlot, hsums.maxSlot,
      hsums.invalid, hsums.providers⟩, h.windowRows⟩
    · have hbefore := hsums.rowsShreds
      rw [if_pos hdump] at hbefore
      rw [if_pos hdump, CaptureWindow.shreds_foldl_hear, List.length_append, hbefore, if_pos hdump]
    · rw [CaptureWindow.txns_foldl_hear]
      exact hsums.rowsTxns
  · have harchive : args.archive (shreds.foldl CaptureWindow.hear w) rows =
        args.archive w rows := by
      unfold ZipArgs.archive CaptureWindow.archive
      rw [CaptureWindow.txns_foldl_hear, if_neg hdump, if_neg hdump]
    rw [if_neg hdump]
    refine ⟨hholds, ⟨?_, hsums.rowsSets, ?_, ?_, hsums.minSlot, hsums.maxSlot,
      hsums.invalid, hsums.providers⟩, h.windowRows⟩
    · rw [harchive]
      exact h.written.sink
    · have hbefore := hsums.rowsShreds
      rw [if_neg hdump] at hbefore
      rw [if_neg hdump]
      exact hbefore
    · rw [CaptureWindow.txns_foldl_hear]
      exact hsums.rowsTxns

/-- A harvest adds rows to the table. -/
theorem Follows.harvest {w : CaptureWindow wait} {rows : List SetRow} {st : MainLoop}
    (h : st.Follows args w rows) :
    ∃ more, (st.harvest args.toMainArgs).Follows args w.settle (rows ++ more) := by
  have hholds := h.holds.harvest
  refine ⟨(st.aggregator.harvest false).2, ?_⟩
  unfold MainLoop.harvest
  dsimp only
  by_cases hempty : (st.aggregator.harvest false).2.isEmpty = true
  · rw [if_pos hempty]
    rw [List.isEmpty_iff.mp hempty, List.append_nil] at hholds ⊢
    exact ⟨hholds, ⟨h.written.sink, h.written.sums⟩, h.windowRows⟩
  · rw [if_neg hempty]
    by_cases hlive : args.live = true
    · rw [if_pos hlive]
      have hwritten : Written args w rows { st with
          aggregator := (st.aggregator.harvest false).1
          windowRows := st.windowRows ++ (st.aggregator.harvest false).2 } :=
        ⟨h.written.sink, h.written.sums⟩
      obtain ⟨hsink, hsums⟩ := hwritten.writeSets (st.aggregator.harvest false).2
      refine ⟨hholds, ⟨hsink, hsums⟩, fun _ => ?_⟩
      change st.windowRows ++ _ = _
      rw [h.windowRows hlive]
    · rw [if_neg hlive]
      have hwritten : Written args w rows { st with
          aggregator := (st.aggregator.harvest false).1 } :=
        ⟨h.written.sink, h.written.sums⟩
      obtain ⟨hsink, hsums⟩ := hwritten.writeSets (st.aggregator.harvest false).2
      exact ⟨hholds, ⟨hsink, hsums⟩, fun hlive' => absurd hlive' hlive⟩

/-- Transactions come in a window. -/
theorem Follows.writeTxns {w : CaptureWindow wait} {rows : List SetRow} {st : MainLoop}
    (h : st.Follows args w rows) (txns : List TxnRow) :
    (st.writeTxns txns).Follows args (w.bill txns) rows := by
  have hsame : (st.writeTxns txns).aggregator = st.aggregator ∧
      (st.writeTxns txns).windowRows = st.windowRows := by
    unfold MainLoop.writeTxns
    split_ifs <;> exact ⟨rfl, rfl⟩
  refine ⟨?_, h.written.writeTxns txns, ?_⟩
  · rw [hsame.1]
    exact h.holds
  · rw [hsame.2]
    exact h.windowRows

/-- A drain completes the table. -/
theorem Follows.drain {w : CaptureWindow wait} {rows : List SetRow} {st : MainLoop}
    (h : st.Follows args w rows) :
    RowsOf w.inTime (fun _ => True) (rows ++ (st.aggregator.harvest true).2) ∧
      st.drain.Written args w (rows ++ (st.aggregator.harvest true).2) ∧
      st.drain.aggregator.Holds (w.clock.step .harvest) [] [] ∧
      st.drain.windowRows = st.windowRows := by
  have hwritten : Written args w rows { st with aggregator := (st.aggregator.harvest true).1 } :=
    ⟨h.written.sink, h.written.sums⟩
  exact ⟨h.holds.rowsOf_drain, hwritten.writeSets _, h.holds.drain, rfl⟩

/-- The manifest of what is written. -/
theorem Written.buildManifest {w : CaptureWindow wait} {rows : List SetRow} {st : MainLoop}
    (h : st.Written args w rows) :
    ShredTools.Audit.buildManifest args.providers st.stats = args.manifest w rows :=
  h.sums.buildManifest args.providers

/-! ### Rounds -/

/-- The end of a window gives its archive, and the next window begins. -/
theorem Follows.rotate {w : CaptureWindow wait} {rows : List SetRow} {st : MainLoop}
    (h : st.Follows args w rows) (txns : List TxnRow) :
    ∃ drained, RowsOf w.inTime (fun _ => True) (rows ++ drained) ∧
      (st.rotate args.toMainArgs txns).2 =
        some (args.archive (w.bill txns) (rows ++ drained),
          args.manifest (w.bill txns) (rows ++ drained)) ∧
      (st.rotate args.toMainArgs txns).1.Follows args
        (CaptureWindow.opened (w.clock.step .harvest)) [] := by
  obtain ⟨hrows, hwritten, hholds, -⟩ := h.drain
  have hbilled := hwritten.writeTxns txns
  have hsame : (st.drain.writeTxns txns).aggregator = st.drain.aggregator := by
    unfold MainLoop.writeTxns
    split_ifs <;> rfl
  have hnext := (follows_start args wait).written.sums
  refine ⟨_, hrows, ?_, ?_⟩
  · unfold MainLoop.rotate
    dsimp only
    rw [hbilled.sink, hbilled.buildManifest]
    rfl
  · unfold MainLoop.rotate
    dsimp only
    rw [hbilled.sink]
    refine ⟨?_, ⟨rfl, hnext⟩, fun _ => rfl⟩
    change (st.drain.writeTxns txns).aggregator.Holds _ _ _
    rw [hsame]
    exact hholds

/-- The snapshot is of the rows so far. -/
theorem Follows.snapshot {w : CaptureWindow wait} {rows : List SetRow} {st : MainLoop}
    (h : st.Follows args w rows) (hlive : args.live = true) :
    st.snapshot args.toMainArgs = some (rows, manifestOf args.providers rows 0 0) := by
  unfold MainLoop.snapshot
  rw [h.written.sink, h.windowRows hlive, (WindowStats.sums_fromSets rows).buildManifest]
  rfl

/-- What a round brings goes into the window. -/
theorem Follows.gather {w : CaptureWindow wait} {rows : List SetRow} {st : MainLoop}
    (h : st.Follows args w rows) (round : MainRound) :
    ∃ more, (st.gather args.toMainArgs round).Follows args (w.gather round) (rows ++ more) := by
  have hingest : (round.shreds.elim st (st.ingest args.toMainArgs)).Follows args
      ((round.shreds.getD []).foldl CaptureWindow.hear w) rows := by
    cases round.shreds with
    | none => exact h
    | some shreds => exact h.ingest shreds
  obtain ⟨more, hharvest⟩ := hingest.harvest
  refine ⟨more, ?_⟩
  unfold MainLoop.gather CaptureWindow.gather
  cases round.txns with
  | none =>
    unfold CaptureWindow.bill
    rw [Option.getD_none, List.append_nil]
    exact hharvest
  | some txns => exact hharvest.writeTxns txns

/-- What a round that ends the window does, and what one that does not. -/
theorem Follows.step {w : CaptureWindow wait} {rows : List SetRow} {st : MainLoop}
    (h : st.Follows args w rows) (round : MainRound) :
    ∃ more, (∀ snapshot ∈ (st.step args.toMainArgs round).2.live,
        snapshot = (rows ++ more, manifestOf args.providers (rows ++ more) 0 0)) ∧
      (((w.step (args.rotateSecs > 0) round).2 = none ∧
          (st.step args.toMainArgs round).2.archive = none ∧
          (st.step args.toMainArgs round).1.Follows args (w.step (args.rotateSecs > 0) round).1
            (rows ++ more)) ∨
        ∃ closed drained, (w.step (args.rotateSecs > 0) round).2 = some closed ∧
          (st.step args.toMainArgs round).2.archive =
            some (args.archive closed (rows ++ (more ++ drained)),
              args.manifest closed (rows ++ (more ++ drained))) ∧
          RowsOf closed.inTime (fun _ => True) (rows ++ (more ++ drained)) ∧
          (st.step args.toMainArgs round).1.Follows args
            (w.step (args.rotateSecs > 0) round).1 []) := by
  obtain ⟨more, hgather⟩ := h.gather round
  have hlive : ∀ snapshot, snapshot ∈ (if args.live && round.live then
        (st.gather args.toMainArgs round).snapshot args.toMainArgs else none) →
      snapshot = (rows ++ more, manifestOf args.providers (rows ++ more) 0 0) := by
    intro snapshot hsnapshot
    split_ifs at hsnapshot with hif
    · rw [hgather.snapshot (Bool.and_eq_true_iff.mp hif).1] at hsnapshot
      exact (Option.mem_some_iff.mp hsnapshot).symm
    · cases hsnapshot
  refine ⟨more, ?_⟩
  unfold MainLoop.step CaptureWindow.step
  cases round.rotate with
  | none => exact ⟨hlive, Or.inl ⟨rfl, rfl, hgather⟩⟩
  | some txns =>
    dsimp only
    rw [hgather.written.sink, Sink.rotates]
    by_cases hrotates : decide (args.rotateSecs > 0) = true
    · obtain ⟨drained, hrows, harchive, hnext⟩ := hgather.rotate txns
      rw [List.append_assoc] at hrows harchive
      rw [if_pos hrotates, if_pos hrotates]
      exact ⟨hlive, Or.inr ⟨_, drained, rfl, harchive, hrows, hnext⟩⟩
    · rw [if_neg hrotates, if_neg hrotates]
      exact ⟨hlive, Or.inl ⟨rfl, rfl, hgather⟩⟩

/-! ### Whole runs -/

/-- The archives of some windows with their tables. -/
def ZipArgs.archives (args : ZipArgs) (windows : List (CaptureWindow wait))
    (tables : List (List SetRow)) : List (Archive × Manifest) :=
  List.zipWith (fun w table => (args.archive w table, args.manifest w table)) windows tables

/-- Every snapshot is the beginning of the table of its window: as many tables come before that one
as there were archives before the snapshot. -/
def Snapshots (providers : ℕ) (tables : List (List SetRow)) (outputs : List MainOutput) : Prop :=
  outputs.Along fun before output => ∀ snapshot ∈ output.live,
    snapshot.2 = manifestOf providers snapshot.1 0 0 ∧
      ∃ table, tables[(before.filterMap MainOutput.archive).length]? = some table ∧
        snapshot.1 <+: table

/-- The snapshots, as the last table grows and others come, and one more output. -/
theorem Snapshots.concat {providers : ℕ} {tables : List (List SetRow)} {rows : List SetRow}
    {outputs : List MainOutput} (h : Snapshots providers (tables ++ [rows]) outputs)
    (harchives : (outputs.filterMap MainOutput.archive).length = tables.length)
    {output : MainOutput} {shown more : List SetRow} (later : List (List SetRow))
    (hlive : ∀ snapshot ∈ output.live, snapshot = (shown, manifestOf providers shown 0 0))
    (hshown : shown <+: rows ++ more) :
    Snapshots providers (tables ++ (rows ++ more) :: later) (outputs ++ [output]) := by
  refine List.Along.append ?_ (List.along_singleton ?_)
  · intro before out after hsplit snapshot hsnapshot
    obtain ⟨hmanifest, htable⟩ := h before out after hsplit snapshot hsnapshot
    exact ⟨hmanifest, List.getElem?_grows later htable⟩
  · intro snapshot hsnapshot
    rw [hlive snapshot hsnapshot]
    refine ⟨rfl, rows ++ more, ?_, hshown⟩
    rw [List.append_nil, harchives, List.getElem?_append_right le_rfl, Nat.sub_self,
      List.getElem?_cons_zero]

/-- Some rounds have closed windows, each with its archive, and left the loop in one more. -/
structure Reached (args : ZipArgs) (closed : List (CaptureWindow wait)) (w : CaptureWindow wait)
    (tables : List (List SetRow)) (rows : List SetRow) (st : MainLoop)
    (outputs : List MainOutput) : Prop where
  /-- The loop is in the open window. -/
  follows : st.Follows args w rows
  /-- The tables of the closed windows. -/
  rowsOf : List.Forall₂ (fun w table => RowsOf w.inTime (fun _ => True) table) closed tables
  /-- Their archives. -/
  archives : outputs.filterMap MainOutput.archive = args.archives closed tables
  /-- The snapshots. -/
  snapshots : Snapshots args.providers (tables ++ [rows]) outputs

namespace Reached

variable {closed : List (CaptureWindow wait)} {w : CaptureWindow wait}
  {tables : List (List SetRow)} {rows : List SetRow} {st : MainLoop} {outputs : List MainOutput}

/-- There are as many archives as tables. -/
lemma length_archives (h : Reached args closed w tables rows st outputs) :
    (outputs.filterMap MainOutput.archive).length = tables.length := by
  rw [h.archives, ZipArgs.archives, List.length_zipWith, h.rowsOf.length_eq, Nat.min_self]

/-- The archive of one more window. -/
lemma archives_concat (h : Reached args closed w tables rows st outputs)
    (last : CaptureWindow wait) (table : List SetRow) :
    args.archives (closed ++ [last]) (tables ++ [table]) =
      args.archives closed tables ++ [(args.archive last table, args.manifest last table)] :=
  List.zipWith_append h.rowsOf.length_eq

/-- One more round. -/
theorem step (h : Reached args closed w tables rows st outputs) (round : MainRound) :
    ∃ tables' rows', Reached args (closed ++ (w.step (args.rotateSecs > 0) round).2.toList)
      (w.step (args.rotateSecs > 0) round).1 tables' rows'
      (st.step args.toMainArgs round).1 (outputs ++ [(st.step args.toMainArgs round).2]) := by
  obtain ⟨more, hlive, ⟨hopen, hnone, hfollows⟩ | ⟨last, drained, hclosed, harchive, hrows,
    hfollows⟩⟩ := h.follows.step round
  · refine ⟨tables, rows ++ more, hfollows, ?_, ?_, ?_⟩
    · rw [hopen, Option.toList_none, List.append_nil]
      exact h.rowsOf
    · rw [hopen, Option.toList_none, List.append_nil, List.filterMap_append,
        List.filterMap_cons_none hnone, List.filterMap_nil, List.append_nil]
      exact h.archives
    · exact h.snapshots.concat h.length_archives [] hlive (List.prefix_refl _)
  · refine ⟨tables ++ [rows ++ (more ++ drained)], [], hfollows, ?_, ?_, ?_⟩
    · rw [hclosed]
      exact List.rel_append h.rowsOf (List.Forall₂.cons hrows List.Forall₂.nil)
    · rw [hclosed, Option.toList_some, List.filterMap_append, List.filterMap_cons_some harchive,
        List.filterMap_nil, h.archives_concat, h.archives]
    · rw [List.append_assoc, List.singleton_append]
      refine h.snapshots.concat h.length_archives [[]] hlive ?_
      rw [← List.append_assoc]
      exact List.prefix_append _ drained

end Reached

/-- Batches come in a window. -/
lemma Follows.foldl_ingest {w : CaptureWindow wait} {rows : List SetRow} {st : MainLoop}
    (h : st.Follows args w rows) (batches : List (List VerifiedShred)) :
    (batches.foldl (MainLoop.ingest args.toMainArgs) st).Follows args
      (batches.flatten.foldl CaptureWindow.hear w) rows := by
  induction batches generalizing w st with
  | nil => exact h
  | cons shreds batches ih =>
    rw [List.foldl_cons, List.flatten_cons, List.foldl_append]
    exact ih (h.ingest shreds)

/-- Transactions are written, if there are any to ask for. -/
lemma Written.writeLast {w : CaptureWindow wait} {rows : List SetRow} {st : MainLoop}
    (h : st.Written args w rows) (txns : Option (List TxnRow)) :
    (txns.elim st st.writeTxns).Written args (w.bill (txns.getD [])) rows ∧
      (txns.elim st st.writeTxns).windowRows = st.windowRows := by
  cases txns with
  | none =>
    unfold CaptureWindow.bill
    rw [Option.getD_none, List.append_nil]
    exact ⟨h, rfl⟩
  | some txns =>
    refine ⟨h.writeTxns txns, ?_⟩
    rw [Option.elim_some, MainLoop.writeTxns]
    split_ifs <;> rfl

/-- The shutdown completes the last table. -/
theorem Follows.windUp {w : CaptureWindow wait} {rows : List SetRow} {st : MainLoop}
    (h : st.Follows args w rows) (batches : List (List VerifiedShred))
    (txns : Option (List TxnRow)) :
    let last := (batches.flatten.foldl CaptureWindow.hear w).bill (txns.getD [])
    ∃ drained, RowsOf last.inTime (fun _ => True) (rows ++ drained) ∧
      (st.windUp args.toMainArgs batches txns).Written args last (rows ++ drained) ∧
      (args.live = true →
        (st.windUp args.toMainArgs batches txns).windowRows = rows ++ drained) := by
  have hingest := h.foldl_ingest batches
  obtain ⟨hrows, hwritten, -, hshown⟩ := hingest.drain
  obtain ⟨hlast, hwindowRows⟩ := hwritten.writeLast txns
  refine ⟨_, hrows, ?_⟩
  unfold MainLoop.windUp
  dsimp only
  by_cases hlive : args.live = true
  · rw [if_pos hlive]
    refine ⟨⟨hlast.sink, hlast.sums⟩, fun _ => ?_⟩
    change (Option.elim txns _ _ : MainLoop).windowRows ++ _ = _
    rw [hwindowRows, hshown, hingest.windowRows hlive]
  · rw [if_neg hlive]
    exact ⟨hlast, fun hlive' => absurd hlive' hlive⟩

/-- The shutdown closes the last window, and a snapshot then is of its whole table. -/
theorem Follows.shutdown {w : CaptureWindow wait} {rows : List SetRow} {st : MainLoop}
    (h : st.Follows args w rows) (batches : List (List VerifiedShred))
    (txns : Option (List TxnRow)) :
    let last := (batches.flatten.foldl CaptureWindow.hear w).bill (txns.getD [])
    ∃ drained, RowsOf last.inTime (fun _ => True) (rows ++ drained) ∧
      (st.shutdown args.toMainArgs batches txns).archive =
        some (args.archive last (rows ++ drained), args.manifest last (rows ++ drained)) ∧
      ∀ snapshot ∈ (st.shutdown args.toMainArgs batches txns).live,
        snapshot = (rows ++ drained, manifestOf args.providers (rows ++ drained) 0 0) := by
  obtain ⟨drained, hrows, hwritten, hwindowRows⟩ := h.windUp batches txns
  refine ⟨drained, hrows, ?_, ?_⟩
  · unfold MainLoop.shutdown
    dsimp only
    rw [hwritten.sink, hwritten.buildManifest]
    rfl
  · intro snapshot hsnapshot
    unfold MainLoop.shutdown at hsnapshot
    dsimp only at hsnapshot
    split_ifs at hsnapshot with hlive
    · unfold MainLoop.snapshot at hsnapshot
      rw [hwritten.sink, hwindowRows hlive,
        (WindowStats.sums_fromSets _).buildManifest] at hsnapshot
      exact (Option.mem_some_iff.mp hsnapshot).symm
    · cases hsnapshot

/-- Some rounds reach a window. -/
lemma reached_run (args : ZipArgs) (wait : ℕ) (rounds : List MainRound) :
    let begun : CaptureWindow wait := CaptureWindow.opened Aggregator.Window.start
    let st := start wait (Sink.openZip args.dumpShreds args.dumpTxns args.rotateSecs)
    let rotates : Bool := args.rotateSecs > 0
    ∃ tables rows, Reached args
      (Machine.outputs (CaptureWindow.step rotates) begun rounds).reduceOption
      (Machine.finalState (CaptureWindow.step rotates) begun rounds) tables rows
      (Machine.finalState (MainLoop.step args.toMainArgs) st rounds)
      (Machine.outputs (MainLoop.step args.toMainArgs) st rounds) := by
  intro begun st rotates
  refine Machine.run_induction (MainLoop.step args.toMainArgs)
    (P := fun rounds st outputs => ∃ tables rows, Reached args
      (Machine.outputs (CaptureWindow.step rotates) begun rounds).reduceOption
      (Machine.finalState (CaptureWindow.step rotates) begun rounds) tables rows st outputs)
    ?_ ?_ rounds
  · refine ⟨[], [], follows_start args wait, List.Forall₂.nil, rfl, List.along_nil _⟩
  · intro rounds round st outputs ⟨tables, rows, h⟩
    obtain ⟨tables', rows', hstep⟩ := h.step round
    refine ⟨tables', rows', ?_⟩
    rw [Machine.outputs_concat, Machine.finalState_concat, List.reduceOption_append]
    have hsingle : ∀ closed : Option (CaptureWindow wait),
        List.reduceOption [closed] = closed.toList := by
      intro closed
      cases closed <;> rfl
    rw [hsingle]
    exact hstep

end MainLoop

/-- **Archives are windows.**  A run that writes archives writes one for each of its windows, in
order.  The table of sets has one row for each set that has shreds in time, made of all of these;
the tables of shreds and of transactions, if asked for, are those of the window; and the numbers of
the manifest are those of the tables.  The windows share out all that came.  A snapshot has the
first rows of the table that its window has in the end, with their numbers, and the one at the
shutdown has the whole table. -/
theorem main_archives (args : MainLoop.ZipArgs) (wait : ℕ) (rounds : List MainRound)
    (batches : List (List VerifiedShred)) (last : Option (List TxnRow)) :
    let windows := CaptureWindow.windows wait (args.rotateSecs > 0) rounds batches last
    let outputs := MainLoop.run args.toMainArgs
      (MainLoop.start wait (Sink.openZip args.dumpShreds args.dumpTxns args.rotateSecs))
      rounds batches last
    (windows.flatMap CaptureWindow.shreds =
        rounds.flatMap (fun round => round.shreds.getD []) ++ batches.flatten ∧
      windows.flatMap CaptureWindow.txns =
        rounds.flatMap (MainRound.txnsRead (args.rotateSecs > 0)) ++ last.getD []) ∧
    ∃ tables,
      List.Forall₂ (fun w table => RowsOf w.inTime (fun _ => True) table) windows tables ∧
      outputs.filterMap MainOutput.archive = args.archives windows tables ∧
      MainLoop.Snapshots args.providers tables outputs ∧
      ∀ output ∈ outputs.getLast?, ∀ snapshot ∈ output.live,
        tables.getLast? = some snapshot.1 := by
  intro windows outputs
  refine ⟨CaptureWindow.windows_share wait _ rounds batches last, ?_⟩
  obtain ⟨tables, rows, h⟩ := MainLoop.reached_run args wait rounds
  obtain ⟨drained, hrows, harchive, hlive⟩ := h.follows.shutdown batches last
  refine ⟨tables ++ [rows ++ drained], ?_, ?_, ?_, ?_⟩
  · exact List.rel_append h.rowsOf (List.Forall₂.cons hrows List.Forall₂.nil)
  · change List.filterMap _ (Machine.outputs _ _ rounds ++ [_]) =
      MainLoop.ZipArgs.archives args (_ ++ [_]) _
    rw [List.filterMap_append, List.filterMap_cons_some harchive, List.filterMap_nil, h.archives,
      h.archives_concat]
  · exact h.snapshots.concat h.length_archives [] hlive (List.prefix_refl _)
  · intro output houtput snapshot hsnapshot
    change output ∈ (Machine.outputs _ _ rounds ++ [_]).getLast? at houtput
    rw [List.getLast?_concat, Option.mem_some_iff] at houtput
    rw [← houtput] at hsnapshot
    rw [List.getLast?_concat, hlive snapshot hsnapshot]

end ShredTools.Audit
