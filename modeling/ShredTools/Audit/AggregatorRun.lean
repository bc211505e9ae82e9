import ShredTools.Audit.Aggregator
import ShredTools.Library.Run

/-!
# Whole runs of the aggregator

A `Window` is what decides when a set is emitted: the highest slot seen, and the floor at or below
which every set has been emitted.  It depends on the slots of the shreds alone.  The aggregator
follows it, a pending set is at every moment the fold of the shreds of its key that came above the
floor, and every row emitted is made of the same fold (`Tracks`).

The main result reads off whole runs: every key is emitted at most once, the sets of one slot are
emitted together, and every shred is in an emitted set or was counted as late.
-/

namespace ShredTools.Audit

namespace Aggregator

/-- A call of a run. -/
inductive Op where
  | ingest (s : VerifiedShred)
  | harvest
  deriving DecidableEq

/-- One call, and the rows it emits. -/
def step (agg : Aggregator) : Op → Aggregator × List SetRow
  | .ingest s => (agg.ingest s, [])
  | .harvest => agg.harvest false

/-- The aggregator after some calls. -/
def stateAfter (maxWaitSlots : ℕ) (ops : List Op) : Aggregator :=
  Machine.finalState step (Aggregator.new maxWaitSlots) ops

/-- The rows that each call emits, in a run closed by `harvest(true)`. -/
def emitted (maxWaitSlots : ℕ) (ops : List Op) : List (List SetRow) :=
  Machine.outputs step (Aggregator.new maxWaitSlots) ops ++
    [((stateAfter maxWaitSlots ops).harvest true).2]

/-- One more call. -/
theorem stateAfter_concat (maxWaitSlots : ℕ) (ops : List Op) (op : Op) :
    stateAfter maxWaitSlots (ops ++ [op]) = (step (stateAfter maxWaitSlots ops) op).1 :=
  Machine.finalState_concat step _ ops op

/-! ### The window -/

/-- The highest slot seen and the floor, `wait` slots behind it at the last harvest. -/
@[ext] structure Window (wait : ℕ) where
  /-- The highest slot seen. -/
  highest : ℕ
  /-- Sets at or below this slot have been emitted. -/
  floor : ℕ
  /-- The floor stays behind the highest slot. -/
  floor_le : floor ≤ highest - wait

namespace Window

variable {wait : ℕ}

/-- Nothing seen. -/
def start : Window wait := ⟨0, 0, Nat.zero_le _⟩

/-- A call raises the highest slot, or the floor. -/
def step (w : Window wait) : Op → Window wait
  | .ingest s => ⟨max w.highest s.slot, w.floor,
      w.floor_le.trans (Nat.sub_le_sub_right (le_max_left _ _) wait)⟩
  | .harvest => ⟨w.highest, w.highest - wait, le_rfl⟩

/-- The window after some calls. -/
def after (ops : List Op) : Window wait := ops.foldl step start

/-- One more call. -/
@[simp] theorem after_concat (ops : List Op) (op : Op) :
    (after (ops ++ [op]) : Window wait) = (after ops).step op := by
  unfold after
  rw [List.foldl_append, List.foldl_cons, List.foldl_nil]

/-- No call lowers the floor. -/
theorem floor_le_step (w : Window wait) (op : Op) : w.floor ≤ (w.step op).floor := by
  cases op with
  | ingest s => exact le_rfl
  | harvest => exact w.floor_le

/-- The shred that a call brings to the set of a key, unless it is late. -/
def takesIn (w : Window wait) (key : SetKey) : Op → List VerifiedShred
  | .ingest s => if s.setKey = key ∧ w.floor < s.slot then [s] else []
  | .harvest => []

/-- The shreds that some calls bring to the set of a key, from a window on. -/
def gatheredFrom (key : SetKey) : Window wait → List Op → List VerifiedShred
  | _, [] => []
  | w, op :: ops => w.takesIn key op ++ gatheredFrom key (w.step op) ops

/-- Gathering along a concatenation continues from the window reached. -/
lemma gatheredFrom_append (key : SetKey) (w : Window wait) (ops ops' : List Op) :
    gatheredFrom key w (ops ++ ops') =
      gatheredFrom key w ops ++ gatheredFrom key (ops.foldl step w) ops' := by
  induction ops generalizing w with
  | nil => rfl
  | cons op ops ih =>
    rw [List.cons_append, gatheredFrom, ih, gatheredFrom, List.append_assoc, List.foldl_cons]

/-- Nothing is gathered for a key at or below the floor. -/
lemma takesIn_of_le_floor {w : Window wait} {key : SetKey} (h : key.slot ≤ w.floor) (op : Op) :
    w.takesIn key op = [] := by
  cases op with
  | harvest => rfl
  | ingest s =>
    apply if_neg
    intro ⟨hkey, hlt⟩
    have hslot : s.slot = key.slot := congrArg SetKey.slot hkey
    omega

end Window

/-- The shreds that a run brings to the set of a key. -/
def gathered (wait : ℕ) (key : SetKey) (ops : List Op) : List VerifiedShred :=
  Window.gatheredFrom key (Window.start : Window wait) ops

@[simp] lemma gathered_nil (wait : ℕ) (key : SetKey) : gathered wait key [] = [] := rfl

/-- One more call. -/
theorem gathered_concat (wait : ℕ) (key : SetKey) (ops : List Op) (op : Op) :
    gathered wait key (ops ++ [op]) =
      gathered wait key ops ++ (Window.after ops : Window wait).takesIn key op := by
  unfold gathered
  rw [Window.gatheredFrom_append, Window.gatheredFrom, Window.gatheredFrom, List.append_nil]
  rfl

/-- What a run gathers begins with what its first calls gathered. -/
lemma gathered_append (wait : ℕ) (key : SetKey) (ops ops' : List Op) :
    ∃ later, gathered wait key (ops ++ ops') = gathered wait key ops ++ later :=
  ⟨_, Window.gatheredFrom_append key _ ops ops'⟩

/-- A harvest brings nothing. -/
@[simp] theorem gathered_harvest (wait : ℕ) (key : SetKey) (ops : List Op) :
    gathered wait key (ops ++ [.harvest]) = gathered wait key ops := by
  rw [gathered_concat]
  exact List.append_nil _

/-! ### The set that some shreds make -/

end Aggregator

/-- The state of a set that some shreds went into, if there are any. -/
def setOf : List VerifiedShred → Option SetState
  | [] => none
  | s :: later => some ((s :: later).foldl SetState.absorb (SetState.new s.leader s.rxUnixNs))

@[simp] lemma setOf_nil : setOf [] = none := rfl

/-- Shreds make a set unless there are none. -/
theorem setOf_eq_none_iff {l : List VerifiedShred} : setOf l = none ↔ l = [] := by
  cases l with
  | nil => simp
  | cons s later => simp [setOf]

/-- More shreds are absorbed by the same set. -/
lemma setOf_append {l : List VerifiedShred} {st : SetState} (h : setOf l = some st)
    (later : List VerifiedShred) : setOf (l ++ later) = some (later.foldl SetState.absorb st) := by
  cases l with
  | nil => simp at h
  | cons s l =>
    rw [setOf] at h
    rw [List.cons_append, setOf, ← List.cons_append, List.foldl_append, Option.some.inj h]

/-- One more shred goes into the set there is, or into a new one. -/
theorem setOf_concat (l : List VerifiedShred) (s : VerifiedShred) :
    setOf (l ++ [s]) =
      some (((setOf l).getD (SetState.new s.leader s.rxUnixNs)).absorb s) := by
  cases hset : setOf l with
  | none =>
    rw [setOf_eq_none_iff.mp hset]
    rfl
  | some st => rw [setOf_append hset, Option.getD_some, List.foldl_cons, List.foldl_nil]

namespace Aggregator

/-! ### What a run has emitted -/

/-- The calls emitted, of the sets that a run gathered, each one whose key is done, once, and the
sets of lower slots in earlier calls. -/
structure Emits (wait : ℕ) (ops : List Op) (done : SetKey → Prop) (calls : List (List SetRow)) :
    Prop where
  /-- A row is about a key that is done, and of everything gathered for it. -/
  made : ∀ row ∈ calls.flatten, done row.key ∧ ∃ st truth,
    setOf (gathered wait row.key ops) = some st ∧ row = finalize row.key st truth
  /-- A key that is done has a row if anything was gathered for it. -/
  complete : ∀ key, done key → gathered wait key ops ≠ [] → ∃ row ∈ calls.flatten, row.key = key
  /-- No key has two rows. -/
  nodup : (calls.flatten.map SetRow.key).Nodup
  /-- Slots ascend from call to call. -/
  ascending : calls.Pairwise fun earlier later =>
    ∀ row ∈ earlier, ∀ row' ∈ later, row.slot < row'.slot

/-- The aggregator follows the window, its pending sets are those gathered above the floor, and
those at or below have been emitted. -/
structure Tracks (wait : ℕ) (ops : List Op) (agg : Aggregator) (calls : List (List SetRow)) :
    Prop where
  /-- The configuration. -/
  configured : agg.maxWaitSlots = wait
  /-- The highest slot. -/
  highest : agg.maxSlot = (Window.after ops : Window wait).highest
  /-- The floor. -/
  floor : agg.evictedUpto = (Window.after ops : Window wait).floor
  /-- The pending sets. -/
  pending : ∀ key, agg.sets.lookup key =
    if key.slot ≤ agg.evictedUpto then none else setOf (gathered wait key ops)
  /-- The rows. -/
  emits : Emits wait ops (fun key => key.slot ≤ agg.evictedUpto) calls

namespace Tracks

variable {wait : ℕ} {ops : List Op} {agg : Aggregator} {calls : List (List SetRow)}

/-- A pending set lies above the floor and is made of everything gathered for its key. -/
theorem of_lookup (h : Tracks wait ops agg calls) {key : SetKey} {st : SetState}
    (hst : agg.sets.lookup key = some st) :
    agg.evictedUpto < key.slot ∧ setOf (gathered wait key ops) = some st := by
  rw [h.pending] at hst
  by_cases hle : key.slot ≤ agg.evictedUpto
  · rw [if_pos hle] at hst
    simp at hst
  · rw [if_neg hle] at hst
    exact ⟨not_le.mp hle, hst⟩

/-- The cutoff is the floor that a harvest moves the window to. -/
theorem cutoff_eq (h : Tracks wait ops agg calls) :
    agg.cutoff = ((Window.after ops : Window wait).step .harvest).floor := by
  unfold cutoff
  rw [h.highest, h.configured]
  rfl

/-- The floor is not above the cutoff. -/
lemma evictedUpto_le_cutoff (h : Tracks wait ops agg calls) : agg.evictedUpto ≤ agg.cutoff := by
  rw [h.floor, h.cutoff_eq]
  exact Window.floor_le_step _ _

/-- A harvest emits the pending sets that are ready; with the rows emitted before, these are the
sets of all keys at or below the floor or ready. -/
lemma emits_harvest (h : Tracks wait ops agg calls) (drainAll : Bool) :
    Emits wait ops (fun key => key.slot ≤ agg.evictedUpto ∨ agg.ready drainAll key = true)
      (calls ++ [(agg.harvest drainAll).2]) where
  made row hrow := by
    rw [List.flatten_append, List.mem_append, List.flatten_singleton] at hrow
    rcases hrow with hold | hnew
    · obtain ⟨hdone, hmade⟩ := h.emits.made row hold
      exact ⟨Or.inl hdone, hmade⟩
    · obtain ⟨key, st, hlookup, hready, rfl⟩ := mem_harvest_iff.mp hnew
      exact ⟨Or.inr hready, st, agg.truth, (h.of_lookup hlookup).2, rfl⟩
  complete key hdone hne := by
    rw [List.flatten_append, List.flatten_singleton]
    by_cases hle : key.slot ≤ agg.evictedUpto
    · obtain ⟨row, hrow, hkey⟩ := h.emits.complete key hle hne
      exact ⟨row, List.mem_append_left _ hrow, hkey⟩
    -- a set that is not closed yet is pending, and so it is harvested if it is ready
    · have hready : agg.ready drainAll key = true := hdone.resolve_left hle
      obtain ⟨st, hst⟩ := Option.ne_none_iff_exists'.mp (mt setOf_eq_none_iff.mp hne)
      have hlookup : agg.sets.lookup key = some st := by rw [h.pending, if_neg hle, hst]
      exact ⟨finalize key st agg.truth,
        List.mem_append_right _ (mem_harvest_iff.mpr ⟨key, st, hlookup, hready, rfl⟩), rfl⟩
  nodup := by
    rw [List.flatten_append, List.flatten_singleton, List.map_append]
    refine h.emits.nodup.append (nodup_keys_harvest agg drainAll) ?_
    intro key hold hnew
    obtain ⟨row, hrow, rfl⟩ := List.mem_map.mp hold
    obtain ⟨row', hrow', heq⟩ := List.mem_map.mp hnew
    obtain ⟨key', st, hlookup, -, rfl⟩ := mem_harvest_iff.mp hrow'
    have hle : row.key.slot ≤ agg.evictedUpto := (h.emits.made row hrow).1
    have hlt : agg.evictedUpto < key'.slot := (h.of_lookup hlookup).1
    rw [key_finalize] at heq
    rw [heq] at hlt
    omega
  ascending := by
    refine List.pairwise_append.mpr ⟨h.emits.ascending, List.pairwise_singleton _ _, ?_⟩
    intro earlier hearlier later hlater row hrow row' hrow'
    rw [List.mem_singleton.mp hlater] at hrow'
    obtain ⟨key', st, hlookup, -, rfl⟩ := mem_harvest_iff.mp hrow'
    have hle : row.key.slot ≤ agg.evictedUpto :=
      (h.emits.made row (List.mem_flatten_of_mem hearlier hrow)).1
    exact Nat.lt_of_le_of_lt hle (h.of_lookup hlookup).1

/-- A harvest keeps the invariant. -/
theorem harvest (h : Tracks wait ops agg calls) :
    Tracks wait (ops ++ [.harvest]) (agg.harvest false).1
      (calls ++ [(agg.harvest false).2]) := by
  have hfloor : (agg.harvest false).1.evictedUpto = agg.cutoff := by
    rw [harvest_evictedUpto, if_neg Bool.false_ne_true, max_eq_right h.evictedUpto_le_cutoff]
  have hready : ∀ key, agg.ready false key = true ↔ key.slot ≤ agg.cutoff := by
    intro key
    simp [ready]
  refine ⟨?_, ?_, ?_, ?_, ?_, ?_, ?_, ?_⟩
  · rw [harvest_maxWaitSlots, h.configured]
  · rw [harvest_maxSlot, h.highest, Window.after_concat]
    rfl
  · rw [hfloor, h.cutoff_eq, Window.after_concat]
  · intro key
    rw [harvest_sets, AList.lookup_retain, hfloor, h.pending, gathered_harvest]
    by_cases hle : key.slot ≤ agg.cutoff
    · rw [if_pos hle, Option.filter_eq_none_iff]
      intro st _
      simp [hready key, hle]
    · have hlt : ¬ key.slot ≤ agg.evictedUpto := fun hle' =>
        hle (hle'.trans h.evictedUpto_le_cutoff)
      have hnot : agg.ready false key = false := by
        rw [← Bool.not_eq_true, hready]
        exact hle
      rw [if_neg hle, if_neg hlt, hnot]
      cases setOf (gathered wait key ops) <;> rfl
  · intro row hrow
    rw [gathered_harvest, hfloor]
    obtain ⟨hdone, hmade⟩ := (h.emits_harvest false).made row hrow
    refine ⟨hdone.elim (fun hle => hle.trans h.evictedUpto_le_cutoff) (hready _).mp, hmade⟩
  · intro key hle hne
    rw [gathered_harvest] at hne
    rw [hfloor] at hle
    exact (h.emits_harvest false).complete key (Or.inr ((hready key).mpr hle)) hne
  · exact (h.emits_harvest false).nodup
  · exact (h.emits_harvest false).ascending

/-- A shred keeps the invariant. -/
theorem ingest (h : Tracks wait ops agg calls) (s : VerifiedShred) :
    Tracks wait (ops ++ [.ingest s]) (agg.ingest s) (calls ++ [[]]) := by
  -- a set whose slot is closed takes in nothing more
  have hdone : ∀ key : SetKey, key.slot ≤ agg.evictedUpto →
      gathered wait key (ops ++ [.ingest s]) = gathered wait key ops := by
    intro key hle
    rw [gathered_concat, Window.takesIn_of_le_floor (h.floor ▸ hle), List.append_nil]
  refine ⟨?_, ?_, ?_, ?_, ?_⟩
  · rw [ingest_maxWaitSlots, h.configured]
  · rw [ingest_maxSlot, h.highest, Window.after_concat]
    rfl
  · rw [ingest_evictedUpto, h.floor, Window.after_concat]
    rfl
  · intro key
    rw [ingest_evictedUpto, lookup_ingest, h.pending]
    by_cases hle : key.slot ≤ agg.evictedUpto
    · have hother : ¬ (key = s.setKey ∧ agg.evictedUpto < s.slot) := by
        intro ⟨hkey, hlt⟩
        have hslot : key.slot = s.slot := congrArg SetKey.slot hkey
        omega
      rw [if_pos hle, if_neg hother, if_pos hle]
    · rw [if_neg hle, if_neg hle, gathered_concat, Window.takesIn, ← h.floor]
      by_cases hkey : key = s.setKey
      · have hlt : agg.evictedUpto < s.slot := by
          rw [hkey] at hle
          exact not_le.mp hle
        rw [if_pos ⟨hkey, hlt⟩, if_pos ⟨hkey.symm, hlt⟩, setOf_concat, setFor, ← hkey, h.pending,
          if_neg hle]
      · rw [if_neg (fun hboth => hkey hboth.1), if_neg (fun hboth => hkey hboth.1.symm),
          List.append_nil]
  · have hflatten : (calls ++ [[]]).flatten = calls.flatten := by simp
    rw [ingest_evictedUpto]
    refine ⟨?_, ?_, ?_, ?_⟩
    · intro row hrow
      rw [hflatten] at hrow
      have hmade := h.emits.made row hrow
      rw [hdone _ hmade.1]
      exact hmade
    · intro key hle hne
      rw [hdone key hle] at hne
      rw [hflatten]
      exact h.emits.complete key hle hne
    · rw [hflatten]
      exact h.emits.nodup
    · refine List.pairwise_append.mpr ⟨h.emits.ascending, List.pairwise_singleton _ _, ?_⟩
      intro earlier _ later hlater row _ row' hrow'
      rw [List.mem_singleton.mp hlater] at hrow'
      simp at hrow'

end Tracks

/-- A new aggregator has emitted nothing of nothing. -/
theorem tracks_new (wait : ℕ) : Tracks wait [] (Aggregator.new wait) [] where
  configured := rfl
  highest := rfl
  floor := rfl
  pending key := by
    rw [gathered_nil, setOf_nil, ite_self]
    rfl
  emits :=
    { made := by simp
      complete := by simp
      nodup := List.nodup_nil
      ascending := List.Pairwise.nil }

/-- One call keeps the invariant. -/
theorem Tracks.step {wait : ℕ} {ops : List Op} {agg : Aggregator} {calls : List (List SetRow)}
    (h : Tracks wait ops agg calls) (op : Op) :
    Tracks wait (ops ++ [op]) (agg.step op).1 (calls ++ [(agg.step op).2]) := by
  cases op with
  | ingest s => exact h.ingest s
  | harvest => exact h.harvest

/-- The invariant holds along every run. -/
theorem tracks_run (wait : ℕ) (ops : List Op) :
    Tracks wait ops (stateAfter wait ops)
      (Machine.outputs Aggregator.step (Aggregator.new wait) ops) := by
  refine Machine.run_induction Aggregator.step (P := fun ops agg calls => Tracks wait ops agg calls)
    (tracks_new wait) ?_ ops
  intro ops op agg calls h
  exact h.step op

/-- In a closed run every key is done. -/
theorem emits_emitted (wait : ℕ) (ops : List Op) :
    Emits wait ops (fun _ => True) (emitted wait ops) := by
  have h := (tracks_run wait ops).emits_harvest true
  refine ⟨?_, ?_, h.nodup, h.ascending⟩
  · intro row hrow
    exact ⟨trivial, (h.made row hrow).2⟩
  · intro key _ hne
    exact h.complete key (Or.inr rfl) hne

/-! ### Whole and once -/

/-- Sets of one slot are emitted by one call. -/
lemma Emits.call_eq {wait : ℕ} {ops : List Op} {done : SetKey → Prop}
    {calls : List (List SetRow)} (h : Emits wait ops done calls) {i j : ℕ}
    {call call' : List SetRow} (hi : calls[i]? = some call) (hj : calls[j]? = some call')
    {row row' : SetRow} (hrow : row ∈ call) (hrow' : row' ∈ call') (hslot : row.slot = row'.slot) :
    i = j := by
  obtain ⟨hilt, rfl⟩ := List.getElem?_eq_some_iff.mp hi
  obtain ⟨hjlt, rfl⟩ := List.getElem?_eq_some_iff.mp hj
  have hasc := List.pairwise_iff_getElem.mp h.ascending
  rcases Nat.lt_trichotomy i j with hlt | heq | hgt
  · have := hasc i j hilt hjlt hlt row hrow row' hrow'
    omega
  · exact heq
  · have := hasc j i hjlt hilt hgt row' hrow' row hrow
    omega

/-- No call lowers the floor. -/
theorem evictedUpto_le_step (wait : ℕ) (ops : List Op) (op : Op) :
    (stateAfter wait ops).evictedUpto ≤ (stateAfter wait (ops ++ [op])).evictedUpto := by
  rw [(tracks_run wait ops).floor, (tracks_run wait (ops ++ [op])).floor, Window.after_concat]
  exact Window.floor_le_step _ op

/-- Pending sets lie above the floor. -/
lemma evictedUpto_lt_of_pending (wait : ℕ) (ops : List Op) {key : SetKey}
    (hkey : key ∈ (stateAfter wait ops).sets) : (stateAfter wait ops).evictedUpto < key.slot := by
  obtain ⟨st, hst⟩ := AList.mem_keys_iff_lookup.mp (AList.mem_keys.mp hkey)
  exact ((tracks_run wait ops).of_lookup hst).1

/-- A drain leaves nothing pending. -/
theorem not_mem_sets_drain (agg : Aggregator) (key : SetKey) :
    key ∉ (agg.harvest true).1.sets := by
  rw [← AList.lookup_eq_none, harvest_sets, AList.lookup_retain, Option.filter_eq_none_iff]
  intro st _
  simp [ready]

/-- What becomes of a shred: it is counted as late, or it goes into the set of its key, and that
set, with whatever else goes into it, is the one row of the key. -/
def AccountedFor (before after : Aggregator) (s : VerifiedShred) (rows : List SetRow) : Prop :=
  (after.shredsAfterWindow = before.shredsAfterWindow + 1 ∧ after.sets = before.sets) ∨
  (after.shredsAfterWindow = before.shredsAfterWindow ∧
    ∃ st, after.sets.lookup s.setKey = some st ∧ s.payloadHash ∈ st.seen ∧
      ∃ (later : List VerifiedShred) (truth : Truth), rows.filter (fun row => row.key = s.setKey) =
        [finalize s.setKey (later.foldl SetState.absorb st) truth])

/-- Of rows with distinct keys, those of one key are one row. -/
lemma filter_key_eq_singleton {rows : List SetRow} (hnd : (rows.map SetRow.key).Nodup)
    {row : SetRow} (hrow : row ∈ rows) :
    rows.filter (fun other => other.key = row.key) = [row] := by
  induction rows with
  | nil => simp at hrow
  | cons first rest ih =>
    rw [List.map_cons, List.nodup_cons] at hnd
    by_cases hkey : first.key = row.key
    · have hnot : ∀ other ∈ rest, ¬ other.key = row.key := by
        intro other hother heq
        exact hnd.1 (List.mem_map.mpr ⟨other, hother, heq.trans hkey.symm⟩)
      have hfirst : row = first := by
        rcases List.mem_cons.mp hrow with heq | hmem
        · exact heq
        · exact absurd rfl (hnot row hmem)
      rw [List.filter_cons_of_pos (by simpa using hkey), List.filter_eq_nil_iff.mpr (by simpa using
        hnot), hfirst]
    · have hmem : row ∈ rest := by
        rcases List.mem_cons.mp hrow with heq | hmem
        · exact absurd (congrArg SetRow.key heq.symm) hkey
        · exact hmem
      rw [List.filter_cons_of_neg (by simpa using hkey), ih hnd.2 hmem]

/-- Every shred of a closed run is accounted for. -/
lemma accountedFor_ingest (wait : ℕ) (before : List Op) (s : VerifiedShred) (later : List Op) :
    AccountedFor (stateAfter wait before) (stateAfter wait (before ++ [.ingest s])) s
      (emitted wait (before ++ .ingest s :: later)).flatten := by
  have hstep : stateAfter wait (before ++ [.ingest s]) = (stateAfter wait before).ingest s :=
    stateAfter_concat wait before (.ingest s)
  unfold AccountedFor
  by_cases hlate : s.slot ≤ (stateAfter wait before).evictedUpto
  · left
    rw [hstep, ingest_shredsAfterWindow, if_pos hlate, ingest_sets_of_late hlate]
    exact ⟨rfl, rfl⟩
  · right
    have hlookup : (stateAfter wait (before ++ [.ingest s])).sets.lookup s.setKey =
        some (((stateAfter wait before).setFor s).absorb s) := by
      rw [hstep, lookup_ingest, if_pos ⟨rfl, not_le.mp hlate⟩]
    -- the set goes on absorbing what the rest of the run gathers for its key
    obtain ⟨more, hmore⟩ := gathered_append wait s.setKey (before ++ [.ingest s]) later
    rw [List.append_assoc, List.singleton_append] at hmore
    have hset := setOf_append ((tracks_run wait _).of_lookup hlookup).2 more
    rw [← hmore] at hset
    have hemits := emits_emitted wait (before ++ .ingest s :: later)
    have hne : gathered wait s.setKey (before ++ .ingest s :: later) ≠ [] := by
      intro hnil
      rw [hnil] at hset
      simp at hset
    obtain ⟨row, hrow, hkey⟩ := hemits.complete s.setKey trivial hne
    obtain ⟨-, st, truth, hst, hfinal⟩ := hemits.made row hrow
    rw [hkey] at hst hfinal
    rw [hst] at hset
    have hsingle := filter_key_eq_singleton hemits.nodup hrow
    rw [hkey, hfinal, Option.some.inj hset] at hsingle
    refine ⟨?_, _, hlookup, ?_, more, truth, hsingle⟩
    · rw [hstep, ingest_shredsAfterWindow, if_neg hlate]
    · rw [SetState.absorb_seen]
      exact Finset.mem_insert_self _ _

/-- **Every race is seen whole and once.**  In a run of `ingest` and `harvest(false)` closed by
`harvest(true)`: no key has two rows; the rows of one slot and set come from one call; after every
harvest the pending sets lie above `evicted_upto`; `evicted_upto` never decreases; and every shred
was counted as late or is in a set that has exactly one row. -/
theorem harvest_emits_every_race_whole_and_once (maxWaitSlots : ℕ) (ops : List Op) :
    let calls := emitted maxWaitSlots ops
    let closed := ((stateAfter maxWaitSlots ops).harvest true).1
    (calls.flatten.map SetRow.key).Nodup ∧
    (∀ (i j : ℕ) (call call' : List SetRow), calls[i]? = some call → calls[j]? = some call' →
      ∀ row ∈ call, ∀ row' ∈ call', row.slot = row'.slot → row.fecSetIndex = row'.fecSetIndex →
        i = j) ∧
    ((∀ before later, ops = before ++ .harvest :: later →
        let agg := stateAfter maxWaitSlots (before ++ [.harvest])
        ∀ key ∈ agg.sets, agg.evictedUpto < key.slot) ∧
      ∀ key ∈ closed.sets, closed.evictedUpto < key.slot) ∧
    ((∀ before op later, ops = before ++ op :: later →
        (stateAfter maxWaitSlots before).evictedUpto ≤
          (stateAfter maxWaitSlots (before ++ [op])).evictedUpto) ∧
      (stateAfter maxWaitSlots ops).evictedUpto ≤ closed.evictedUpto) ∧
    ∀ before s later, ops = before ++ .ingest s :: later →
      AccountedFor (stateAfter maxWaitSlots before)
        (stateAfter maxWaitSlots (before ++ [.ingest s])) s calls.flatten := by
  have hemits := emits_emitted maxWaitSlots ops
  refine ⟨hemits.nodup, ?_, ⟨?_, ?_⟩, ⟨?_, ?_⟩, ?_⟩
  · intro i j call call' hi hj row hrow row' hrow' hslot _
    exact hemits.call_eq hi hj hrow hrow' hslot
  · intro before later _ agg key hkey
    exact evictedUpto_lt_of_pending maxWaitSlots _ hkey
  · intro key hkey
    exact absurd hkey (not_mem_sets_drain _ key)
  · intro before op later _
    exact evictedUpto_le_step maxWaitSlots before op
  · rw [harvest_evictedUpto, if_pos rfl]
    exact (tracks_run maxWaitSlots ops).evictedUpto_le_cutoff
  · intro before s later hops
    rw [hops]
    exact accountedFor_ingest maxWaitSlots before s later

end Aggregator

end ShredTools.Audit
