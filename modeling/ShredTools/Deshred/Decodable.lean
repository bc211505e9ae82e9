import ShredTools.Deshred.BlockRun
import ShredTools.Deshred.SlotIsolation

/-!
# What a shred makes decodable

The shreds that a source sends of one slot may be those of a well-formed block, between arbitrary
shreds of other slots.  Then the data sets that one more shred brings of this slot are those of the
block that become decodable with it (`newlyTaken_block`), as long as the slot was not evicted.

`Decodable` says this of the shreds alone: those of the data set are all present, received or
recoverable, and so is the end of the data set before it.  `decoded` is what a data set of the block
decodes to.  The insertion of one more shred is an extension of the run by one call
(`takenAlong_concat`), and what it brings is of the slot of the shred
(`Deshredder.slot_of_completed`), so shreds of other slots do not matter.
-/

namespace ShredTools.Deshred

variable {Entry : Type*}

namespace Block

variable (b : Block)

/-- A data set of the block can be decoded from some of its shreds: all its indices are present, and
so is the end of the data set before it. -/
def Decodable (received : List Shred) (s e : ℕ) : Prop :=
  Segment b.EndsAt s e ∧ (∀ i, s ≤ i → i ≤ e → b.Present received i) ∧
    (s = 0 ∨ b.Present received (s - 1))

/-- What a data set of the block decodes to. -/
def decoded (agave : Agave Entry) (range : ℕ × ℕ) : Option (CompletedDataSet Entry) :=
  decode agave b.slot range.1 range.2 ((b.data.drop range.1).take (range.2 + 1 - range.1))

end Block

/-- The shreds of one slot. -/
def ofSlot (slot : ℕ) (shreds : List Shred) : List Shred :=
  shreds.filter fun shred => shred.slot = slot

/-- The ranges of some data sets. -/
def rangesOf (taken : List (TakenDataSet Entry)) : List (ℕ × ℕ) :=
  taken.map fun dataSet => (dataSet.startShredIndex, dataSet.endShredIndex)

lemma rangesOf_append (taken taken' : List (TakenDataSet Entry)) :
    rangesOf (taken ++ taken') = rangesOf taken ++ rangesOf taken' :=
  List.map_append

/-- A run with one more shred. -/
theorem takenAlong_concat (agave : Agave Entry) (shreds : List Shred) (shred : Shred) :
    takenAlong agave Deshredder.default (shreds ++ [shred]) =
      takenAlong agave Deshredder.default shreds ++
        ((Machine.finalState (Deshredder.insertShred agave) Deshredder.default
          shreds).insertShred agave shred).2 := by
  rw [takenAlong, Machine.outputs_concat, List.flatten_append, List.flatten_singleton]
  rfl

/-- What a data set decodes to is of the same slot. -/
theorem Deshredder.slot_of_completed (agave : Agave Entry) (deshredder : Deshredder)
    (shred : Shred) {dataSet : TakenDataSet Entry}
    (hmem : dataSet ∈ (deshredder.insertShred agave shred).2) {set : CompletedDataSet Entry}
    (hset : dataSet.completed = some set) : set.slot = dataSet.slot := by
  rcases deshredder.insertShred_cases agave shred with ⟨-, heq⟩ | ⟨st, -, hfin, -, htaken, -⟩
  · rw [heq] at hmem
    exact absurd hmem List.not_mem_nil
  · obtain ⟨new, mid, -, htakes⟩ := SlotState.insertShred_spec agave shred hfin
    rw [(htakes.sound dataSet (htaken ▸ hmem)).completed] at hset
    unfold decode at hset
    obtain ⟨bytes, -, hbytes⟩ := Option.bind_eq_some_iff.mp hset
    obtain ⟨entries, -, rfl⟩ := Option.map_eq_some_iff.mp hbytes
    rfl

namespace Block

variable {b : Block} {agave : Agave Entry}

/-- The data sets taken along a run over shreds of the block are those that can be decoded. -/
lemma takenAlong_decodable (hrec : agave.Recovers b) {received : List Shred}
    (hreceived : ∀ shred ∈ received, shred ∈ b.shreds) :
    let taken := takenAlong agave Deshredder.default received
    (∀ s e, (s, e) ∈ rangesOf taken ↔ b.Decodable received s e) ∧ (rangesOf taken).Nodup ∧
      ∀ dataSet ∈ taken, b.TakenOk agave (b.Present received) dataSet := by
  obtain ⟨hsets, hcomplete⟩ : (∀ dataSet ∈ takenAlong agave Deshredder.default received,
      b.TakenOk agave (b.Present received) dataSet) ∧
      b.Complete (b.Present received) (takenAlong agave Deshredder.default received) := by
    rcases runInvariant_run hrec received hreceived with ⟨rfl, hnil, -⟩ | ⟨st, -, hsynced⟩
    · rw [hnil]
      refine ⟨fun _ h => absurd h List.not_mem_nil, fun s e hseg hpresent _ => ?_⟩
      exact absurd (hpresent s le_rfl hseg.le) (not_present_nil s)
    · exact ⟨hsynced.sets, hsynced.complete hreceived⟩
  refine ⟨fun s e => ?_, ?_, hsets⟩
  · rw [rangesOf, List.mem_map]
    constructor
    · rintro ⟨dataSet, hmem, heq⟩
      rw [Prod.mk.injEq] at heq
      obtain ⟨rfl, rfl⟩ := heq
      have hok := hsets dataSet hmem
      exact ⟨hok.segment, hok.present, hok.before⟩
    · rintro ⟨hseg, hpresent, hbefore⟩
      obtain ⟨dataSet, hmem, hstart, hend⟩ := hcomplete s e hseg hpresent hbefore
      exact ⟨dataSet, hmem, by rw [hstart, hend]⟩
  · rw [List.Nodup, rangesOf, List.pairwise_map]
    refine (ringInvariant_run agave received).apart.imp_of_mem ?_
    intro dataSet other hd ho hapart heq
    rw [Prod.mk.injEq] at heq
    have hslot := (hsets dataSet hd).slot.trans (hsets other ho).slot.symm
    have hle := (hsets other ho).segment.le
    exact hapart hslot other.startShredIndex ⟨by omega, by omega⟩

/-- **What one more shred brings.**  The shreds inserted so far are arbitrary, but those of the
block's slot are shreds of the block, and none evicts the slot.  Then the data sets that one more
shred brings of this slot are those of the block that could not be decoded without it, each once,
and each decoded from the shreds of the block. -/
theorem newlyTaken_block (hrec : agave.Recovers b) {shreds : List Shred} {shred : Shred}
    (hgenuine : ∀ other ∈ shreds ++ [shred], other.slot = b.slot → other ∈ b.shreds)
    (hkeep : ∀ other ∈ shreds ++ [shred], evicts b.slot other = false) :
    let deshredder := Machine.finalState (Deshredder.insertShred agave) Deshredder.default shreds
    let new := (deshredder.insertShred agave shred).2.filter fun dataSet => dataSet.slot = b.slot
    (∀ s e, (s, e) ∈ rangesOf new ↔ b.Decodable (ofSlot b.slot (shreds ++ [shred])) s e ∧
        ¬ b.Decodable (ofSlot b.slot shreds) s e) ∧
      (rangesOf new).Nodup ∧
      ∀ dataSet ∈ new, dataSet.completed =
        b.decoded agave (dataSet.startShredIndex, dataSet.endShredIndex) := by
  intro deshredder new
  have hown : ∀ other ∈ ofSlot b.slot (shreds ++ [shred]), other ∈ b.shreds := by
    intro other hmem
    obtain ⟨hmem, hslot⟩ := List.mem_filter.mp hmem
    exact hgenuine other hmem (of_decide_eq_true hslot)
  have hown' : ∀ other ∈ ofSlot b.slot shreds, other ∈ b.shreds := by
    intro other hmem
    refine hown other ?_
    rw [ofSlot, List.filter_append]
    exact List.mem_append_left _ hmem
  have hbefore := (filter_takenAlong agave fun other hmem =>
    hkeep other (List.mem_append_left _ hmem)).2
  have hafter := (filter_takenAlong agave hkeep).2
  -- what was taken of the slot before, and what is taken with the shred
  have hsplit : takenAlong agave Deshredder.default (ofSlot b.slot (shreds ++ [shred])) =
      takenAlong agave Deshredder.default (ofSlot b.slot shreds) ++ new := by
    rw [ofSlot, ofSlot, ← hafter, ← hbefore, takenAlong_concat, List.filter_append]
  obtain ⟨hranges, -, -⟩ := takenAlong_decodable hrec hown'
  obtain ⟨hranges', hnodup, hsets⟩ := takenAlong_decodable hrec hown
  rw [hsplit, rangesOf_append, List.nodup_append] at hnodup
  obtain ⟨-, hnew, hapart⟩ := hnodup
  refine ⟨fun s e => ?_, hnew, fun dataSet hmem => ?_⟩
  · rw [← hranges, ← hranges', hsplit, rangesOf_append, List.mem_append]
    constructor
    · exact fun hmem => ⟨Or.inr hmem, fun hold => hapart _ hold _ hmem rfl⟩
    · rintro ⟨hold | hmem, hnot⟩
      · exact absurd hold hnot
      · exact hmem
  · have hok := hsets dataSet (hsplit ▸ List.mem_append_right _ hmem)
    rw [hok.completed, hok.dataShreds]
    rfl

end Block

end ShredTools.Deshred
