import Mathlib.Data.List.Basic
import Mathlib.Data.List.Pairwise
import ShredTools.Library.Checks
import ShredTools.Library.Placement

/-!
# The leader schedule

The leaders of the last few epochs, by the first slot of the epoch.  The epochs stand in ascending
order, as in the tree map of the source, and the structure carries the proof.

The leaders of an epoch come from the answer of the node, which lists the slots of each leader as
indices in the epoch.  `leaders_by_slot` puts each leader in its places, and accepts the answer if
no place is left empty (`exists_leadersBySlot_iff`).  The hash map of the answer is a list of its
entries here, in the order in which it hands them out.  Parsing an address is a parameter.
-/

namespace ShredTools.Deshred

variable {Address : Type*}

/-- `EPOCHS_KEPT` -/
def epochsKept : ℕ := 3

/-- The leaders of each epoch held, in ascending order of the first slot. -/
structure LeaderSchedule (Address : Type*) where
  /-- The first slot and the leaders of each epoch. -/
  epochs : List (ℕ × List Address)
  /-- First slots ascend. -/
  ascending : epochs.Pairwise fun epoch later => epoch.1 < later.1

namespace LeaderSchedule

/-- `LeaderSchedule::default` -/
def empty : LeaderSchedule Address := ⟨[], List.Pairwise.nil⟩

/-- The epochs with one inserted, or replaced, at its first slot. -/
def insertSorted (epochs : List (ℕ × List Address)) (firstSlot : ℕ) (leaders : List Address) :
    List (ℕ × List Address) :=
  epochs.filter (fun epoch => epoch.1 < firstSlot) ++ (firstSlot, leaders) ::
    epochs.filter (fun epoch => firstSlot < epoch.1)

/-- Inserting at its place keeps the epochs in order. -/
lemma insertSorted_ascending {epochs : List (ℕ × List Address)}
    (h : epochs.Pairwise fun epoch later => epoch.1 < later.1) (firstSlot : ℕ)
    (leaders : List Address) :
    (insertSorted epochs firstSlot leaders).Pairwise fun epoch later => epoch.1 < later.1 := by
  refine List.pairwise_append.mpr ⟨h.sublist List.filter_sublist,
    List.pairwise_cons.mpr ⟨?_, h.sublist List.filter_sublist⟩, ?_⟩
  · intro epoch hepoch
    exact of_decide_eq_true (List.mem_filter.mp hepoch).2
  · intro epoch hepoch later hlater
    have hlt : epoch.1 < firstSlot := of_decide_eq_true (List.mem_filter.mp hepoch).2
    rcases List.mem_cons.mp hlater with rfl | hlater
    · exact hlt
    · exact Nat.lt_trans hlt (of_decide_eq_true (List.mem_filter.mp hlater).2)

/-- `LeaderSchedule::insert_epoch`: insert an epoch, then drop the first ones beyond the limit. -/
def insertEpoch (schedule : LeaderSchedule Address) (firstSlot : ℕ) (leaders : List Address) :
    LeaderSchedule Address :=
  let epochs := insertSorted schedule.epochs firstSlot leaders
  ⟨epochs.drop (epochs.length - epochsKept),
    (insertSorted_ascending schedule.ascending firstSlot leaders).sublist (List.drop_sublist _ _)⟩

/-- `LeaderSchedule::leader`: the leader of a slot, in the last epoch that begins by then. -/
def leader (schedule : LeaderSchedule Address) (slot : ℕ) : Option Address :=
  match (schedule.epochs.filter fun epoch => epoch.1 ≤ slot).getLast? with
  | some (firstSlot, leaders) => leaders[slot - firstSlot]?
  | none => none

end LeaderSchedule

end ShredTools.Deshred

/-! ### The leaders of an epoch -/

namespace ShredTools.Deshred

open Placement

variable {Address : Type}

/-- `ScheduleError`, what `leaders_by_slot` reports. -/
inductive ScheduleError
  | badPubkey (leader : String)
  | incomplete (firstSlot covered slots : ℕ)
  deriving DecidableEq

/-- The loop of `leaders_by_slot` over the leaders. -/
def placeLeaders (parse : String → Option Address) (schedule : List (String × List ℕ))
    (leaders : List (Option Address)) : Except ScheduleError (List (Option Address)) :=
  schedule.foldlM
    (fun leaders entry =>
      match parse entry.1 with
      | some leader =>
        .ok (entry.2.foldl (fun leaders index => place leaders (index, leader)) leaders)
      | none => .error (.badPubkey entry.1))
    leaders

/-- `leaders_by_slot` -/
def leadersBySlot (parse : String → Option Address) (schedule : List (String × List ℕ))
    (firstSlot slots : ℕ) : Except ScheduleError (List Address) := do
  let leaders ← placeLeaders parse schedule (List.replicate slots none)
  let leaders := leaders.reduceOption
  if leaders.length ≠ slots then throw (.incomplete firstSlot leaders.length slots)
  return leaders

/-- The indices that are written, with the leaders that are written there. -/
def writesOf (parse : String → Option Address) (schedule : List (String × List ℕ)) :
    List (ℕ × Address) :=
  schedule.flatMap fun entry => (parse entry.1).toList.flatMap fun leader =>
    entry.2.map fun index => (index, leader)

/-- All leaders of an answer parse. -/
def Parses (parse : String → Option Address) (schedule : List (String × List ℕ)) : Prop :=
  ∀ entry ∈ schedule, (parse entry.1).isSome = true

instance (parse : String → Option Address) (schedule : List (String × List ℕ)) :
    Decidable (Parses parse schedule) :=
  inferInstanceAs (Decidable (∀ entry ∈ schedule, (parse entry.1).isSome = true))

variable {parse : String → Option Address} {schedule : List (String × List ℕ)}

/-- A leader is written at an index exactly if it lists the index. -/
theorem mem_writesOf {index : ℕ} {leader : Address} : (index, leader) ∈ writesOf parse schedule ↔
    ∃ entry ∈ schedule, index ∈ entry.2 ∧ parse entry.1 = some leader := by
  unfold writesOf
  simp only [List.mem_flatMap, List.mem_map, Option.mem_toList, Prod.mk.injEq]
  constructor
  · rintro ⟨entry, hentry, leader', hparse, index', hindex, rfl, rfl⟩
    exact ⟨entry, hentry, hindex, hparse⟩
  · rintro ⟨entry, hentry, hindex, hparse⟩
    exact ⟨entry, hentry, leader, hparse, index, hindex, rfl, rfl⟩

/-- The writes of the first leader come first. -/
theorem writesOf_cons {entry : String × List ℕ} {leader : Address}
    (hleader : parse entry.1 = some leader) : writesOf parse (entry :: schedule) =
      (entry.2.map fun index => (index, leader)) ++ writesOf parse schedule := by
  unfold writesOf
  rw [List.flatMap_cons, hleader]
  simp

/-- If not all leaders parse, there is one that does not. -/
theorem exists_of_not_parses (h : ¬ Parses parse schedule) :
    ∃ entry ∈ schedule, parse entry.1 = none := by
  by_contra hnone
  apply h
  intro entry hentry
  exact Option.isSome_iff_ne_none.mpr fun heq => hnone ⟨entry, hentry, heq⟩

/-- With leaders that parse, the loop makes all writes. -/
lemma placeLeaders_of_parses (h : Parses parse schedule) (leaders : List (Option Address)) :
    placeLeaders parse schedule leaders = .ok (placeAll leaders (writesOf parse schedule)) := by
  unfold placeLeaders
  induction schedule generalizing leaders with
  | nil => rfl
  | cons entry schedule ih =>
    obtain ⟨leader, hleader⟩ := Option.isSome_iff_exists.mp (h entry List.mem_cons_self)
    have hrest : Parses parse schedule := fun e he => h e (List.mem_cons_of_mem _ he)
    rw [List.foldlM_cons, hleader, writesOf_cons hleader]
    refine (ih hrest _).trans ?_
    unfold placeAll
    rw [List.foldl_append, List.foldl_map]

/-- With one that does not, it fails. -/
lemma placeLeaders_of_not_parses (h : ¬ Parses parse schedule)
    (leaders : List (Option Address)) :
    ∃ e, placeLeaders parse schedule leaders = .error e := by
  obtain ⟨entry, hentry, hnone⟩ := exists_of_not_parses h
  apply Except.exists_foldlM_eq_error hentry
  intro leaders
  rw [hnone]
  exact ⟨_, rfl⟩

/-- **A schedule is accepted exactly if its leaders parse and list every slot.** -/
theorem exists_leadersBySlot_iff (firstSlot slots : ℕ) :
    (∃ leaders, leadersBySlot parse schedule firstSlot slots = .ok leaders) ↔
      Parses parse schedule ∧ ∀ i < slots, ∃ leader, (i, leader) ∈ writesOf parse schedule := by
  unfold leadersBySlot
  by_cases hparses : Parses parse schedule
  · rw [placeLeaders_of_parses hparses, ← full_placeAll_iff]
    rw [Except.ok_bind]
    dsimp only
    split
    next hgap => simp [hgap, throw, throwThe, MonadExceptOf.throw]
    next hfull => simp [not_not.mp hfull, hparses, pure, Except.pure]
  · obtain ⟨e, he⟩ := placeLeaders_of_not_parses hparses (List.replicate slots none)
    rw [he, Except.error_bind]
    simp [hparses]

end ShredTools.Deshred
