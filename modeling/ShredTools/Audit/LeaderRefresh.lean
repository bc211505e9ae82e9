import ShredTools.Audit.VerifiedShred
import ShredTools.Deshred.LeaderSchedule

/-!
# Refreshing the leader schedule of the audit

`refresh` places the leaders of an answer slot by slot, and tells a whole schedule from one with
gaps by the number of placements.  An index that is listed twice is placed twice, so it makes up for
a gap: `installsWhole_iff` says when that happens.  The reconstruction crate builds its schedule
from the same answer by `leaders_by_slot`, which counts the slots that have a leader.

`InstallsWhole` says what a refresh should do: with an answer it installs a leader for every slot of
the epoch or leaves the schedule as it was, and what it accepts is accepted by the other crate as
well.  `epochOf_eq_ok_iff` reads off the loop what it does.  The answer of the node comes as a list
of leaders with their indices in the epoch, in the order of the hash map, and parsing a key is a
parameter.  In the example the epoch has three slots, one index is listed twice, and the last slot
is left without a leader.
-/

namespace ShredTools.Audit

open Placement
open Deshred (Parses writesOf leadersBySlot)

/-- `EpochInfo` -/
structure EpochInfo where
  /-- The slot that the node is at. -/
  absoluteSlot : ℕ
  /-- The place of the slot in the epoch. -/
  slotIndex : ℕ
  /-- The number of slots of the epoch. -/
  slotsInEpoch : ℕ
  /-- The number of the epoch. -/
  epoch : ℕ
  deriving DecidableEq

/-- The first slot of the epoch. -/
def EpochInfo.firstSlot (info : EpochInfo) : ℕ :=
  (info.absoluteSlot + u64Size - info.slotIndex) % u64Size

/-- Why a refresh fails. -/
inductive RefreshError
  /-- `getEpochInfo` fails. -/
  | epochInfo (error : String)
  /-- `getLeaderSchedule` fails. -/
  | leaderSchedule (error : String)
  /-- A leader does not parse. -/
  | badPubkey (pubkey : String)
  /-- No slot has a leader. -/
  | empty
  /-- The placements are not as many as the slots. -/
  | gap (placed slotsInEpoch epoch : ℕ)
  deriving DecidableEq

/-- The text of an error, after those of the calls that it comes from. -/
def RefreshError.text : RefreshError → String
  | epochInfo error => "getEpochInfo: rpc getEpochInfo: " ++ error
  | leaderSchedule error => "getLeaderSchedule: rpc getLeaderSchedule: " ++ error
  | badPubkey pubkey => "bad pubkey in leader schedule: " ++ pubkey
  | empty => "leader schedule came back empty"
  | gap placed slotsInEpoch epoch =>
    "leader schedule covers " ++ toString placed ++ " of " ++ toString slotsInEpoch ++
      " slots in epoch " ++ toString epoch ++ " — the schedule and the epoch info disagree; " ++
      "refusing to verify against a schedule that may be for a different epoch"

section Refresh

variable (parse : String → Option Pubkey)

/-- A placement of `refresh`, which counts if the index is one of the epoch. -/
def countedPlace (pubkey : Pubkey) (st : List (Option Pubkey) × ℕ) (i : ℕ) :
    List (Option Pubkey) × ℕ :=
  if i < st.1.length then (st.1.set i (some pubkey), st.2 + 1) else st

/-- The loop of `refresh` over the leaders: the schedule, and the number of placements. -/
def fillLeaders (raw : List (String × List ℕ)) (st : List (Option Pubkey) × ℕ) :
    Except RefreshError (List (Option Pubkey) × ℕ) :=
  raw.foldlM
    (fun st entry =>
      match parse entry.1 with
      | some pubkey => .ok (entry.2.foldl (countedPlace pubkey) st)
      | none => .error (.badPubkey entry.1))
    st

/-- The part of `refresh` that makes an epoch of what the node answers. -/
def epochOf (info : EpochInfo) (raw : List (String × List ℕ)) : Except RefreshError Epoch := do
  let (leaders, placed) ← fillLeaders parse raw (List.replicate info.slotsInEpoch none, 0)
  if placed = 0 then throw .empty
  if placed ≠ info.slotsInEpoch then throw (.gap placed info.slotsInEpoch info.epoch)
  return { epoch := info.epoch, firstSlot := info.firstSlot, leaders := leaders }

/-- `LeaderSchedule::refresh`, given what the node answers to its two calls, with the schedule that
is held afterwards. -/
def LeaderSchedule.refresh (info : Except String EpochInfo)
    (raw : Except String (List (String × List ℕ))) (held : LeaderSchedule) :
    LeaderSchedule × Except RefreshError Unit :=
  match info with
  | .error error => (held, .error (.epochInfo error))
  | .ok info =>
    match raw with
    | .error error => (held, .error (.leaderSchedule error))
    | .ok raw =>
      match epochOf parse info raw with
      | .error error => (held, .error error)
      | .ok epoch => (some epoch, .ok ())

end Refresh

/-- The indices of the epoch that an answer lists, with their repetitions. -/
def listed (raw : List (String × List ℕ)) (slotsInEpoch : ℕ) : List ℕ :=
  (raw.flatMap Prod.snd).filter (· < slotsInEpoch)

/-- With an answer, `refresh` installs a whole schedule or leaves the one held alone. -/
structure InstallsWhole (parse : String → Option Pubkey) (info : EpochInfo)
    (raw : List (String × List ℕ)) : Prop where
  /-- What it installs has for every slot of the epoch a leader that lists the slot. -/
  whole : ∀ held, (LeaderSchedule.refresh parse (.ok info) (.ok raw) held).2 = .ok () →
    ∃ e, (LeaderSchedule.refresh parse (.ok info) (.ok raw) held).1 = some e ∧
      e.epoch = info.epoch ∧ e.firstSlot = info.firstSlot ∧ e.leaders.length = info.slotsInEpoch ∧
      ∀ i < info.slotsInEpoch, ∃ entry ∈ raw, i ∈ entry.2 ∧
        ∃ pubkey, parse entry.1 = some pubkey ∧ e.leaders[i]? = some (some pubkey)
  /-- Otherwise it fails, and leaves the schedule alone. -/
  refused : ∀ held e, (LeaderSchedule.refresh parse (.ok info) (.ok raw) held).2 = .error e →
    (LeaderSchedule.refresh parse (.ok info) (.ok raw) held).1 = held
  /-- What it accepts is also accepted by the reconstruction crate, in whatever order. -/
  agrees : ∀ held, (LeaderSchedule.refresh parse (.ok info) (.ok raw) held).2 = .ok () →
    ∀ raw', raw'.Perm raw → ∃ leaders,
      leadersBySlot parse raw' info.firstSlot info.slotsInEpoch = .ok leaders

section Loop

variable {parse : String → Option Pubkey} {raw : List (String × List ℕ)}

/-- The placements of one leader. -/
lemma foldl_countedPlace (pubkey : Pubkey) (is : List ℕ) (st : List (Option Pubkey) × ℕ) :
    is.foldl (countedPlace pubkey) st =
      (placeAll st.1 (is.map fun i => (i, pubkey)),
        st.2 + (is.filter (· < st.1.length)).length) := by
  induction is generalizing st with
  | nil => rfl
  | cons i is ih =>
    rw [List.foldl_cons, ih]
    unfold countedPlace placeAll
    rw [List.map_cons, List.foldl_cons]
    unfold place
    by_cases hi : i < st.1.length
    · rw [if_pos hi, List.filter_cons_of_pos (by simpa using hi), List.length_cons,
        List.length_set]
      congr 1
      omega
    · rw [if_neg hi, List.filter_cons_of_neg (by simpa using hi),
        List.set_eq_of_length_le (not_lt.mp hi)]

/-- With leaders that parse, the loop makes all placements and counts those in the epoch. -/
lemma fillLeaders_of_parses (h : Parses parse raw) (st : List (Option Pubkey) × ℕ) :
    fillLeaders parse raw st = .ok (placeAll st.1 (writesOf parse raw),
      st.2 + (listed raw st.1.length).length) := by
  unfold fillLeaders
  induction raw generalizing st with
  | nil => rfl
  | cons entry raw ih =>
    obtain ⟨pubkey, hpubkey⟩ := Option.isSome_iff_exists.mp (h entry List.mem_cons_self)
    have hrest : Parses parse raw := fun e he => h e (List.mem_cons_of_mem _ he)
    have hlisted : listed (entry :: raw) st.1.length =
        entry.2.filter (· < st.1.length) ++ listed raw st.1.length := by
      unfold listed
      rw [List.flatMap_cons, List.filter_append]
    rw [List.foldlM_cons, hpubkey, Deshred.writesOf_cons hpubkey, hlisted]
    refine (ih hrest _).trans ?_
    rw [foldl_countedPlace, length_placeAll, List.length_append, ← Nat.add_assoc]
    unfold placeAll
    rw [List.foldl_append]

/-- With one that does not, it fails. -/
lemma fillLeaders_of_not_parses (h : ¬ Parses parse raw) (st : List (Option Pubkey) × ℕ) :
    ∃ e, fillLeaders parse raw st = .error e := by
  obtain ⟨entry, hentry, hnone⟩ := Deshred.exists_of_not_parses h
  apply Except.exists_foldlM_eq_error hentry
  intro st
  rw [hnone]
  exact ⟨_, rfl⟩

/-- **What `refresh` accepts**: as many placements as there are slots. -/
theorem epochOf_eq_ok_iff {info : EpochInfo} {e : Epoch} : epochOf parse info raw = .ok e ↔
    Parses parse raw ∧ (listed raw info.slotsInEpoch).length = info.slotsInEpoch ∧
      0 < info.slotsInEpoch ∧ e = ⟨info.epoch, info.firstSlot,
        placeAll (List.replicate info.slotsInEpoch none) (writesOf parse raw)⟩ := by
  unfold epochOf
  by_cases hparses : Parses parse raw
  · rw [fillLeaders_of_parses hparses, List.length_replicate, Nat.zero_add]
    rw [Except.ok_bind]
    dsimp only
    by_cases hempty : (listed raw info.slotsInEpoch).length = 0
    · rw [if_pos hempty]
      constructor
      · intro h
        cases h
      · rintro ⟨-, hlength, hpos, -⟩
        omega
    · rw [if_neg hempty]
      by_cases hgap : (listed raw info.slotsInEpoch).length = info.slotsInEpoch
      · rw [if_neg (not_not.mpr hgap)]
        constructor
        · intro h
          cases h
          exact ⟨hparses, hgap, by omega, rfl⟩
        · rintro ⟨-, -, -, rfl⟩
          rfl
      · rw [if_pos hgap]
        constructor
        · intro h
          cases h
        · rintro ⟨-, hlength, -, -⟩
          exact absurd hlength hgap
  · obtain ⟨error, herror⟩ := fillLeaders_of_not_parses hparses
      (List.replicate info.slotsInEpoch none, 0)
    rw [herror, Except.error_bind]
    simp [hparses]

end Loop

variable {parse : String → Option Pubkey} {info : EpochInfo} {raw : List (String × List ℕ)}

/-- A refresh that makes an epoch of an answer holds it. -/
lemma refresh_of_ok {e : Epoch} (h : epochOf parse info raw = .ok e) (held : LeaderSchedule) :
    LeaderSchedule.refresh parse (.ok info) (.ok raw) held = (some e, .ok ()) := by
  unfold LeaderSchedule.refresh
  dsimp only
  rw [h]

/-- A refresh accepts an answer only if it makes an epoch of it. -/
lemma exists_epochOf {held : LeaderSchedule}
    (h : (LeaderSchedule.refresh parse (.ok info) (.ok raw) held).2 = .ok ()) :
    ∃ e, epochOf parse info raw = .ok e := by
  unfold LeaderSchedule.refresh at h
  dsimp only at h
  cases hepoch : epochOf parse info raw with
  | error error =>
    rw [hepoch] at h
    cases h
  | ok e => exact ⟨e, rfl⟩

/-- A refresh that fails leaves the schedule alone. -/
lemma refresh_of_error (epochInfo : Except String EpochInfo)
    (schedule : Except String (List (String × List ℕ))) (held : LeaderSchedule) {e : RefreshError}
    (h : (LeaderSchedule.refresh parse epochInfo schedule held).2 = .error e) :
    (LeaderSchedule.refresh parse epochInfo schedule held).1 = held := by
  unfold LeaderSchedule.refresh at h ⊢
  cases epochInfo with
  | error error => rfl
  | ok info =>
    cases schedule with
    | error error => rfl
    | ok raw =>
      dsimp only at h ⊢
      cases hepoch : epochOf parse info raw with
      | error error => rfl
      | ok e =>
        rw [hepoch] at h
        cases h

/-- A slot is listed exactly if it is one of the epoch that some leader lists. -/
lemma mem_listed {slotsInEpoch i : ℕ} :
    i ∈ listed raw slotsInEpoch ↔ i < slotsInEpoch ∧ ∃ entry ∈ raw, i ∈ entry.2 := by
  unfold listed
  rw [List.mem_filter, List.mem_flatMap, decide_eq_true_iff, and_comm]

/-- With leaders that parse, every listed slot is written. -/
lemma exists_mem_writesOf (h : Parses parse raw) {i : ℕ} (hi : ∃ entry ∈ raw, i ∈ entry.2) :
    ∃ pubkey, (i, pubkey) ∈ writesOf parse raw := by
  obtain ⟨entry, hentry, hmem⟩ := hi
  obtain ⟨pubkey, hpubkey⟩ := Option.isSome_iff_exists.mp (h entry hentry)
  exact ⟨pubkey, Deshred.mem_writesOf.mpr ⟨entry, hentry, hmem, hpubkey⟩⟩

/-- **A schedule with gaps is installed exactly if repeated indices make up for the gaps.** -/
theorem installsWhole_iff : InstallsWhole parse info raw ↔
    ¬ (Parses parse raw ∧ (listed raw info.slotsInEpoch).length = info.slotsInEpoch ∧
      ¬ (listed raw info.slotsInEpoch).Nodup) := by
  have hlt : ∀ i ∈ listed raw info.slotsInEpoch, i < info.slotsInEpoch := fun i hi =>
    (mem_listed.mp hi).1
  constructor
  -- an index listed twice makes up for one that is not listed, and the check counts only
  · rintro h ⟨hparses, hlength, hrepeated⟩
    have hpos : 0 < info.slotsInEpoch := by
      rw [← hlength]
      refine List.length_pos_iff.mpr fun hnil => hrepeated ?_
      rw [hnil]
      exact List.nodup_nil
    have hrefresh := refresh_of_ok (epochOf_eq_ok_iff.mpr ⟨hparses, hlength, hpos, rfl⟩) none
    obtain ⟨e, -, -, -, -, hwhole⟩ := h.whole none (by rw [hrefresh])
    refine hrepeated ((nodup_iff_forall_mem hlt hlength).mpr fun i hi => ?_)
    obtain ⟨entry, hentry, hmem, -⟩ := hwhole i hi
    exact mem_listed.mpr ⟨hi, entry, hentry, hmem⟩
  · intro h
    have hcovers : ∀ {e}, epochOf parse info raw = .ok e → Parses parse raw ∧
        e = ⟨info.epoch, info.firstSlot, placeAll (List.replicate info.slotsInEpoch none)
          (writesOf parse raw)⟩ ∧ ∀ i < info.slotsInEpoch, ∃ entry ∈ raw, i ∈ entry.2 := by
      intro e he
      obtain ⟨hparses, hlength, -, rfl⟩ := epochOf_eq_ok_iff.mp he
      -- as many different indices below the number of slots as there are slots are all of them
      have hnodup : (listed raw info.slotsInEpoch).Nodup := by
        by_contra hrepeated
        exact h ⟨hparses, hlength, hrepeated⟩
      exact ⟨hparses, rfl, fun i hi =>
        (mem_listed.mp ((nodup_iff_forall_mem hlt hlength).mp hnodup i hi)).2⟩
    refine ⟨fun held hok => ?_, fun held e => refresh_of_error (.ok info) (.ok raw) held,
      fun held hok raw' hperm => ?_⟩
    · obtain ⟨e, he⟩ := exists_epochOf hok
      obtain ⟨hparses, rfl, hlisted⟩ := hcovers he
      refine ⟨_, congrArg Prod.fst (refresh_of_ok he held), rfl, rfl, by simp, fun i hi => ?_⟩
      obtain ⟨pubkey, hwrite⟩ := exists_mem_writesOf hparses (hlisted i hi)
      have hlength : i < (List.replicate info.slotsInEpoch (none : Option Pubkey)).length := by
        rwa [List.length_replicate]
      obtain ⟨leader, hleader⟩ := isSome_placeAll_of_mem hlength hwrite
      rcases mem_of_getElem?_placeAll hleader with hempty | hmem
      · rw [List.getElem?_replicate, if_pos hi] at hempty
        cases hempty
      · obtain ⟨entry, hentry, hi', hparse⟩ := Deshred.mem_writesOf.mp hmem
        exact ⟨entry, hentry, hi', leader, hparse, hleader⟩
    · obtain ⟨e, he⟩ := exists_epochOf hok
      obtain ⟨hparses, -, hlisted⟩ := hcovers he
      have hparses' : Parses parse raw' := fun entry hentry =>
        hparses entry (hperm.mem_iff.mp hentry)
      refine (Deshred.exists_leadersBySlot_iff _ _).mpr ⟨hparses', fun i hi => ?_⟩
      obtain ⟨entry, hentry, hmem⟩ := hlisted i hi
      exact exists_mem_writesOf hparses' ⟨entry, hperm.mem_iff.mpr hentry, hmem⟩

/-- The address of 32 zeros, and one of 31 zeros and a one, in base 58. -/
def plainParse (text : String) : Option Pubkey :=
  if text = "11111111111111111111111111111111" then some (Vector.replicate 32 0)
  else if text = "11111111111111111111111111111112" then
    some ((Vector.replicate 32 0).set 31 1)
  else none

/-- An epoch of three slots. -/
def threeSlots : EpochInfo := ⟨10, 1, 3, 7⟩

/-- A leader that lists its slot twice, and nobody for the last one. -/
def repeatedIndex : List (String × List ℕ) :=
  [("11111111111111111111111111111111", [0, 0]), ("11111111111111111111111111111112", [1])]

/-- Such an answer is installed, with a gap. -/
theorem not_installsWhole_repeatedIndex :
    ¬ InstallsWhole plainParse threeSlots repeatedIndex := by
  intro h
  have hok : (LeaderSchedule.refresh plainParse (.ok threeSlots) (.ok repeatedIndex) none).2 =
      .ok () := by decide
  obtain ⟨leaders, hleaders⟩ := h.agrees none hok _ (List.Perm.refl _)
  have hgap : leadersBySlot plainParse repeatedIndex threeSlots.firstSlot threeSlots.slotsInEpoch =
      .error (.incomplete 9 2 3) := by decide
  rw [hgap] at hleaders
  cases hleaders

end ShredTools.Audit
