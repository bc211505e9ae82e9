import Mathlib.Tactic.Common
import ShredTools.Audit.Aggregator
import ShredTools.Library.Grouping
import ShredTools.Library.Selection

/-!
# Live statistics of the races

The rows that one harvest finalizes are grouped by set, and each set is folded into counters of the
providers (`SetColumn.of_foldSet`).  A set that at least two providers delivered valid and decoded
is a race between them, which is a race more for each of its rows and has a winner
(`raceScores_gain`).

The hash map hands out the groups in no particular order, so a batch of rows carries the order in
which it does.  The mean and the maximum of the delays are 64-bit floats, which nothing here depends
on: their type is a parameter, with `micros` as the conversion of a difference of nanoseconds to
microseconds.  Counters of 64 bits are natural numbers.
-/

namespace ShredTools.Audit

/-- The key of a set, over all providers. -/
def SetRow.setId (r : SetRow) : ℕ × ℕ := (r.slot, r.fecSetIndex)

/-- `ProviderLive` -/
structure ProviderLive (F : Type) where
  /-- Sets that the provider delivered something of. -/
  present : ℕ
  /-- Sets that it delivered valid and decoded. -/
  valid : ℕ
  /-- Races that it took part in. -/
  races : ℕ
  /-- Races that it won; a tie is a win for each provider tied. -/
  wins : ℕ
  /-- The sum of its delays behind the winners, in microseconds. -/
  deltaSumUs : F
  /-- The number of these delays. -/
  deltaN : ℕ
  /-- The greatest of them. -/
  deltaMaxUs : F
  deriving DecidableEq

/-- `LiveStats` -/
structure LiveStats (F : Type) where
  /-- The counters of each provider seen. -/
  perProvider : AList fun _ : ℕ => ProviderLive F
  /-- The number of sets. -/
  totalSets : ℕ
  /-- The number of races. -/
  contestedSets : ℕ

/-- The rows of one call, with the order in which the hash map hands out their groups. -/
structure RowBatch (providers : ℕ) where
  /-- The rows. -/
  rows : List SetRow
  /-- Their groups by set. -/
  sets : List (List SetRow)
  /-- These are the groups, in some order. -/
  sets_perm : sets.Perm ((rows.groups SetRow.setId).entries.map Sigma.snd)
  /-- The providers are known ones. -/
  provider_lt : ∀ r ∈ rows, r.provider < providers

/-- The rows of a set that are valid and decoded, as providers and times. -/
def decodedRows (set : List SetRow) : List (ℕ × ℤ) :=
  (set.filter SetRow.isValid).filterMap fun r => r.decodeNs.map fun d => (r.provider, d)

/-- The time of the winner. -/
def winNs (decoded : List (ℕ × ℤ)) : ℤ := (decoded.map Prod.snd).min?.getD 0

namespace ProviderLive

variable {F : Type}

/-- `ProviderLive::default` -/
def default [Zero F] : ProviderLive F := ⟨0, 0, 0, 0, 0, 0, 0⟩

/-- One more set that the provider is in. -/
def addPresent (l : ProviderLive F) : ProviderLive F := { l with present := l.present + 1 }

/-- One more set that it delivered valid and decoded. -/
def addValid (l : ProviderLive F) : ProviderLive F := { l with valid := l.valid + 1 }

/-- One more race, decoded at `d`. -/
def addRace [Add F] [Max F] (micros : ℤ → F) (win d : ℤ) (l : ProviderLive F) : ProviderLive F :=
  { l with
    races := l.races + 1
    wins := if d = win then l.wins + 1 else l.wins
    deltaSumUs := l.deltaSumUs + micros (d - win)
    deltaN := l.deltaN + 1
    deltaMaxUs := max l.deltaMaxUs (micros (d - win)) }

end ProviderLive

namespace LiveStats

variable {F : Type} [Zero F]

/-- `LiveStats::new` -/
def new : LiveStats F := ⟨∅, 0, 0⟩

/-- `LiveStats::provider` -/
def provider (s : LiveStats F) (id : ℕ) : ProviderLive F :=
  (s.perProvider.lookup id).getD .default

/-- Update the counters of a provider. -/
def update (id : ℕ) (f : ProviderLive F → ProviderLive F) (s : LiveStats F) : LiveStats F :=
  { s with perProvider := s.perProvider.upsert id .default f }

/-- The first part of `fold_set`, which counts the deliveries of a set. -/
def deliver (set : List SetRow) (s : LiveStats F) : LiveStats F :=
  let s := { s with totalSets := s.totalSets + 1 }
  let s := set.foldl (fun s r => s.update r.provider .addPresent) s
  (decodedRows set).foldl (fun s e => s.update e.1 .addValid) s

variable [Add F] [Max F] (micros : ℤ → F)

/-- The second part of `fold_set`, which scores a race. -/
def race (decoded : List (ℕ × ℤ)) (s : LiveStats F) : LiveStats F :=
  decoded.foldl (fun s e => s.update e.1 (.addRace micros (winNs decoded) e.2))
    { s with contestedSets := s.contestedSets + 1 }

/-- `LiveStats::fold_set`; a solo delivery is not a race. -/
def foldSet (s : LiveStats F) (set : List SetRow) : LiveStats F :=
  if (decodedRows set).length < 2 then s.deliver set
  else (s.deliver set).race micros (decodedRows set)

/-- `LiveStats::ingest` -/
def ingest {providers : ℕ} (batch : RowBatch providers) (s : LiveStats F) : LiveStats F :=
  batch.sets.foldl (foldSet micros) s

end LiveStats

/-- The counters of a provider that a set adds to. -/
inductive SetColumn
  | setsTotal
  | setsPresent
  | setsValid
  | races
  | wins
  | behindN

namespace SetColumn

/-- The value of a counter for a provider. -/
def of {F : Type} [Zero F] (s : LiveStats F) (id : ℕ) : SetColumn → ℕ
  | setsTotal => s.totalSets
  | setsPresent => (s.provider id).present
  | setsValid => (s.provider id).valid
  | races => (s.provider id).races
  | wins => (s.provider id).wins
  | behindN => (s.provider id).deltaN

/-- What a set adds to a counter of a provider. -/
def gain (id : ℕ) (set : List SetRow) : SetColumn → ℕ
  | setsTotal => 1
  | setsPresent => set.countP fun r => r.provider = id
  | setsValid => (decodedRows set).countP fun e => e.1 = id
  | races | behindN =>
    if (decodedRows set).length < 2 then 0 else (decodedRows set).countP fun e => e.1 = id
  | wins =>
    if (decodedRows set).length < 2 then 0
    else (decodedRows set).countP fun e => e.1 = id ∧ e.2 = winNs (decodedRows set)

end SetColumn

namespace LiveStats

variable {F : Type} [Zero F]

@[simp] lemma provider_update (s : LiveStats F) (id : ℕ) (f : ProviderLive F → ProviderLive F)
    (id' : ℕ) :
    (s.update id f).provider id' = if id' = id then f (s.provider id) else s.provider id' := by
  unfold provider update
  dsimp only
  rw [AList.lookup_upsert]
  split <;> rfl

section Updates

variable {γ : Type} (who : γ → ℕ) (f : γ → ProviderLive F → ProviderLive F)

/-- Updates that each may add one to a counter of its provider add as many as do so. -/
lemma provider_foldl (counter : ProviderLive F → ℕ) (adds : γ → Prop) [DecidablePred adds]
    (hf : ∀ e l, counter (f e l) = counter l + if adds e then 1 else 0) (es : List γ)
    (s : LiveStats F) (id : ℕ) :
    counter ((es.foldl (fun s e => s.update (who e) (f e)) s).provider id) =
      counter (s.provider id) + es.countP fun e => who e = id ∧ adds e := by
  induction es generalizing s with
  | nil => rfl
  | cons e es ih =>
    rw [List.foldl_cons, ih, provider_update, List.countP_cons]
    by_cases hid : id = who e
    · subst hid
      rw [if_pos rfl, hf]
      by_cases he : adds e
      · simp [he]
        omega
      · simp [he]
    · have hid' : ¬ who e = id := fun h => hid h.symm
      rw [if_neg hid]
      simp [hid']

/-- Updates that leave a counter alone do so together. -/
lemma provider_foldl_frame (counter : ProviderLive F → ℕ)
    (hf : ∀ e l, counter (f e l) = counter l) (es : List γ) (s : LiveStats F) (id : ℕ) :
    counter ((es.foldl (fun s e => s.update (who e) (f e)) s).provider id) =
      counter (s.provider id) := by
  have h := provider_foldl who f counter (fun _ => False)
    (fun e l => by rw [hf, if_neg not_false, Nat.add_zero]) es s id
  simpa using h

/-- Updates of providers do not touch the number of sets. -/
lemma totalSets_foldl (es : List γ) (s : LiveStats F) :
    (es.foldl (fun s e => s.update (who e) (f e)) s).totalSets = s.totalSets := by
  induction es generalizing s with
  | nil => rfl
  | cons e es ih =>
    rw [List.foldl_cons, ih]
    rfl

end Updates

end LiveStats

namespace SetColumn

variable {F : Type} [Zero F]

/-- What the deliveries of a set add to each counter. -/
lemma of_deliver (s : LiveStats F) (set : List SetRow) (id : ℕ) (c : SetColumn) :
    c.of (s.deliver set) id = c.of s id + match c with
      | setsTotal => 1
      | setsPresent => set.countP fun r => r.provider = id
      | setsValid => (decodedRows set).countP fun e => e.1 = id
      | _ => 0 := by
  have hpresent := fun counter hf => LiveStats.provider_foldl_frame SetRow.provider
    (fun _ => .addPresent) counter hf set { s with totalSets := s.totalSets + 1 } id
  have hvalid := fun counter hf (mid : LiveStats F) => LiveStats.provider_foldl_frame Prod.fst
    (fun _ => .addValid) counter hf (decodedRows set) mid id
  unfold LiveStats.deliver
  cases c with
  | setsTotal => exact (LiveStats.totalSets_foldl _ _ _ _).trans (LiveStats.totalSets_foldl _ _ _ _)
  | setsPresent =>
    refine (hvalid ProviderLive.present (fun _ _ => rfl) _).trans ?_
    have h := LiveStats.provider_foldl SetRow.provider (fun _ => .addPresent) ProviderLive.present
      (fun _ => True) (fun _ _ => rfl) set { s with totalSets := s.totalSets + 1 } id
    simp only [and_true] at h
    exact h
  | setsValid =>
    have h := LiveStats.provider_foldl Prod.fst (fun _ => .addValid) ProviderLive.valid
      (fun _ => True) (fun _ _ => rfl) (decodedRows set)
      (set.foldl (fun s r => s.update r.provider .addPresent)
        { s with totalSets := s.totalSets + 1 }) id
    rw [hpresent ProviderLive.valid fun _ _ => rfl] at h
    simp only [and_true] at h
    exact h
  | races =>
    exact (hvalid ProviderLive.races (fun _ _ => rfl) _).trans
      (hpresent ProviderLive.races fun _ _ => rfl)
  | wins =>
    exact (hvalid ProviderLive.wins (fun _ _ => rfl) _).trans
      (hpresent ProviderLive.wins fun _ _ => rfl)
  | behindN =>
    exact (hvalid ProviderLive.deltaN (fun _ _ => rfl) _).trans
      (hpresent ProviderLive.deltaN fun _ _ => rfl)

variable [Add F] [Max F] {micros : ℤ → F}

/-- What a race adds to each counter. -/
lemma of_race (s : LiveStats F) (decoded : List (ℕ × ℤ)) (id : ℕ) (c : SetColumn) :
    c.of (s.race micros decoded) id = c.of s id + match c with
      | races | behindN => decoded.countP fun e => e.1 = id
      | wins => decoded.countP fun e => e.1 = id ∧ e.2 = winNs decoded
      | _ => 0 := by
  have hframe := fun counter hf => LiveStats.provider_foldl_frame Prod.fst
    (fun e => .addRace micros (winNs decoded) e.2) counter hf decoded
    { s with contestedSets := s.contestedSets + 1 } id
  have hcount := fun counter hf => LiveStats.provider_foldl Prod.fst
    (fun e => .addRace micros (winNs decoded) e.2) counter (fun _ => True) hf decoded
    { s with contestedSets := s.contestedSets + 1 } id
  simp only [and_true] at hcount
  unfold LiveStats.race
  cases c with
  | setsTotal => exact LiveStats.totalSets_foldl _ _ _ _
  | setsPresent => exact hframe ProviderLive.present fun _ _ => rfl
  | setsValid => exact hframe ProviderLive.valid fun _ _ => rfl
  | races => exact hcount ProviderLive.races fun _ _ => rfl
  | behindN => exact hcount ProviderLive.deltaN fun _ _ => rfl
  | wins =>
    refine LiveStats.provider_foldl Prod.fst (fun e => .addRace micros (winNs decoded) e.2)
      ProviderLive.wins (fun e => e.2 = winNs decoded) (fun e l => ?_) decoded _ id
    unfold ProviderLive.addRace
    split <;> rfl

variable (micros) in
/-- **What folding a set adds to each counter.** -/
theorem of_foldSet (s : LiveStats F) (set : List SetRow) (id : ℕ) (c : SetColumn) :
    c.of (s.foldSet micros set) id = c.of s id + c.gain id set := by
  unfold LiveStats.foldSet
  split
  next hsolo =>
    rw [of_deliver]
    cases c <;> simp [gain, hsolo]
  next hrace =>
    rw [of_race, of_deliver]
    cases c <;> simp [gain, hrace]

/-- The order of the rows in a set does not matter. -/
theorem gain_perm {set set' : List SetRow} (h : set.Perm set') (id : ℕ) (c : SetColumn) :
    c.gain id set = c.gain id set' := by
  have hdecoded : (decodedRows set).Perm (decodedRows set') := (h.filter _).filterMap _
  have hwin : winNs (decodedRows set) = winNs (decodedRows set') := by
    unfold winNs
    rw [(hdecoded.map Prod.snd).min?_eq]
  unfold gain
  cases c with
  | setsTotal => rfl
  | setsPresent => exact h.countP_eq _
  | setsValid => exact hdecoded.countP_eq _
  | races => rw [hdecoded.length_eq, hdecoded.countP_eq]
  | behindN => rw [hdecoded.length_eq, hdecoded.countP_eq]
  | wins =>
    dsimp only
    rw [hdecoded.length_eq, hwin, hdecoded.countP_eq]

/-- **What a batch of rows adds to each counter**, in whatever order its sets are folded. -/
theorem of_ingest {providers : ℕ} (batch : RowBatch providers) (s : LiveStats F) (id : ℕ)
    (c : SetColumn) :
    c.of (s.ingest micros batch) id =
      c.of s id + List.groupTotal SetRow.setId (fun set => c.gain id set) batch.rows := by
  have hfold : ∀ (sets : List (List SetRow)) (s : LiveStats F),
      c.of (sets.foldl (LiveStats.foldSet micros) s) id =
        c.of s id + (sets.map fun set => c.gain id set).sum := by
    intro sets
    induction sets with
    | nil => intro s; rfl
    | cons set sets ih =>
      intro s
      rw [List.foldl_cons, ih, of_foldSet, List.map_cons, List.sum_cons, Nat.add_assoc]
  unfold LiveStats.ingest
  rw [hfold, ← List.sum_groups, ((batch.sets_perm.map _).sum_eq), List.map_map]
  rfl

end SetColumn

/-! ### Races -/

/-- A row takes part in the race of its set if it is valid and decoded. -/
def SetRow.Contends (r : SetRow) : Prop := r.isValid = true ∧ r.decodeNs.isSome = true

instance (r : SetRow) : Decidable r.Contends := inferInstanceAs (Decidable (_ ∧ _))

/-- What a set adds to the races and wins of the providers, by what it adds to each counter. -/
structure RaceScores (set : List SetRow) (gain : ℕ → SetColumn → ℕ) : Prop where
  /-- With two rows or more that take part, each of these is one more race of its provider. -/
  races : ∀ id, gain id .races =
    if 2 ≤ set.countP (·.Contends) then set.countP fun r => r.Contends ∧ r.provider = id else 0
  /-- Then one of them wins. -/
  winner : 2 ≤ set.countP (·.Contends) → ∃ r ∈ set, r.Contends ∧ 0 < gain r.provider .wins
  /-- Otherwise nobody does. -/
  solo : set.countP (·.Contends) < 2 → ∀ id, gain id .wins = 0

/-- The rows that take part, counted as they are gathered. -/
lemma countP_decodedRows (set : List SetRow) (p : ℕ × ℤ → Prop) [DecidablePred p] :
    (decodedRows set).countP (fun e => p e) =
      set.countP fun r => r.isValid = true ∧ ∃ d ∈ r.decodeNs, p (r.provider, d) := by
  unfold decodedRows
  induction set with
  | nil => rfl
  | cons r set ih =>
    rw [List.countP_cons, ← ih]
    cases hvalid : r.isValid with
    | false =>
      rw [List.filter_cons_of_neg (by simp [hvalid])]
      simp
    | true =>
      rw [List.filter_cons_of_pos hvalid]
      cases hdecode : r.decodeNs with
      | none => simp [hdecode]
      | some d => simp [hdecode, List.countP_cons]

lemma length_decodedRows (set : List SetRow) :
    (decodedRows set).length = set.countP (·.Contends) := by
  have h := countP_decodedRows set fun _ => True
  simp only [decide_true, List.countP_true] at h
  rw [h]
  refine List.countP_congr fun r _ => ?_
  rw [decide_eq_true_iff, decide_eq_true_iff]
  unfold SetRow.Contends
  simp [Option.isSome_iff_exists]

lemma countP_provider_decodedRows (set : List SetRow) (id : ℕ) :
    ((decodedRows set).countP fun e => e.1 = id) =
      set.countP fun r => r.Contends ∧ r.provider = id := by
  rw [countP_decodedRows set fun e => e.1 = id]
  refine List.countP_congr fun r _ => ?_
  rw [decide_eq_true_iff, decide_eq_true_iff]
  unfold SetRow.Contends
  simp [Option.isSome_iff_exists, and_assoc]

/-- Some row has the time of the winner. -/
lemma exists_winner {decoded : List (ℕ × ℤ)} (h : decoded ≠ []) :
    ∃ e ∈ decoded, e.2 = winNs decoded := by
  have hne : decoded.map Prod.snd ≠ [] := mt List.map_eq_nil_iff.mp h
  obtain ⟨win, hwin⟩ := Option.ne_none_iff_exists'.mp (mt List.min?_eq_none_iff.mp hne)
  obtain ⟨e, he, hsnd⟩ := List.mem_map.mp (List.min?_mem hwin)
  refine ⟨e, he, ?_⟩
  unfold winNs
  rw [hwin]
  exact hsnd

/-- **A set is a race exactly if two rows or more take part.** -/
theorem raceScores_gain (set : List SetRow) : RaceScores set fun id c => c.gain id set where
  races id := by
    dsimp only [SetColumn.gain]
    rw [length_decodedRows, countP_provider_decodedRows]
    by_cases h : set.countP (·.Contends) < 2
    · rw [if_pos h, if_neg (Nat.not_le.mpr h)]
    · rw [if_neg h, if_pos (Nat.not_lt.mp h)]
  winner h := by
    have hlen : ¬ (decodedRows set).length < 2 := by
      rw [length_decodedRows]
      exact Nat.not_lt.mpr h
    have hne : decodedRows set ≠ [] := by
      intro hnil
      rw [hnil] at hlen
      exact hlen (by decide)
    obtain ⟨e, he, hwin⟩ := exists_winner hne
    have hcount : 0 < (decodedRows set).countP fun e' =>
        e'.1 = e.1 ∧ e'.2 = winNs (decodedRows set) :=
      List.countP_pos_iff.mpr ⟨e, he, by simp [hwin]⟩
    obtain ⟨r, hr, hdecoded⟩ := List.mem_filterMap.mp he
    obtain ⟨hmem, hvalid⟩ := List.mem_filter.mp hr
    obtain ⟨d, hd, heq⟩ := Option.map_eq_some_iff.mp hdecoded
    have hprovider : r.provider = e.1 := by rw [← heq]
    refine ⟨r, hmem, ⟨hvalid, by rw [hd]; rfl⟩, ?_⟩
    dsimp only [SetColumn.gain]
    rw [if_neg hlen, hprovider]
    exact hcount
  solo h id := by
    dsimp only [SetColumn.gain]
    rw [length_decodedRows, if_pos h]

end ShredTools.Audit
