import Mathlib.Data.List.Nodup
import Mathlib.Data.List.Perm.Basic
import Mathlib.Logic.Relation
import Mathlib.Tactic.Ring
import ShredTools.Audit.VerifiedShred

/-!
# The account of a window

What the filter audit promises about the sampled slots of one window, without the code: a cursor
walks over multiples of the sample distance, every slot that it leaves is either passed over or
handed out as a task, and every task is settled once.  `Account` has the books of one window,
`Moves` what can be done to them, and `Balanced` is what the moves preserve: the steps of the cursor
are the slots counted and the tasks in flight.

`SlotLedger` is what a window knows of itself, its counts and its cursor; the lists of the account
are what was done.  `CountsAll` links them while the cursor is placed, and says that nothing is
counted before.  `InOrder` holds while the window is there, and when the window is emitted, what is
still in flight settles without it.  As any number of moves keeps the balance
(`Balanced.reflTransGen`), a step of the program may be several moves.
-/

namespace ShredTools.Audit

/-- The counts of a window, with its cursor. -/
structure SlotLedger where
  /-- The cursor, once it is placed. -/
  nextCheck : Option ℕ
  /-- The tasks in flight. -/
  inFlight : ℕ
  /-- The slots compared with a block. -/
  slotsChecked : ℕ
  /-- The slots without a block. -/
  slotsSkipped : ℕ
  /-- The slots that were not compared. -/
  slotsUnchecked : ℕ

namespace SlotLedger

/-- The ledger of a new window. -/
def new : SlotLedger := ⟨none, 0, 0, 0, 0⟩

/-- The slots counted so far. -/
def counted (l : SlotLedger) : ℕ := l.slotsChecked + l.slotsSkipped + l.slotsUnchecked

/-- The ledger when the window is emitted: what is in flight counts as unchecked. -/
def finished (l : SlotLedger) : SlotLedger :=
  { l with slotsUnchecked := l.slotsUnchecked + l.inFlight }

/-- The cursor moves on from `next`: it passes over some slots, and the slots after them are handed
out. -/
def advance (n next passed handed : ℕ) (l : SlotLedger) : SlotLedger :=
  { l with
    nextCheck := some (next + n * (passed + handed))
    inFlight := l.inFlight + handed
    slotsUnchecked := l.slotsUnchecked + passed }

/-- One task ends, and is counted. -/
structure Settles (l l' : SlotLedger) : Prop where
  /-- The cursor stays. -/
  nextCheck : l'.nextCheck = l.nextCheck
  /-- One task less is in flight. -/
  inFlight : l'.inFlight = l.inFlight - 1
  /-- One slot more is counted. -/
  counted : l'.counted = l.counted + 1

end SlotLedger

/-- The books of one window. -/
structure Account where
  /-- The ledger, while the window is there. -/
  ledger : Option SlotLedger
  /-- The slots whose tasks wait. -/
  waiting : List ℕ
  /-- Where the cursor was first placed. -/
  placed : List ℕ
  /-- The slots handed out, in order. -/
  handed : List ℕ
  /-- The slots whose tasks were settled, in order. -/
  settled : List ℕ
  /-- The ledgers with which the window was emitted. -/
  emitted : List SlotLedger

namespace Account

/-- The books of a window that is not yet opened. -/
def blank : Account := ⟨none, [], [], [], [], []⟩

/-- The books of a window when it is opened. -/
def opened : Account := { blank with ledger := some SlotLedger.new }

/-- What can be done to the books of a window. -/
inductive Moves (n : ℕ) : Account → Account → Prop
  /-- The cursor moves on. -/
  | advance {a : Account} {l : SlotLedger} {next : ℕ} (passed handed : ℕ)
      (hledger : a.ledger = some l) (hnext : l.nextCheck = some next)
      (hsmall : l.inFlight + handed < u32Size) :
      Moves n a
        { a with
          ledger := some (l.advance n next passed handed)
          waiting := List.range' (next + n * passed) handed n ++ a.waiting
          handed := a.handed ++ List.range' (next + n * passed) handed n }
  /-- The cursor is placed, and moves on. -/
  | place {a : Account} {l : SlotLedger} {next : ℕ} (passed handed : ℕ)
      (hledger : a.ledger = some l) (hnext : l.nextCheck = none) (hdvd : n ∣ next)
      (hsmall : l.inFlight + handed < u32Size) :
      Moves n a
        { a with
          ledger := some (l.advance n next passed handed)
          waiting := List.range' (next + n * passed) handed n ++ a.waiting
          placed := a.placed ++ [next]
          handed := a.handed ++ List.range' (next + n * passed) handed n }
  /-- A task of the window is settled. -/
  | settle {a : Account} {l l' : SlotLedger} {slot : ℕ} {rest : List ℕ}
      (hledger : a.ledger = some l) (hwaiting : a.waiting = slot :: rest)
      (hsettles : l.Settles l') :
      Moves n a
        { a with ledger := some l', waiting := rest, settled := a.settled ++ [slot] }
  /-- A task is settled after the window is gone. -/
  | settleGone {a : Account} {slot : ℕ} {rest : List ℕ} (hledger : a.ledger = none)
      (hwaiting : a.waiting = slot :: rest) :
      Moves n a { a with waiting := rest, settled := a.settled ++ [slot] }
  /-- The tasks wait in another order. -/
  | reorder {a : Account} {waiting : List ℕ} (hperm : a.waiting.Perm waiting) :
      Moves n a { a with waiting := waiting }
  /-- The window is emitted. -/
  | emit {a : Account} {l : SlotLedger} (hledger : a.ledger = some l) :
      Moves n a { a with ledger := none, emitted := a.emitted ++ [l.finished] }

/-- What is said of an emitted ledger: all sampled slots between the first and the last place of
the cursor are counted. -/
def CountsAll (n : ℕ) (placed : List ℕ) (l : SlotLedger) : Prop :=
  match l.nextCheck with
  | some next => ∃ initial, placed = [initial] ∧ next = initial + n * l.counted
  | none => placed = [] ∧ l.counted = 0

/-- With a cursor, the slots counted are those that it has left behind. -/
theorem countsAll_of_some {n next : ℕ} {placed : List ℕ} {l : SlotLedger}
    (h : l.nextCheck = some next) :
    CountsAll n placed l ↔ ∃ initial, placed = [initial] ∧ next = initial + n * l.counted := by
  unfold CountsAll
  rw [h]

/-- Without a cursor, none was placed and no slot is counted. -/
theorem countsAll_of_none {n : ℕ} {placed : List ℕ} {l : SlotLedger} (h : l.nextCheck = none) :
    CountsAll n placed l ↔ placed = [] ∧ l.counted = 0 := by
  unfold CountsAll
  rw [h]

/-- The statement depends on the cursor and the sum of the counts only. -/
theorem CountsAll.congr {n : ℕ} {placed : List ℕ} {l l' : SlotLedger} (h : CountsAll n placed l)
    (hnext : l'.nextCheck = l.nextCheck) (hcounted : l'.counted = l.counted) :
    CountsAll n placed l' := by
  unfold CountsAll at h ⊢
  rw [hnext, hcounted]
  exact h

/-- The books of a window are in order while the window is there. -/
structure InOrder (n : ℕ) (a : Account) (l : SlotLedger) : Prop where
  /-- The tasks in flight are those that wait. -/
  inFlight : l.inFlight = a.waiting.length
  /-- The counts fit in 32 bits. -/
  small : l.inFlight < u32Size
  /-- What is counted or in flight is what the cursor has left behind. -/
  counts : CountsAll n a.placed l.finished
  /-- The cursor stands on a sampled slot, ahead of what was handed out. -/
  ahead : ∀ next ∈ l.nextCheck, n ∣ next ∧ ∀ slot ∈ a.handed, slot < next
  /-- Before the cursor is placed nothing is handed out. -/
  unplaced : l.nextCheck = none → a.handed = []

/-- The books of a window balance. -/
structure Balanced (n : ℕ) (a : Account) : Prop where
  /-- No slot is handed out twice. -/
  increasing : a.handed.Pairwise (· < ·)
  /-- Only sampled slots are handed out. -/
  sampled : ∀ slot ∈ a.handed, n ∣ slot
  /-- Every task was settled, or waits. -/
  settled : a.handed.Perm (a.settled ++ a.waiting)
  /-- The ledger is in order. -/
  ledger : ∀ l ∈ a.ledger, a.InOrder n l
  /-- What was emitted counts all slots. -/
  emitted : ∀ l ∈ a.emitted, CountsAll n a.placed l
  /-- An emitted window is gone. -/
  gone : a.emitted ≠ [] → a.ledger = none

variable {n : ℕ} {a b : Account}

/-- The books of a window that is not yet opened balance. -/
theorem balanced_blank : blank.Balanced n where
  increasing := List.Pairwise.nil
  sampled slot h := absurd h List.not_mem_nil
  settled := List.Perm.nil
  ledger _ h := by cases h
  emitted _ h := absurd h List.not_mem_nil
  gone h := absurd rfl h

/-- The books of a window that was just opened are balanced. -/
theorem balanced_opened : opened.Balanced n where
  increasing := List.Pairwise.nil
  sampled slot h := absurd h List.not_mem_nil
  settled := List.Perm.nil
  ledger l h := by
    rw [← Option.mem_some_iff.mp h]
    exact
      { inFlight := rfl
        small := by decide
        counts := ⟨rfl, rfl⟩
        ahead := fun _ h => by cases h
        unplaced := fun _ => rfl }
  emitted _ h := absurd h List.not_mem_nil
  gone h := absurd rfl h

/-- A blank account stays blank until the window is opened. -/
theorem Moves.blank (h : Moves n a b) (hblank : a = blank) : b = blank := by
  subst hblank
  cases h with
  | advance passed handed hledger => cases hledger
  | place passed handed hledger => cases hledger
  | settle hledger => cases hledger
  | settleGone hledger hwaiting => cases hwaiting
  | reorder hperm =>
    rw [List.nil_perm.mp hperm]
    rfl
  | emit hledger => cases hledger

/-- The progression that is handed out next keeps the slots increasing, and sampled. -/
lemma Balanced.handed_append (h : a.Balanced n) (hn : 0 < n) {next passed handed : ℕ}
    (hdvd : n ∣ next) (hahead : ∀ slot ∈ a.handed, slot < next) :
    (a.handed ++ List.range' (next + n * passed) handed n).Pairwise (· < ·) ∧
      ∀ slot ∈ a.handed ++ List.range' (next + n * passed) handed n, n ∣ slot := by
  constructor
  · refine List.pairwise_append.mpr ⟨h.increasing, List.pairwise_lt_range' n hn, ?_⟩
    intro x hx y hy
    obtain ⟨i, -, rfl⟩ := List.mem_range'.mp hy
    have := hahead x hx
    omega
  · intro slot hslot
    rcases List.mem_append.mp hslot with hslot | hslot
    · exact h.sampled slot hslot
    · obtain ⟨i, -, rfl⟩ := List.mem_range'.mp hslot
      exact Nat.dvd_add (Nat.dvd_add hdvd (Nat.dvd_mul_right n _)) (Nat.dvd_mul_right n _)

/-- All slots handed out lie behind the cursor. -/
lemma lt_of_mem_handed_append {next passed handed slot : ℕ} (hn : 0 < n)
    (hahead : ∀ slot ∈ a.handed, slot < next)
    (hslot : slot ∈ a.handed ++ List.range' (next + n * passed) handed n) :
    slot < next + n * (passed + handed) := by
  rcases List.mem_append.mp hslot with hslot | hslot
  · have := hahead slot hslot
    omega
  · obtain ⟨i, hi, rfl⟩ := List.mem_range'.mp hslot
    have : n * i < n * handed := Nat.mul_lt_mul_of_pos_left hi hn
    rw [Nat.mul_add]
    omega

/-- Tasks that are handed out wait. -/
lemma Balanced.settled_append (h : a.Balanced n) (slots : List ℕ) :
    (a.handed ++ slots).Perm (a.settled ++ (slots ++ a.waiting)) := by
  have h1 : (a.handed ++ slots).Perm (a.settled ++ a.waiting ++ slots) :=
    h.settled.append_right slots
  rw [List.append_assoc] at h1
  exact h1.trans (List.perm_append_comm.append_left a.settled)

/-- A finished ledger counts what is in flight. -/
theorem counted_finished (l : SlotLedger) : l.finished.counted = l.counted + l.inFlight := by
  unfold SlotLedger.finished SlotLedger.counted
  dsimp only
  omega

/-- The steps of the cursor are counted, or in flight. -/
lemma counted_finished_advance (l : SlotLedger) (next passed handed : ℕ) :
    (l.advance n next passed handed).finished.counted = l.finished.counted + (passed + handed) := by
  unfold SlotLedger.advance SlotLedger.finished SlotLedger.counted
  dsimp only
  omega

/-- A window that is there was not emitted. -/
theorem Balanced.emitted_eq_nil (h : a.Balanced n) {l : SlotLedger} (hledger : a.ledger = some l) :
    a.emitted = [] := by
  by_contra hne
  have hgone := h.gone hne
  rw [hledger] at hgone
  cases hgone

/-- Books that balance still do when the cursor moves on from `next`, if its place before accounts
for all slots so far. -/
theorem Balanced.advance (h : a.Balanced n) (hn : 0 < n) {l : SlotLedger} {placed : List ℕ}
    {initial next passed handed : ℕ} (hledger : a.ledger = some l) (hdvd : n ∣ next)
    (hahead : ∀ slot ∈ a.handed, slot < next) (hplaced : placed = [initial])
    (hcounts : next = initial + n * l.finished.counted)
    (hsmall : l.inFlight + handed < u32Size) :
    Balanced n
      { a with
        ledger := some (l.advance n next passed handed)
        waiting := List.range' (next + n * passed) handed n ++ a.waiting
        placed := placed
        handed := a.handed ++ List.range' (next + n * passed) handed n } where
  increasing := (h.handed_append hn hdvd hahead).1
  sampled := (h.handed_append hn hdvd hahead).2
  settled := h.settled_append _
  ledger l' hl' := by
    rw [← Option.mem_some_iff.mp hl']
    have hinFlight : l.inFlight = a.waiting.length := (h.ledger l hledger).inFlight
    refine ⟨?_, hsmall, ⟨initial, hplaced, ?_⟩, ?_, fun hnone => by cases hnone⟩
    · dsimp only [SlotLedger.advance]
      rw [List.length_append, List.length_range', hinFlight, Nat.add_comm]
    · rw [counted_finished_advance, Nat.mul_add n l.finished.counted, ← Nat.add_assoc, ← hcounts]
    · intro next' hnext'
      rw [← Option.mem_some_iff.mp hnext']
      exact ⟨Nat.dvd_add hdvd (Nat.dvd_mul_right n _), fun slot hslot =>
        lt_of_mem_handed_append hn hahead hslot⟩
  emitted l' hl' := by
    rw [h.emitted_eq_nil hledger] at hl'
    cases hl'
  gone hne := absurd (h.emitted_eq_nil hledger) hne

/-- A task that waits and is settled was still handed out. -/
lemma Balanced.settled_settle (h : a.Balanced n) {slot : ℕ} {rest : List ℕ}
    (hwaiting : a.waiting = slot :: rest) : a.handed.Perm (a.settled ++ [slot] ++ rest) := by
  rw [List.append_assoc, List.singleton_append, ← hwaiting]
  exact h.settled

/-- Settling a task that waits keeps the ledger in order. -/
theorem InOrder.settle {l l' : SlotLedger} (h : a.InOrder n l) {slot : ℕ} {rest : List ℕ}
    (hwaiting : a.waiting = slot :: rest) (hsettles : l.Settles l') (ledger : Option SlotLedger)
    (settled : List ℕ) :
    InOrder n { a with ledger := ledger, waiting := rest, settled := settled } l' := by
  have hinFlight : l.inFlight = rest.length + 1 := by
    rw [h.inFlight, hwaiting, List.length_cons]
  -- the task was in flight, and is now counted
  have hsum : l'.finished.counted = l.finished.counted := by
    rw [counted_finished, counted_finished, hsettles.counted, hsettles.inFlight]
    omega
  refine ⟨?_, ?_, h.counts.congr hsettles.nextCheck hsum, ?_, ?_⟩
  · rw [hsettles.inFlight, hinFlight]
    rfl
  · rw [hsettles.inFlight]
    have := h.small
    omega
  · rw [hsettles.nextCheck]
    exact h.ahead
  · rw [hsettles.nextCheck]
    exact h.unplaced

/-- **Every move keeps the books balanced.** -/
theorem Balanced.moves (h : a.Balanced n) (hn : 0 < n) (hmove : Moves n a b) : b.Balanced n := by
  cases hmove with
  | @advance l next passed handed hledger hnext hsmall =>
    have horder := h.ledger l hledger
    obtain ⟨hdvd, hahead⟩ := horder.ahead next hnext
    obtain ⟨initial, hplaced, hsum⟩ := (countsAll_of_some (l := l.finished) hnext).mp horder.counts
    exact h.advance hn hledger hdvd hahead hplaced hsum hsmall
  | @place l next passed handed hledger hnext hdvd hsmall =>
    have horder := h.ledger l hledger
    have hhanded : a.handed = [] := horder.unplaced hnext
    obtain ⟨hplaced, hzero⟩ := (countsAll_of_none (l := l.finished) hnext).mp horder.counts
    have hfirst : a.placed ++ [next] = [next] := by rw [hplaced, List.nil_append]
    refine h.advance hn hledger hdvd ?_ hfirst ?_ hsmall
    · rw [hhanded]
      exact fun slot hslot => absurd hslot List.not_mem_nil
    · rw [hzero, Nat.mul_zero, Nat.add_zero]
  | @settle l l' slot rest hledger hwaiting hsettles =>
    exact
      { increasing := h.increasing
        sampled := h.sampled
        settled := h.settled_settle hwaiting
        ledger := fun l'' hl'' => by
          rw [← Option.mem_some_iff.mp hl'']
          exact (h.ledger l hledger).settle hwaiting hsettles _ _
        emitted := h.emitted
        gone := fun hne => absurd (h.emitted_eq_nil hledger) hne }
  -- the window was emitted before its slot came back: it is settled without a ledger
  | settleGone hledger hwaiting =>
    refine
      { increasing := h.increasing
        sampled := h.sampled
        settled := h.settled_settle hwaiting
        ledger := fun l hl => ?_
        emitted := h.emitted
        gone := h.gone }
    dsimp only at hl
    rw [hledger] at hl
    cases hl
  | reorder hperm =>
    refine
      { increasing := h.increasing
        sampled := h.sampled
        settled := h.settled.trans (hperm.append_left a.settled)
        ledger := fun l hl => ?_
        emitted := h.emitted
        gone := h.gone }
    have horder := h.ledger l hl
    exact
      { inFlight := horder.inFlight.trans hperm.length_eq
        small := horder.small
        counts := horder.counts
        ahead := horder.ahead
        unplaced := horder.unplaced }
  | @emit l hledger =>
    refine
      { increasing := h.increasing
        sampled := h.sampled
        settled := h.settled
        ledger := fun _ hl => by cases hl
        emitted := fun l' hl' => ?_
        gone := fun _ => rfl }
    rw [h.emitted_eq_nil hledger, List.nil_append, List.mem_singleton] at hl'
    rw [hl']
    exact (h.ledger l hledger).counts

/-- Books that balance still do after any number of moves. -/
theorem Balanced.reflTransGen (h : a.Balanced n) (hn : 0 < n)
    (hmoves : Relation.ReflTransGen (Moves n) a b) : b.Balanced n := by
  induction hmoves with
  | refl => exact h
  | tail _ hmove ih => exact ih.moves hn hmove

/-- A blank account stays blank under any number of moves. -/
theorem eq_blank_of_reflTransGen (hmoves : Relation.ReflTransGen (Moves n) a b)
    (hblank : a = blank) : b = blank := by
  induction hmoves with
  | refl => exact hblank
  | tail _ hmove ih => exact hmove.blank ih

end Account

end ShredTools.Audit
