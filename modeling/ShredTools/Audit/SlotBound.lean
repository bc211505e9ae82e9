import ShredTools.Audit.CheckedSlots
import ShredTools.Audit.WindowLife

/-!
# How far slots may go

A slot comes unchecked from a remote field: it raises the tip, opens and closes windows and is
delivered, and the filter audit adds to it and rounds it up.  `SlotsSafe` says of a call that none
of its operations on slots stops a debug build, and that it hands out no slot below the opening tip
of the window.

All calls of every run are safe exactly if the slots up to the highest one reported leave room below
the end of the numbers (`slots_safe_iff`).  A source that reports a slot near the end therefore
brings the audit down; the slots of the chain are far from it.
-/

namespace ShredTools.Audit

open CheckedWords

/-- The slots that a call learns are at most `highest`, and the lag is the configured one. -/
def AuditCall.Reports (lagSlots highest : ℕ) : AuditCall → Prop
  | .subscribed _ tip => tip ≤ highest
  | .close _ tip _ _ => tip ≤ highest
  | .onDelivery _ slot _ _ _ => slot ≤ highest
  | .takeReady lag tip => lag = lagSlots ∧ tip ≤ highest
  | .takeFinished tip _ _ _ => tip ≤ highest
  | _ => True

namespace FilterAudit

/-- A window is subscribed once: a connection opens its window and subscribes at its start. -/
def SubscribesOnce (a : FilterAudit) : AuditCall → Prop
  | .subscribed key _ => ∀ w, a.windows.lookup key = some w → w.subscribed = false
  | _ => True

/-- No operation of a call on slots stops a debug build.  The start is looked at by a delivery for a
sampled slot, by `take_ready`, and by `take_finished` for a closed window without tasks in
flight. -/
def NeverStops (a : FilterAudit) : AuditCall → Prop
  | .onDelivery key slot tx _ _ => ∀ w, a.windows.lookup key = some w →
    Window.Sampled a.sampleEvery a.skipVotes slot tx →
      (w.countDelivery slot).startSlotChecked.isSome = true
  | .takeReady lagSlots tip => ∀ key w, a.windows.lookup key = some w →
    (w.toCourse.takeReadyChecked a.sampleEvery lagSlots tip key).isSome = true
  | .takeFinished _ _ _ _ => ∀ key w, a.windows.lookup key = some w →
    w.endedAt.isSome = true → w.inFlight = 0 → w.startSlotChecked.isSome = true
  | _ => True

/-- A call whose slots are safe. -/
structure SlotsSafe (base58 : List UInt8 → String) (a : FilterAudit) (call : AuditCall) :
    Prop where
  /-- No operation stops. -/
  fits : a.NeverStops call
  /-- What is handed out lies at or above the opening tip. -/
  above : ∀ task ∈ (a.call base58 call).2, ∀ w,
    (a.call base58 call).1.windows.lookup task.key = some w → ∀ t ∈ w.tipOpen, t ≤ task.slot

/-- All windows are placed. -/
def AllPlaced (highest : ℕ) (a : FilterAudit) : Prop :=
  ∀ key w, a.windows.lookup key = some w → w.toCourse.Placed a.sampleEvery highest

end FilterAudit

/-! ### One call -/

section Call

variable {base58 : List UInt8 → String} {n lagSlots highest : ℕ} {skipVotes : Bool}
  {key : WindowKey}

/-- Settling a task is no matter of slots. -/
theorem Course.Placed.settle {c : Course} (h : c.Placed n highest) (outcome : Outcome) :
    (c.settle outcome).Placed n highest := by
  cases outcome <;> exact h.of_seen rfl rfl

/-- **Each act on a window keeps it placed.** -/
theorem Course.Placed.act (hn : 0 < n) (hfit : SlotsFit n lagSlots highest) {w : Window}
    (h : w.toCourse.Placed n highest) {call : AuditCall} (hreports : call.Reports lagSlots highest)
    (honce : ∀ tip, call = .subscribed key tip → w.subscribed = false) :
    (w.act base58 n skipVotes key call).toCourse.Placed n highest := by
  -- the calls that move slots come with a tip that was reported
  cases call with
  | subscribed key' tip =>
    unfold Window.act
    dsimp only
    by_cases heq : key' = key
    · rw [if_pos heq]
      exact h.subscribe (honce tip (heq ▸ rfl)) hreports
    · rw [if_neg heq]
      exact h
  | close key' tip now reason =>
    unfold Window.act
    dsimp only
    by_cases heq : key' = key
    · rw [if_pos heq]
      exact h.close hreports now reason
    · rw [if_neg heq]
      exact h
  | onDelivery key' slot tx tags serverIsVote =>
    unfold Window.act
    dsimp only
    by_cases heq : key' = key
    · rw [if_pos heq, Window.toCourse_onDelivery]
      exact h.deliver hreports skipVotes tx _
    · rw [if_neg heq]
      exact h
  | takeReady lag tip =>
    obtain ⟨rfl, htip⟩ := hreports
    obtain ⟨r, hr⟩ : ∃ r, w.toCourse.takeReadyChecked n lag tip key = some r :=
      h.exists_takeReady hn hfit htip
    obtain ⟨hagree, hplaced, -⟩ := h.takeReady hn htip hr
    unfold Window.act
    dsimp only
    rw [hagree]
    exact hplaced
  | compare task fetched =>
    unfold Window.act
    dsimp only
    by_cases heq : task.key = key
    · rw [if_pos heq, Window.toCourse_compared]
      exact h.settle fetched.outcome
    · rw [if_neg heq]
      exact h
  | unchecked task =>
    unfold Window.act
    dsimp only
    by_cases heq : task.key = key
    · rw [if_pos heq]
      exact h.settle .unchecked
    · rw [if_neg heq]
      exact h
  | drainViolations => exact h
  | openWindow _ _ | takeFinished _ _ _ _ | takeAll => exact h

namespace FilterAudit

variable {a : FilterAudit}

/-- **A call with slots in the range keeps all windows placed.** -/
theorem AllPlaced.call (h : a.AllPlaced highest) (hfit : SlotsFit a.sampleEvery lagSlots highest)
    {call : AuditCall} (hreports : call.Reports lagSlots highest) (honce : a.SubscribesOnce call) :
    (a.call base58 call).1.AllPlaced highest := by
  intro key w hw
  rw [(config_call base58 a call).1]
  rw [lookup_call] at hw
  rcases exists_of_windowStep hw with ⟨info, -, rfl⟩ | ⟨-, v, hv, rfl⟩
  · exact Course.placed_new info
  · refine (h key v hv).act a.sampleEvery_pos hfit hreports ?_
    rintro tip rfl
    exact honce v hv

/-- A call with slots in the range is safe, too. -/
lemma AllPlaced.slotsSafe (h : a.AllPlaced highest)
    (hfit : SlotsFit a.sampleEvery lagSlots highest) {call : AuditCall}
    (hreports : call.Reports lagSlots highest) : a.SlotsSafe base58 call := by
  have hstart : ∀ c : Course, c.Placed a.sampleEvery highest →
      c.startSlotChecked.isSome = true := by
    intro c hc
    obtain ⟨start, hstart, -⟩ := hc.exists_startSlot hfit
    rw [hstart]
    rfl
  cases call with
  | onDelivery key slot tx tags serverIsVote =>
    refine ⟨fun w hw _ => hstart _ ?_, fun task htask => absurd htask List.not_mem_nil⟩
    exact (h key w hw).countDelivery hreports
  | takeFinished tip floor now giveUpSecs =>
    exact ⟨fun key w hw _ _ => hstart _ (h key w hw),
      fun task htask => absurd htask List.not_mem_nil⟩
  | takeReady lag tip =>
    obtain ⟨rfl, htip⟩ := hreports
    have hchecked : ∀ key w, a.windows.lookup key = some w →
        ∃ r, w.toCourse.takeReadyChecked a.sampleEvery lag tip key = some r :=
      fun key w hw => (h key w hw).exists_takeReady a.sampleEvery_pos hfit htip
    refine ⟨fun key w hw => Option.isSome_iff_exists.mpr (hchecked key w hw), ?_⟩
    intro task htask w' hw' t ht
    obtain ⟨e, hentry, htask⟩ := List.mem_flatMap.mp htask
    have hlookup : a.windows.lookup e.1 = some e.2 := AList.mem_entries_iff_lookup.mp hentry
    obtain ⟨r, hr⟩ := hchecked e.1 e.2 hlookup
    -- what is handed out lies above the tip at which its window was opened
    obtain ⟨hagree, -, habove⟩ := (h e.1 e.2 hlookup).takeReady a.sampleEvery_pos htip hr
    have hkey : task.key = e.1 := Course.key_of_mem_takeReady htask
    have hcourse := course_takeReady (a := a) lag tip e.1
    unfold course at hcourse
    rw [hkey] at hw'
    rw [hlookup, Option.map_some, Option.map_some, hagree] at hcourse
    have hw : w'.toCourse = r.1 := by
      rw [FilterAudit.call] at hw'
      rw [hw'] at hcourse
      exact Option.some.inj hcourse
    rw [hagree] at htask
    obtain ⟨t', ht', hle⟩ := habove task htask
    rw [← hw] at ht'
    obtain rfl := Option.some.inj (ht'.symm.trans ht)
    exact hle
  | _ => exact ⟨trivial, fun task htask => absurd htask List.not_mem_nil⟩

end FilterAudit

end Call

/-! ### Runs -/

section Runs

variable (base58 : List UInt8 → String) {n : ℕ} (hn : 0 < n) (skipVotes : Bool)
  (lagSlots highest : ℕ)

/-- The audit after some calls. -/
def FilterAudit.reached (calls : List AuditCall) : FilterAudit :=
  Machine.finalState (FilterAudit.call base58) (FilterAudit.new n hn skipVotes) calls

/-- The calls learn slots up to `highest` only, and subscribe each window once. -/
def ReportsUpTo (calls : List AuditCall) : Prop :=
  calls.Along fun before call => call.Reports lagSlots highest ∧
    (FilterAudit.reached base58 hn skipVotes before).SubscribesOnce call

/-- All calls are safe. -/
def AllSafe (calls : List AuditCall) : Prop :=
  calls.Along fun before call =>
    (FilterAudit.reached base58 hn skipVotes before).SlotsSafe base58 call

variable {base58 hn skipVotes lagSlots highest}

lemma sampleEvery_reached (calls : List AuditCall) :
    (FilterAudit.reached base58 hn skipVotes calls).sampleEvery = n := by
  induction calls using List.reverseRecOn with
  | nil => rfl
  | append_singleton calls call ih =>
    unfold FilterAudit.reached
    rw [Machine.finalState_concat, (FilterAudit.config_call base58 _ call).1]
    exact ih

/-- With room, all windows stay placed. -/
lemma allPlaced_reached (hfit : SlotsFit n lagSlots highest) {calls : List AuditCall}
    (hcalls : ReportsUpTo base58 hn skipVotes lagSlots highest calls) :
    (FilterAudit.reached base58 hn skipVotes calls).AllPlaced highest := by
  induction calls using List.reverseRecOn with
  | nil =>
    intro key w hw
    rw [FilterAudit.reached, Machine.finalState_nil, FilterAudit.new, AList.lookup_empty] at hw
    cases hw
  | append_singleton calls call ih =>
    obtain ⟨hreports, honce⟩ := hcalls calls call [] rfl
    unfold FilterAudit.reached
    rw [Machine.finalState_concat]
    refine (ih hcalls.left).call ?_ hreports honce
    rwa [sampleEvery_reached calls]

/-- With room, all calls are safe. -/
lemma allSafe_of_slotsFit (hfit : SlotsFit n lagSlots highest) {calls : List AuditCall}
    (hcalls : ReportsUpTo base58 hn skipVotes lagSlots highest calls) :
    AllSafe base58 hn skipVotes calls := by
  intro before call later hsplit
  have hbefore : ReportsUpTo base58 hn skipVotes lagSlots highest before := by
    unfold ReportsUpTo at hcalls
    rw [hsplit] at hcalls
    exact hcalls.left
  refine (allPlaced_reached hfit hbefore).slotsSafe ?_ (hcalls before call later hsplit).1
  rwa [sampleEvery_reached before]

/-! ### Slots without room -/

/-- A window of a source that lags by nothing. -/
def promptInfo : WindowInfo := ⟨"g", .grpcDeshred, none, Bundle.all⟩

/-- Such a window goes live. -/
def goesLive (tip : ℕ) : List AuditCall :=
  [.openWindow (0, 0) promptInfo] ++ [.subscribed (0, 0) tip]

/-- A window that is subscribed at one slot and closed at another one, without a delivery. -/
def staysSilent (opened closed : ℕ) : List AuditCall :=
  goesLive opened ++ [.close (0, 0) closed 0 "rotated"]

lemma reportsUpTo_goesLive {tip : ℕ} (htip : tip ≤ highest) :
    ReportsUpTo base58 hn skipVotes lagSlots highest (goesLive tip) := by
  refine List.Along.append (List.along_singleton ⟨trivial, trivial⟩)
    (List.along_singleton ⟨htip, ?_⟩)
  intro w hw
  rw [FilterAudit.reached, FilterAudit.lookup_finalState] at hw
  obtain rfl := Option.some.inj hw
  rfl

lemma reportsUpTo_staysSilent {opened closed : ℕ} (hopened : opened ≤ highest)
    (hclosed : closed ≤ highest) :
    ReportsUpTo base58 hn skipVotes lagSlots highest (staysSilent opened closed) :=
  List.Along.append (reportsUpTo_goesLive hopened) (List.along_singleton ⟨hclosed, trivial⟩)

/-- If all runs are safe, a window that a run leaves can be checked at the highest tip. -/
lemma exists_takeReady_of_allSafe
    (hsafe : ∀ calls, ReportsUpTo base58 hn skipVotes lagSlots highest calls →
      AllSafe base58 hn skipVotes calls)
    {calls : List AuditCall} (hcalls : ReportsUpTo base58 hn skipVotes lagSlots highest calls)
    (key : WindowKey) {w : Window} (hw : windowAt base58 n skipVotes key calls = some w) :
    ∃ r, w.toCourse.takeReadyChecked n lagSlots highest key = some r := by
  have hmore : ReportsUpTo base58 hn skipVotes lagSlots highest
      (calls ++ [.takeReady lagSlots highest]) :=
    List.Along.append hcalls (List.along_singleton ⟨⟨rfl, le_refl highest⟩, trivial⟩)
  have hready := (hsafe _ hmore calls _ [] rfl).fits key w (by
    rw [FilterAudit.reached, FilterAudit.lookup_finalState]
    exact hw)
  rw [sampleEvery_reached calls] at hready
  exact Option.isSome_iff_exists.mp hready

/-- The opening tip of a live window is not filled again. -/
lemma Course.learnTip_of_some {c : Course} {opened : ℕ} (hopened : c.tipOpen = some opened)
    (tip : ℕ) : c.learnTip tip = c :=
  if_neg fun hlearns => by simp [hopened] at hlearns

/-- A live window without a delivery compares the tip with a sum. -/
lemma Course.start_of_takeReady {key : WindowKey} {tip : ℕ} (htip : 0 < tip)
    {r : Course × List SlotTask}
    (h : ((Course.new promptInfo).subscribe tip).takeReadyChecked n lagSlots tip key = some r) :
    tip + startWithoutDeliverySlots < u64Size := by
  have hopen : ((Course.new promptInfo).subscribe tip).tipOpen = some tip := if_pos htip
  unfold Course.takeReadyChecked at h
  dsimp only at h
  rw [Course.learnTip_of_some hopen] at h
  obtain ⟨settled, hsettled, -⟩ := Option.bind_eq_some_iff.mp h
  have hknown : ((Course.new promptInfo).subscribe tip).startKnownChecked tip = some settled :=
    hsettled
  unfold Course.startKnownChecked at hknown
  rw [if_neg (by simp [Course.subscribe, Course.new]), hopen] at hknown
  obtain ⟨sum, hsum, -⟩ := Option.map_eq_some_iff.mp hknown
  exact (plus_eq_some_iff.mp hsum).1

/-- A closed window without a delivery rounds its start up, and hands out from there. -/
lemma Course.steps_of_takeReady {key : WindowKey} {opened tip : ℕ} (hopened : 0 < opened)
    {r : Course × List SlotTask}
    (h : (((Course.new promptInfo).subscribe opened).close tip 0 "rotated").takeReadyChecked n
      lagSlots tip key = some r) :
    divCeil (opened + startMargin) n * n < u64Size ∧ lagSlots + maxCursorLagSlots < u64Size ∧
      (tip - (lagSlots + maxCursorLagSlots) ≤ divCeil (opened + startMargin) n * n →
        divCeil (opened + startMargin) n * n ≤ tip - endMargin →
          divCeil (opened + startMargin) n * n + lagSlots < u64Size) := by
  have hopen : (((Course.new promptInfo).subscribe opened).close tip 0 "rotated").tipOpen =
      some opened := if_pos hopened
  have hnone : (((Course.new promptInfo).subscribe opened).close tip 0 "rotated").nextCheck =
      none := rfl
  have hend : (((Course.new promptInfo).subscribe opened).close tip 0 "rotated").endSlot tip =
      tip - endMargin := rfl
  have hsettled : (((Course.new promptInfo).subscribe opened).close tip 0
      "rotated").startSettledChecked tip = some true := rfl
  have hstart : (((Course.new promptInfo).subscribe opened).close tip 0
      "rotated").startSlotChecked = (plus u64Size (max opened 0) startMargin).map some := by
    unfold Course.startSlotChecked
    rw [hopen]
    rfl
  unfold Course.takeReadyChecked at h
  dsimp only at h
  rw [Course.learnTip_of_some hopen, hsettled, hstart, hnone] at h
  generalize ((Course.new promptInfo).subscribe opened).close tip 0 "rotated" = c at h hend
  rw [Option.bind_eq_bind, Option.bind_some, if_pos rfl] at h
  obtain ⟨start, hstart', h⟩ := Option.bind_eq_some_iff.mp h
  obtain ⟨sum, hsum, rfl⟩ := Option.map_eq_some_iff.mp hstart'
  obtain ⟨-, rfl⟩ := plus_eq_some_iff.mp hsum
  obtain ⟨rounded, hround, h⟩ := Option.bind_eq_some_iff.mp h
  obtain ⟨hfits, rfl⟩ := times_eq_some_iff.mp hround
  rw [Nat.max_zero] at hfits h
  unfold Course.advanceChecked at h
  obtain ⟨caught, hcaught, h⟩ := Option.bind_eq_some_iff.mp h
  obtain ⟨handed, hhanded, -⟩ := Option.bind_eq_some_iff.mp h
  unfold Course.catchUpChecked at hcaught
  obtain ⟨lag, hlag, hcaught⟩ := Option.bind_eq_some_iff.mp hcaught
  obtain ⟨hlagFits, rfl⟩ := plus_eq_some_iff.mp hlag
  refine ⟨hfits, hlagFits, fun hnear hold => ?_⟩
  rw [Option.getD_none] at hcaught
  dsimp only at hcaught
  rw [if_neg (not_lt.mpr hnear)] at hcaught
  obtain rfl := Option.some.inj hcaught
  rw [hend] at hhanded
  -- The loop looks at the place of the cursor first.
  unfold maxTasksPerWindow Course.handOutChecked at hhanded
  dsimp only at hhanded
  rw [if_pos hold] at hhanded
  obtain ⟨due, hdue, -⟩ := Option.bind_eq_some_iff.mp hhanded
  exact (plus_eq_some_iff.mp hdue).1

/-- **Without room some run is not safe.** -/
theorem slotsFit_of_allSafe
    (hsafe : ∀ calls, ReportsUpTo base58 hn skipVotes lagSlots highest calls →
      AllSafe base58 hn skipVotes calls) : SlotsFit n lagSlots highest := by
  refine (Nat.eq_zero_or_pos highest).imp_right fun hpos => ?_
  have hstart : highest + startWithoutDeliverySlots < u64Size := by
    obtain ⟨r, hr⟩ := exists_takeReady_of_allSafe hsafe (reportsUpTo_goesLive (le_refl highest))
      (0, 0) rfl
    exact Course.start_of_takeReady hpos hr
  have hsteps : ∀ opened, 0 < opened → opened ≤ highest →
      divCeil (opened + startMargin) n * n < u64Size ∧ lagSlots + maxCursorLagSlots < u64Size ∧
        (highest - (lagSlots + maxCursorLagSlots) ≤ divCeil (opened + startMargin) n * n →
          divCeil (opened + startMargin) n * n ≤ highest - endMargin →
            divCeil (opened + startMargin) n * n + lagSlots < u64Size) := by
    intro opened hopened hle
    obtain ⟨r, hr⟩ := exists_takeReady_of_allSafe hsafe
      (reportsUpTo_staysSilent hle (le_refl highest)) (0, 0) rfl
    exact Course.steps_of_takeReady hopened hr
  obtain ⟨hround, hlag, -⟩ := hsteps highest hpos (le_refl highest)
  refine ⟨hstart, hround, hlag, fun hlow => ?_⟩
  -- The window opens just below the last sampled slot that is old enough.
  have hdvd : n ∣ (highest - endMargin) / n * n := Nat.dvd_mul_left n _
  have hold : (highest - endMargin) / n * n ≤ highest - endMargin := Nat.div_mul_le_self _ n
  generalize (highest - endMargin) / n * n = last at hlow hdvd hold
  obtain ⟨-, -, hdue⟩ := hsteps (last - startMargin) (by omega) (by omega)
  have hback : last - startMargin + startMargin = last := by omega
  have hsame : divCeil last n * n = last :=
    Nat.le_antisymm (divCeil_mul_le hdvd (le_refl last)) (le_divCeil_mul hn)
  rw [hback, hsame] at hdue
  by_cases hnear : highest - (lagSlots + maxCursorLagSlots) ≤ last
  · exact hdue hnear hold
  · omega

/-- **When slots cannot wrap**: all calls of all runs are safe, that is no operation on slots leaves
the numbers of 64 bits and nothing is handed out below the opening tip of its window, exactly if the
slots up to the highest one that is reported leave room. -/
theorem slots_safe_iff (base58 : List UInt8 → String) (hn : 0 < n) (skipVotes : Bool)
    (lagSlots highest : ℕ) :
    (∀ calls, ReportsUpTo base58 hn skipVotes lagSlots highest calls →
      AllSafe base58 hn skipVotes calls) ↔ SlotsFit n lagSlots highest :=
  ⟨slotsFit_of_allSafe, fun hfit _ hcalls => allSafe_of_slotsFit hfit hcalls⟩

end Runs

/-- A run with slots that leave room. -/
theorem slots_safe_iff_silent :
    AllSafe (fun _ => "") (Nat.succ_pos 9) false
      (staysSilent 1000 1100 ++ [.takeReady 32 1100]) := by
  have hfit : SlotsFit 10 32 1100 := .inr
    { start := by decide
      round := by decide
      lag := by decide
      due := by decide }
  have hcalls : ReportsUpTo (fun _ => "") (Nat.succ_pos 9) false 32 1100
      (staysSilent 1000 1100 ++ [.takeReady 32 1100]) :=
    List.Along.append (reportsUpTo_staysSilent (by decide) (by decide))
      (List.along_singleton ⟨⟨rfl, by decide⟩, trivial⟩)
  exact (slots_safe_iff (fun _ => "") (Nat.succ_pos 9) false 32 1100).mpr hfit _ hcalls

/-- A source that reports the last number of 64 bits brings the audit down. -/
theorem not_allSafe_lastSlot :
    ¬ ∀ (base58 : List UInt8 → String) (n : ℕ) (hn : 0 < n) (skipVotes : Bool) (lagSlots : ℕ)
      (calls : List AuditCall),
      ReportsUpTo base58 hn skipVotes lagSlots (u64Size - 1) calls →
        AllSafe base58 hn skipVotes calls := by
  intro hall
  obtain ⟨r, hr⟩ := exists_takeReady_of_allSafe (hall (fun _ => "") 10 (Nat.succ_pos 9) false 32)
    (reportsUpTo_goesLive (le_refl (u64Size - 1))) (0, 0) rfl
  have hsum := Course.start_of_takeReady (by decide) hr
  exact absurd hsum (by decide)

end ShredTools.Audit
