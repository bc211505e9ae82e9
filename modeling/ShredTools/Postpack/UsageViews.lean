import Mathlib.Algebra.Order.Group.Int
import Mathlib.Algebra.Ring.Int.Defs
import Mathlib.Data.List.Sort
import ShredTools.Library.Grouping
import ShredTools.Postpack.Store

/-!
# The two views of usage

`get_usage_summary` sums the usage rows of a client from a point in time on, 23 hours before the
current one began; `get_hourly_usage` puts them into one bucket for each of the last hours.  The
sums are `i64` additions, which wrap around here as in a release build, and both views wrap to the
same.

The two windows agree where hours are rounded down.  `start_of_hour` rounds towards 1970, so that an
hour before then begins where it should end; it matters for rows of that time only, and only while
the window reaches back to it.
-/

namespace ShredTools.Postpack

/-- `MAX_HOURS` -/
def maxHours : ℕ := 7 * 24

/-- The nanoseconds of an hour. -/
def nsPerHour : ℤ := 3600 * nsPerSecond

/-- The nanoseconds of a day. -/
def nsPerDay : ℤ := 24 * nsPerHour

/-- The `i64` that an addition or subtraction leaves in a release build. -/
def wrapI64 (a : ℤ) : ℤ := a.bmod u64Size

/-- `UsageSummary` -/
structure UsageSummary where
  /-- The balance. -/
  creditsBalance : ℤ
  /-- The credits charged. -/
  creditsUsed24h : ℤ
  /-- The messages charged. -/
  messages24h : ℤ
  deriving DecidableEq

/-- `HourlyUsage` -/
@[ext] structure HourlyUsage where
  /-- When the hour began. -/
  hour : Instant
  /-- The credits charged. -/
  credits : ℤ
  /-- The messages charged. -/
  messages : ℤ
  deriving DecidableEq

/-- One more row of usage, with its credits and messages. -/
def addUsage (usage : ℤ × ℤ) (row : HistoryRow) : ℤ × ℤ :=
  (wrapI64 (usage.1 - row.deltaCredits), wrapI64 (usage.2 + row.messages.getD 0))

namespace Store

/-- `Store::usage_rows` -/
def usageRows (store : Store) (key : String) : List HistoryRow :=
  store.history.filter fun row => row.apiKeyValue = key ∧ row.reason = .usage

/-- `get_usage_summary` -/
def getUsageSummary (store : Store) (key : String) (now : Instant) :
    Except ApiError UsageSummary :=
  match store.clients.lookup key with
  | none => .error notFound
  | some client =>
    let since := startOfHour now - 23 * nsPerHour
    let (credits, messages) :=
      ((store.usageRows key).filter fun row => since ≤ row.createdAt).foldl addUsage (0, 0)
    .ok ⟨client.creditsBalance, credits, messages⟩

/-- The map of `get_hourly_usage`: zeros for the last hours, and the rows of usage added to them. -/
def usageByHour (store : Store) (key : String) (hours : ℕ) (thisHour : Instant) :
    AList fun _ : Instant => ℤ × ℤ :=
  let usage : AList fun _ : Instant => ℤ × ℤ := (List.range hours).foldl
    (fun usage (hoursAgo : ℕ) => usage.insert (thisHour - hoursAgo * nsPerHour) (0, 0)) ∅
  (store.usageRows key).foldl
    (fun usage row => usage.modify (startOfHour row.createdAt) (addUsage · row)) usage

/-- `get_hourly_usage` -/
def getHourlyUsage (store : Store) (key : String) (hours : ℕ) (now : Instant) :
    List HourlyUsage :=
  let usage := store.usageByHour key (max 1 (min hours maxHours)) (startOfHour now)
  -- the map goes through its hours in ascending order
  (usage.keys.insertionSort (· ≤ ·)).filterMap fun hour =>
    (usage.lookup hour).map fun (credits, messages) => ⟨hour, credits, messages⟩

end Store

/-! ### Sums that wrap around -/

/-- `Iterator::sum` of `i64` -/
def sumI64 (l : List ℤ) : ℤ := l.foldl (fun sum a => wrapI64 (sum + a)) 0

/-- The credits of some rows of usage. -/
def creditsOfRows (rows : List HistoryRow) : ℤ := (rows.map fun row => -row.deltaCredits).sum

/-- The messages of some rows of usage. -/
def messagesOfRows (rows : List HistoryRow) : ℤ := (rows.map fun row => row.messages.getD 0).sum

/-- To wrap a summand changes nothing for a sum that is wrapped. -/
lemma wrapI64_add_wrapI64 (a b : ℤ) : wrapI64 (wrapI64 a + b) = wrapI64 (a + b) :=
  Int.bmod_add_bmod

/-- A sum of wrapped numbers is that of the numbers, wrapped. -/
lemma sumI64_map_wrapI64 {α : Type*} (l : List α) (f : α → ℤ) :
    sumI64 (l.map fun a => wrapI64 (f a)) = wrapI64 (l.map f).sum := by
  unfold sumI64
  induction l using List.reverseRecOn with
  | nil => rfl
  | append_singleton l a ih =>
    rw [List.map_append, List.foldl_append, ih, List.map_append, List.sum_append,
      List.map_singleton, List.map_singleton, List.sum_singleton, List.foldl_cons,
      List.foldl_nil, wrapI64_add_wrapI64, add_comm, wrapI64_add_wrapI64, add_comm]

/-- What some rows add up to. -/
lemma foldl_addUsage (rows : List HistoryRow) :
    rows.foldl addUsage (0, 0) =
      (wrapI64 (creditsOfRows rows), wrapI64 (messagesOfRows rows)) := by
  induction rows using List.reverseRecOn with
  | nil => rfl
  | append_singleton rows row ih =>
    rw [List.foldl_append, ih]
    unfold addUsage creditsOfRows messagesOfRows
    simp [sub_eq_add_neg, wrapI64_add_wrapI64]

/-! ### Hours -/

/-- The hours since 1970 that `start_of_hour` counts. -/
def hoursSince (instant : Instant) : ℤ := (instant.fdiv nsPerSecond).tdiv 3600

/-- Hours are rounded down since 1970, and whole seconds up before. -/
lemma hoursSince_eq (instant : ℤ) :
    hoursSince instant =
      if 0 ≤ instant then instant / nsPerHour else -(-(instant / nsPerSecond) / 3600) := by
  unfold hoursSince nsPerHour nsPerSecond
  rw [Int.fdiv_eq_ediv_of_nonneg _ (by decide)]
  split_ifs with hpast
  · rw [Int.tdiv_eq_ediv_of_nonneg (by omega)]
    omega
  · have hneg : (instant / 1000000000).tdiv 3600 = -(-(instant / 1000000000)).tdiv 3600 := by
      rw [Int.neg_tdiv, neg_neg]
    rw [hneg, Int.tdiv_eq_ediv_of_nonneg (by omega)]

/-- The start of an hour in hours. -/
lemma startOfHour_eq (instant : ℤ) : startOfHour instant = hoursSince instant * nsPerHour :=
  Int.mul_assoc ..

/-- Later instants are in later hours, or the same. -/
lemma hoursSince_mono {instant instant' : ℤ} (h : instant ≤ instant') :
    hoursSince instant ≤ hoursSince instant' := by
  rw [hoursSince_eq, hoursSince_eq]
  unfold nsPerHour nsPerSecond
  split_ifs <;> omega

/-- An instant from the start of an hour on is in that hour or a later one. -/
lemma le_hoursSince {hour : ℤ} {instant : ℤ} (h : hour * nsPerHour ≤ instant) :
    hour ≤ hoursSince instant := by
  rw [hoursSince_eq]
  unfold nsPerHour nsPerSecond at h ⊢
  split_ifs <;> omega

/-- Since 1970 an instant in an hour is not before its start; an earlier one is in no later hour
than the first. -/
lemma le_of_le_hoursSince {hour : ℤ} {instant : ℤ} (hpast : 0 ≤ instant ∨ 0 < hour)
    (h : hour ≤ hoursSince instant) : hour * nsPerHour ≤ instant := by
  rw [hoursSince_eq] at h
  unfold nsPerHour nsPerSecond at h ⊢
  split_ifs at h <;> omega

/-- The hours that `get_hourly_usage` answers with, in ascending order. -/
def hoursUntil (now : ℤ) (hours : ℕ) : List ℤ :=
  (List.range hours).reverse.map fun (hoursAgo : ℕ) => startOfHour now - hoursAgo * nsPerHour

@[simp] lemma length_hoursUntil (now : ℤ) (hours : ℕ) :
    (hoursUntil now hours).length = hours := by
  simp [hoursUntil]

/-- The hours ascend. -/
lemma pairwise_hoursUntil (now : Instant) (hours : ℕ) :
    (hoursUntil now hours).Pairwise (· < ·) := by
  unfold hoursUntil
  rw [List.pairwise_map, List.pairwise_reverse]
  refine List.pairwise_lt_range.imp fun hlt => ?_
  unfold nsPerHour nsPerSecond
  omega

/-- The hours begin as many hours ago as there are hours before the current one. -/
lemma head?_hoursUntil (now : ℤ) (n : ℕ) :
    (hoursUntil now (n + 1)).head? = some ((hoursSince now - n) * nsPerHour) := by
  unfold hoursUntil
  rw [List.range_succ, List.reverse_append, List.reverse_singleton, List.singleton_append,
    List.map_cons, List.head?_cons, startOfHour_eq, Int.sub_mul]

/-- The hours end at the current one. -/
lemma getLast?_hoursUntil (now : Instant) {hours : ℕ} (h : 0 < hours) :
    (hoursUntil now hours).getLast? = some (startOfHour now) := by
  obtain ⟨n, rfl⟩ := Nat.exists_eq_succ_of_ne_zero h.ne'
  unfold hoursUntil
  rw [List.range_succ_eq_map]
  simp

/-- The hour of an instant is among the last hours exactly if it is late enough. -/
lemma startOfHour_mem_hoursUntil {now instant : ℤ} {hours : ℕ} (h : instant ≤ now) :
    startOfHour instant ∈ hoursUntil now hours ↔ hoursSince now - hours < hoursSince instant := by
  unfold hoursUntil
  rw [List.mem_map]
  simp only [List.mem_reverse, List.mem_range, startOfHour_eq]
  have hle := hoursSince_mono h
  constructor
  · rintro ⟨hoursAgo, hlt, heq⟩
    have hhours : (hoursSince now - hoursAgo) * nsPerHour = hoursSince instant * nsPerHour := by
      rw [Int.sub_mul]
      exact heq
    have hago := Int.eq_of_mul_eq_mul_right (by decide) hhours
    omega
  · intro hlt
    obtain ⟨hoursAgo, hago⟩ := Int.eq_ofNat_of_zero_le (Int.sub_nonneg.mpr hle)
    refine ⟨hoursAgo, by omega, ?_⟩
    rw [← hago, ← Int.sub_mul, Int.sub_sub_self]

/-! ### The views -/

namespace Store

/-- The rows of usage of a key in an hour. -/
def rowsOfHour (store : Store) (key : String) (hour : Instant) : List HistoryRow :=
  store.history.filter fun row =>
    row.apiKeyValue = key ∧ row.reason = .usage ∧ startOfHour row.createdAt = hour

/-- The rows of usage that the code collects. -/
lemma mem_usageRows {store : Store} {key : String} {row : HistoryRow} :
    row ∈ store.usageRows key ↔
      row ∈ store.history ∧ row.apiKeyValue = key ∧ row.reason = .usage := by
  simp [usageRows]

/-- The rows of usage of an hour are what the code adds up for it. -/
lemma filter_usageRows (store : Store) (key : String) (hour : Instant) :
    ((store.usageRows key).filter fun row => startOfHour row.createdAt = hour) =
      store.rowsOfHour key hour := by
  unfold usageRows rowsOfHour
  rw [List.filter_filter]
  apply List.filter_congr
  intro row _
  simp only [← Bool.decide_and, decide_eq_decide]
  tauto

/-- What the map has for each hour. -/
lemma lookup_usageByHour (store : Store) (key : String) (hours : ℕ) (now hour : Instant) :
    (store.usageByHour key hours (startOfHour now)).lookup hour =
      if hour ∈ hoursUntil now hours then
        some (wrapI64 (creditsOfRows (store.rowsOfHour key hour)),
          wrapI64 (messagesOfRows (store.rowsOfHour key hour)))
      else none := by
  have hmem : hour ∈ hoursUntil now hours ↔
      hour ∈ (List.range hours).map fun (hoursAgo : ℕ) =>
        startOfHour now - hoursAgo * nsPerHour := by
    unfold hoursUntil
    rw [List.map_reverse, List.mem_reverse]
  unfold usageByHour
  dsimp only
  rw [AList.lookup_foldl_modify, AList.lookup_foldl_insert, AList.lookup_empty]
  by_cases hhour : hour ∈ hoursUntil now hours
  · rw [if_pos hhour, if_pos (hmem.mp hhour), Option.map_some, foldl_addUsage,
      filter_usageRows]
  · rw [if_neg hhour, if_neg (mt hmem.mpr hhour)]
    rfl

/-- The hours of the map, in ascending order. -/
lemma sorted_keys_usageByHour (store : Store) (key : String) (hours : ℕ) (now : Instant) :
    (store.usageByHour key hours (startOfHour now)).keys.insertionSort (· ≤ ·) =
      hoursUntil now hours := by
  have hsorted : (hoursUntil now hours).Pairwise (· ≤ ·) :=
    (pairwise_hoursUntil now hours).imp le_of_lt
  have hnodup : (hoursUntil now hours).Nodup := (pairwise_hoursUntil now hours).imp ne_of_lt
  apply List.Perm.eq_of_pairwise' (List.pairwise_insertionSort (· ≤ ·) _) hsorted
  refine (List.perm_insertionSort (· ≤ ·) _).trans ?_
  refine (List.perm_ext_iff_of_nodup (AList.keys_nodup _) hnodup).mpr fun hour => ?_
  rw [AList.mem_keys_iff_lookup]
  simp only [lookup_usageByHour]
  split_ifs with hhour
  · simp [hhour]
  · simp [hhour]

/-- **The hourly view.**  One bucket for each of the last hours, with the rows of its hour. -/
theorem getHourlyUsage_eq (store : Store) (key : String) (hours : ℕ) (now : Instant) :
    store.getHourlyUsage key hours now =
      (hoursUntil now (max 1 (min hours maxHours))).map fun hour =>
        ⟨hour, wrapI64 (creditsOfRows (store.rowsOfHour key hour)),
          wrapI64 (messagesOfRows (store.rowsOfHour key hour))⟩ := by
  unfold getHourlyUsage
  dsimp only
  rw [sorted_keys_usageByHour, ← List.filterMap_eq_map]
  apply List.filterMap_congr
  intro hour hhour
  rw [lookup_usageByHour, if_pos hhour]
  rfl

/-- **The summary.**  The rows from 23 hours before the current one on. -/
theorem getUsageSummary_eq {store : Store} {key : String} {client : ClientRecord}
    (h : store.clients.lookup key = some client) (now : Instant) :
    store.getUsageSummary key now = .ok
      { creditsBalance := client.creditsBalance
        creditsUsed24h := wrapI64 (creditsOfRows ((store.usageRows key).filter fun row =>
          startOfHour now - 23 * nsPerHour ≤ row.createdAt))
        messages24h := wrapI64 (messagesOfRows ((store.usageRows key).filter fun row =>
          startOfHour now - 23 * nsPerHour ≤ row.createdAt)) } := by
  unfold getUsageSummary
  rw [h]
  dsimp only
  rw [foldl_addUsage]

/-- The two views count the same rows. -/
lemma filter_since_eq {store : Store} {key : String} {now : ℤ}
    (hpast : ∀ row ∈ store.usageRows key, row.createdAt ≤ now)
    (hepoch : nsPerDay ≤ now ∨ ∀ row ∈ store.usageRows key, 0 ≤ row.createdAt) :
    ((store.usageRows key).filter fun row => startOfHour now - 23 * nsPerHour ≤ row.createdAt) =
      (store.usageRows key).filter fun row => startOfHour row.createdAt ∈ hoursUntil now 24 := by
  apply List.filter_congr
  intro row hrow
  rw [decide_eq_decide, startOfHour_mem_hoursUntil (hpast row hrow), startOfHour_eq]
  have hstart : hoursSince now * nsPerHour - 23 * nsPerHour =
      (hoursSince now - 23) * nsPerHour := (Int.sub_mul ..).symm
  rw [hstart]
  constructor
  · intro hsince
    have := le_hoursSince hsince
    omega
  · intro hhour
    apply le_of_le_hoursSince
    · rcases hepoch with hday | hrows
      · right
        have := le_hoursSince (show (24 : ℤ) * nsPerHour ≤ now from hday)
        omega
      · exact Or.inl (hrows row hrow)
    · omega

/-- The buckets of the last 24 hours add up to the rows that they count. -/
lemma sum_hourly (store : Store) (key : String) (now : Instant) (f : HistoryRow → ℤ) :
    sumI64 ((hoursUntil now 24).map fun hour =>
        wrapI64 ((store.rowsOfHour key hour).map f).sum) =
      wrapI64 (((store.usageRows key).filter fun row =>
        startOfHour row.createdAt ∈ hoursUntil now 24).map f).sum := by
  rw [sumI64_map_wrapI64]
  simp only [← filter_usageRows]
  rw [List.sum_filter_keys f _ ((pairwise_hoursUntil now 24).imp ne_of_lt)]

/-- The hours of the hourly view. -/
lemma hours_getHourlyUsage (store : Store) (key : String) (hours : ℕ) (now : Instant) :
    (store.getHourlyUsage key hours now).map (·.hour) =
      hoursUntil now (max 1 (min hours maxHours)) := by
  rw [getHourlyUsage_eq, List.map_map]
  exact List.map_id _

/-- A bucket of the hourly view adds up the rows of its hour. -/
lemma eq_of_mem_getHourlyUsage {store : Store} {key : String} {hours : ℕ} {now : Instant}
    {bucket : HourlyUsage} (h : bucket ∈ store.getHourlyUsage key hours now) :
    bucket.credits = wrapI64 (creditsOfRows (store.rowsOfHour key bucket.hour)) ∧
      bucket.messages = wrapI64 (messagesOfRows (store.rowsOfHour key bucket.hour)) := by
  rw [getHourlyUsage_eq] at h
  obtain ⟨hour, -, rfl⟩ := List.mem_map.mp h
  exact ⟨rfl, rfl⟩

/-- A row of usage that is neither of before the first hour nor of the future is in one bucket. -/
lemma existsUnique_bucket {store : Store} {key : String} {hours : ℕ} {now : Instant}
    {row : HistoryRow} (hrow : row ∈ store.usageRows key) (hpast : row.createdAt ≤ now)
    {first : Instant}
    (hfirst : ((store.getHourlyUsage key hours now).map (·.hour)).head? = some first)
    (hle : first ≤ row.createdAt) :
    ∃! bucket, bucket ∈ store.getHourlyUsage key hours now ∧
      row ∈ store.rowsOfHour key bucket.hour := by
  have hrowOf : ∀ hour, row ∈ store.rowsOfHour key hour ↔ startOfHour row.createdAt = hour := by
    intro hour
    rw [← filter_usageRows]
    simp [hrow]
  have hmem : startOfHour row.createdAt ∈ (store.getHourlyUsage key hours now).map (·.hour) := by
    rw [hours_getHourlyUsage] at hfirst ⊢
    have hpos : 0 < max 1 (min hours maxHours) := by omega
    obtain ⟨n, hn⟩ := Nat.exists_eq_succ_of_ne_zero hpos.ne'
    rw [hn, head?_hoursUntil] at hfirst
    rw [← Option.some.inj hfirst] at hle
    have hhour := le_hoursSince hle
    rw [startOfHour_mem_hoursUntil hpast, hn]
    omega
  obtain ⟨bucket, hin, hour⟩ := List.mem_map.mp hmem
  refine ⟨bucket, ⟨hin, (hrowOf _).mpr hour.symm⟩, ?_⟩
  -- two buckets of one hour are the same
  rintro other ⟨hother, hrowOther⟩
  have hsame : other.hour = bucket.hour := by
    rw [hour, (hrowOf _).mp hrowOther]
  obtain ⟨hcredits, hmessages⟩ := eq_of_mem_getHourlyUsage hin
  obtain ⟨hcredits', hmessages'⟩ := eq_of_mem_getHourlyUsage hother
  rw [← hsame] at hcredits hmessages
  exact HourlyUsage.ext hsame (hcredits'.trans hcredits.symm) (hmessages'.trans hmessages.symm)

/-- **The usage views agree.**  For a client whose rows of usage are not of the future, the summary
counts what the 24 buckets of the hourly view add up to, at any time after the first day of 1970,
and on that day too unless there are rows of before.  For any number of hours asked for, the hourly
view has one bucket for each hour of the clamped number, ascending up to the current hour, and each
row of usage from the first hour on is counted in exactly one of them. -/
theorem usage_views_agree (store : Store) (key : String) (now : Instant) {client : ClientRecord}
    (hclient : store.clients.lookup key = some client)
    (hpast : ∀ row ∈ store.history, row.apiKeyValue = key → row.reason = .usage →
      row.createdAt ≤ now)
    (hepoch : nsPerDay ≤ now ∨
      ∀ row ∈ store.history, row.apiKeyValue = key → row.reason = .usage → 0 ≤ row.createdAt) :
    (∃ summary, store.getUsageSummary key now = .ok summary ∧
      summary.creditsUsed24h = sumI64 ((store.getHourlyUsage key 24 now).map (·.credits)) ∧
      summary.messages24h = sumI64 ((store.getHourlyUsage key 24 now).map (·.messages))) ∧
    ∀ hours,
      (store.getHourlyUsage key hours now).length = max 1 (min hours maxHours) ∧
      ((store.getHourlyUsage key hours now).map (·.hour)).Pairwise (· < ·) ∧
      ((store.getHourlyUsage key hours now).map (·.hour)).getLast? = some (startOfHour now) ∧
      (∀ bucket ∈ store.getHourlyUsage key hours now,
        bucket.credits = wrapI64 (creditsOfRows (store.rowsOfHour key bucket.hour)) ∧
        bucket.messages = wrapI64 (messagesOfRows (store.rowsOfHour key bucket.hour))) ∧
      ∀ row ∈ store.history, row.apiKeyValue = key → row.reason = .usage → ∀ first,
        ((store.getHourlyUsage key hours now).map (·.hour)).head? = some first →
        first ≤ row.createdAt →
        ∃! bucket, bucket ∈ store.getHourlyUsage key hours now ∧
          row ∈ store.rowsOfHour key bucket.hour := by
  have hpast' : ∀ row ∈ store.usageRows key, row.createdAt ≤ now := by
    intro row hrow
    obtain ⟨hmem, hkey, husage⟩ := mem_usageRows.mp hrow
    exact hpast row hmem hkey husage
  have hepoch' : nsPerDay ≤ now ∨ ∀ row ∈ store.usageRows key, 0 ≤ row.createdAt := by
    refine hepoch.imp_right fun hrows row hrow => ?_
    obtain ⟨hmem, hkey, husage⟩ := mem_usageRows.mp hrow
    exact hrows row hmem hkey husage
  constructor
  · refine ⟨_, getUsageSummary_eq hclient now, ?_, ?_⟩
    · rw [filter_since_eq hpast' hepoch', getHourlyUsage_eq, List.map_map]
      exact (sum_hourly store key now fun row => -row.deltaCredits).symm
    · rw [filter_since_eq hpast' hepoch', getHourlyUsage_eq, List.map_map]
      exact (sum_hourly store key now fun row => row.messages.getD 0).symm
  · intro hours
    have hhours := store.hours_getHourlyUsage key hours now
    refine ⟨?_, ?_, ?_, fun _ hmem => eq_of_mem_getHourlyUsage hmem,
      fun row hmem hkey husage _ hfirst hle =>
        existsUnique_bucket (mem_usageRows.mpr ⟨hmem, hkey, husage⟩) (hpast row hmem hkey husage)
          hfirst hle⟩
    · have hlength := congrArg List.length hhours
      rwa [List.length_map, length_hoursUntil] at hlength
    · rw [hhours]
      exact pairwise_hoursUntil now _
    · rw [hhours]
      exact getLast?_hoursUntil now (by omega)

/-- A row of usage of ten credits. -/
def hourRow (id : ℤ) (createdAt : Instant) : HistoryRow where
  id := id
  apiKeyValue := "key"
  deltaCredits := -10
  reason := .usage
  messages := some 1
  instanceName := none
  signature := none
  payment := none
  comment := none
  createdAt := createdAt

/-- A client with a row of usage at the full hour where the last 24 hours begin, and one a second
before it. -/
def hourStore : Store where
  apiKeys := {"key"}
  clients := (∅ : Clients).insert "key" (ClientRecord.new "key" .tier1 0)
  settings := Settings.default
  history := [hourRow 1 (77 * nsPerHour - nsPerSecond), hourRow 2 (77 * nsPerHour)]
  paidSignatures := ∅
  payments := []

/-- The row at the full hour counts in both views, the other one in neither. -/
theorem usage_views_agree_at_hour :
    hourStore.getUsageSummary "key" (100 * nsPerHour) = .ok ⟨0, 10, 1⟩ ∧
      sumI64 ((hourStore.getHourlyUsage "key" 24 (100 * nsPerHour)).map (·.credits)) = 10 := by
  obtain ⟨summary, hsummary, hcredits, -⟩ :=
    (usage_views_agree hourStore "key" (100 * nsPerHour) rfl (by decide) (Or.inl (by decide))).1
  have hvalue : hourStore.getUsageSummary "key" (100 * nsPerHour) = .ok ⟨0, 10, 1⟩ := by rfl
  rw [hvalue] at hsummary
  rw [← hcredits, ← Except.ok.inj hsummary]
  exact ⟨hvalue, rfl⟩

end Store

end ShredTools.Postpack
