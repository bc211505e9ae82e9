import ShredTools.Audit.RotationInvariant

/-!
# The worker and rotating sources

What the worker does keeps the invariant of rotating sources: it drains rows, reads the tip and the
floor, takes the windows that are finished by them, emits them, and takes all that are left when it
is shut down.  A window that it releases with its latency final has no row in flight.

Each of them is one lemma, from the invariant before the step to the invariant after it.  The
delicate one is `Inv.takeFinished`: the tip and the floor were read before, while the sources went
on, and the window is released by what was read.  What is released is noted in the log, and
`Inv.emit` then moves the latency of the window from the registry to the log.
-/

namespace ShredTools.Audit

namespace RotationSystem

variable {n : ℕ} {s : RotationSystem n} {log : List RotationEvent}

/-- Draining the rows of the transaction table leaves the latencies alone. -/
theorem Inv.drainRows (h : s.Inv log) : (s.call .drainRows).Inv log := by
  obtain ⟨handed, htraces⟩ := h.traces
  exact {
    traces := ⟨_, htraces.step .drainRows⟩
    counted := h.counted
    rotates := h.rotates
    known := h.known
    distinct := h.distinct
    apart := h.apart
    floor := h.floor
    reading := h.reading
    closing := h.closing
    quiet := fun i conn e he hended => { h.quiet i conn e he hended with }
    done := fun i conn hreleased => { h.done i conn hreleased with } }

/-- The worker reads the tip and the floor. -/
theorem Inv.readRegistry (h : s.Inv log) (hrunning : s.stopped = false) :
    ({ s with reading := some (s.reg.highSlot, s.reg.finalizedFloor) } :
      RotationSystem n).Inv log where
  traces := h.traces
  counted := h.counted
  rotates := h.rotates
  known := h.known
  distinct := h.distinct
  apart := h.apart
  floor := h.floor
  reading := by
    intro r hr
    obtain rfl := Option.some.inj hr
    exact ⟨hrunning, le_rfl⟩
  closing := h.closing
  quiet := fun i conn e he hended => { h.quiet i conn e he hended with }
  done := fun i conn hreleased => { h.done i conn hreleased with }

/-- What the filter audit gives away is gone from it. -/
lemma gone_perm (emitting more : List FilterAudit.Emitted) (log : List RotationEvent) :
    ((emitting ++ more).map Prod.fst ++ (emissions log).map Prod.fst).Perm
      ((emitting.map Prod.fst ++ (emissions log).map Prod.fst) ++ more.map Prod.fst) := by
  rw [List.map_append, List.append_assoc, List.append_assoc]
  exact List.perm_append_comm.append_left _

/-- Releases do not emit anything. -/
lemma emissions_released (log : List RotationEvent) (keys : List WindowKey) :
    emissions (log ++ keys.map .released) = emissions log := by
  have hnone : (keys.map RotationEvent.released).filterMap RotationEvent.emission = [] := by
    rw [List.filterMap_map, List.filterMap_eq_nil_iff]
    exact fun _ _ => rfl
  rw [emissions, List.filterMap_append, hnone, List.append_nil, emissions]

/-- A window that is released with its latency final has no row in flight. -/
lemma Inv.not_holds_of_final (h : s.Inv log) {r : ℕ × ℕ} (hr : r ∈ s.reading) {i : Fin n}
    {conn : ℕ} {c : Course} (hc : s.audit.course (i.val, conn) = some c)
    (hended : c.endedAt.isSome = true) (hfinal : c.Final r.1 r.2) : ¬ s.reg.Holds i conn := by
  have hquiet := h.quiet i conn c.ending (Option.map_eq_some_iff.mpr ⟨c, hc, rfl⟩) hended
  obtain ⟨hrunning, hfloor⟩ := h.reading r hr
  rcases hfinal.2.2 with hempty | hpassed
  · exact hquiet.empty hempty
  · obtain ⟨tip, htip⟩ := Option.isSome_iff_exists.mp hquiet.tipClose
    exact hquiet.passed tip htip hrunning ((hpassed tip htip).trans_le hfloor)

/-- A window that the worker takes with its latency final is done. -/
lemma Inv.done_of_takeFinished (h : s.Inv log) {tip floor : ℕ}
    (hr : s.reading = some (tip, floor)) {now : ℤ} {w : FilterAudit.Emitted}
    (hw : w ∈ (s.audit.takeFinished tip floor now giveUpSecs).2)
    (hfinal : w.2.toCourse.Final tip floor) {i : Fin n} {conn : ℕ} (hkey : w.1 = (i.val, conn)) :
    s.reg.rotating i = true ∧ conn < s.connections i ∧ (i.val, conn) ∉ s.gone log ∧
      ¬ s.reg.Holds i conn := by
  obtain ⟨c, hc, hended, hcourse⟩ := FilterAudit.course_of_mem_takeFinished hw
  rw [hkey] at hc
  have hending : s.audit.ending (i.val, conn) = some c.ending :=
    Option.map_eq_some_iff.mpr ⟨c, hc, rfl⟩
  have hfinal : c.Final tip floor := by
    rw [hcourse] at hfinal
    exact hfinal
  refine ⟨(h.known _ (Or.inl (Option.isSome_of_mem hending))).rotating,
    (h.quiet i conn c.ending hending hended).past, fun hgone => ?_,
    h.not_holds_of_final hr hc hended hfinal⟩
  rw [h.apart _ hgone] at hending
  exact Option.some_ne_none _ hending.symm

/-- The worker takes the windows that are finished. -/
theorem Inv.takeFinished (h : s.Inv log) {tip floor : ℕ} (hr : s.reading = some (tip, floor))
    (now : ℤ) :
    let done := s.audit.takeFinished tip floor now giveUpSecs
    ({ s with
        audit := done.1, reading := none, emitting := s.emitting ++ done.2 } :
      RotationSystem n).Inv
      (log ++ (done.2.filter fun w => w.2.toCourse.Final tip floor).map fun w =>
        RotationEvent.released w.1) := by
  intro done
  have hsame : emissions (log ++ (done.2.filter fun w => w.2.toCourse.Final tip floor).map
      fun w => RotationEvent.released w.1) = emissions log := by
    have hreleases := emissions_released log
      ((done.2.filter fun w => w.2.toCourse.Final tip floor).map Prod.fst)
    rwa [List.map_map] at hreleases
  have hending := FilterAudit.ending_takeFinished (a := s.audit) tip floor now giveUpSecs
  have hisSome : ∀ key ∈ done.2.map Prod.fst, (s.audit.ending key).isSome = true :=
    fun key hkey => FilterAudit.isSome_ending_of_mem_takeFinished hkey
  have hold : ∀ key, ∀ e ∈ done.1.ending key, e ∈ s.audit.ending key := by
    intro key e he
    rw [Option.mem_def, hending] at he
    split at he
    · exact absurd he (Option.not_mem_none e)
    · exact he
  -- what is gone now is what was gone before and the windows handed over
  have hperm : (RotationSystem.gone { s with
      audit := done.1, reading := none, emitting := s.emitting ++ done.2 }
      (log ++ (done.2.filter fun w => w.2.toCourse.Final tip floor).map fun w =>
        RotationEvent.released w.1)).Perm (s.gone log ++ done.2.map Prod.fst) := by
    rw [gone, hsame]
    exact gone_perm s.emitting done.2 log
  exact {
    traces := h.traces
    counted := by
      intro i hi conn
      rw [taken, hsame]
      exact h.counted i hi conn
    rotates := h.rotates
    known := by
      rintro key (hkey | hkey)
      · obtain ⟨e, he⟩ := Option.isSome_iff_exists.mp hkey
        exact h.known key (Or.inl (Option.isSome_of_mem (hold key e he)))
      · rcases List.mem_append.mp (hperm.mem_iff.mp hkey) with hbefore | hnow
        · exact h.known key (Or.inr hbefore)
        · exact h.known key (Or.inl (hisSome key hnow))
    distinct := by
      refine hperm.nodup_iff.mpr (List.Nodup.append h.distinct
        (FilterAudit.nodup_takeFinished tip floor now giveUpSecs) fun key hbefore hnow => ?_)
      have hsome := hisSome key hnow
      rw [h.apart key hbefore] at hsome
      exact absurd hsome Bool.noConfusion
    apart := by
      intro key hkey
      refine (hending key).trans ?_
      rcases List.mem_append.mp (hperm.mem_iff.mp hkey) with hbefore | hnow
      · rw [h.apart key hbefore, ite_self]
      · exact if_pos hnow
    floor := h.floor
    reading := fun r hr => absurd hr (Option.not_mem_none r)
    closing := h.closing
    quiet := fun i conn e he hended => { h.quiet i conn e (hold _ e he) hended with }
    done := by
      intro i conn hreleased
      rcases List.mem_append.mp hreleased with hbefore | hnow
      · have hdone := h.done i conn hbefore
        exact
          { hdone with
            gone := hperm.mem_iff.mpr (List.mem_append_left _ hdone.gone)
            latency := by
              rw [hsame]
              exact hdone.latency }
      -- released in this step: the window was final, so the registry holds none of its signatures
      · obtain ⟨w, hw, hreleased⟩ := List.mem_map.mp hnow
        have hkey : w.1 = (i.val, conn) := RotationEvent.released.inj hreleased
        obtain ⟨hw, hfinal⟩ := List.mem_filter.mp hw
        obtain ⟨hrotating, hpast, hgone, hnone⟩ :=
          h.done_of_takeFinished hr hw (of_decide_eq_true hfinal) hkey
        have hmem : (i.val, conn) ∈ done.2.map Prod.fst := hkey ▸ List.mem_map_of_mem hw
        exact
          { rotating := hrotating
            past := hpast
            gone := hperm.mem_iff.mpr (List.mem_append_right _ hmem)
            noneLeft := hnone
            latency := by
              rw [hsame]
              exact fun hemitted => absurd (List.mem_append_right _ hemitted) hgone } }

/-- The worker emits a window, with the latency that the registry has of it. -/
theorem Inv.emit (h : s.Inv log) {w : FilterAudit.Emitted} {rest : List FilterAudit.Emitted}
    (hemitting : s.emitting = w :: rest) :
    ({ s with reg := (s.reg.takeWindowLatency w.1).1, emitting := rest } : RotationSystem n).Inv
      (log ++ [.emitted w.1 (s.reg.takeWindowLatency w.1).2]) := by
  have hemissions : emissions (log ++ [.emitted w.1 (s.reg.takeWindowLatency w.1).2]) =
      emissions log ++ [(w.1, s.reg.contestedIn w.1)] := by
    rw [emissions, List.filterMap_append]
    rfl
  have hlookup : ∀ key, (s.reg.takeWindowLatency w.1).1.windowLatency.lookup key =
      if key = w.1 then none else s.reg.windowLatency.lookup key := by
    intro key
    rw [SigRegistry.takeWindowLatency]
    split
    · rename_i hkey
      rw [hkey]
      exact AList.lookup_erase _ _
    · rename_i hkey
      exact AList.lookup_erase_ne hkey
  have hperm : (RotationSystem.gone
      { s with reg := (s.reg.takeWindowLatency w.1).1, emitting := rest }
      (log ++ [.emitted w.1 (s.reg.takeWindowLatency w.1).2])).Perm (s.gone log) := by
    rw [gone, gone, hemissions, hemitting, List.map_append, ← List.append_assoc]
    exact List.perm_append_singleton _ _
  have hreleased : ∀ key, RotationEvent.released key ∈
      log ++ [RotationEvent.emitted w.1 (s.reg.takeWindowLatency w.1).2] →
      RotationEvent.released key ∈ log := by
    intro key hkey
    rcases List.mem_append.mp hkey with hbefore | hnow
    · exact hbefore
    · exact RotationEvent.noConfusion (List.mem_singleton.mp hnow)
  obtain ⟨handed, htraces⟩ := h.traces
  exact {
    traces := ⟨handed, { htraces with }⟩
    counted := by
      intro i hi conn
      have hcounted := h.counted i hi conn
      -- what the window has contested moves from the registry to the log
      have hmoved : SigRegistry.contestedIn (s.reg.takeWindowLatency w.1).1 (i.val, conn) +
          taken (i.val, conn) (log ++ [.emitted w.1 (s.reg.takeWindowLatency w.1).2]) =
            s.reg.contestedIn (i.val, conn) + taken (i.val, conn) log := by
        rw [SigRegistry.contestedIn, hlookup, taken, hemissions, List.filter_append,
          List.map_append, List.sum_append, ← taken]
        by_cases hkey : (i.val, conn) = w.1
        · rw [if_pos hkey, List.filter_cons_of_pos (by simp [hkey]), List.filter_nil, hkey]
          simp [Nat.add_comm]
        · rw [if_neg hkey, List.filter_cons_of_neg (by simpa using fun h => hkey h.symm),
            List.filter_nil]
          rfl
      exact hmoved.trans hcounted
    rotates := h.rotates
    known := fun key hkey => h.known key (hkey.imp_right hperm.mem_iff.mp)
    distinct := hperm.nodup_iff.mpr h.distinct
    apart := fun key hkey => h.apart key (hperm.mem_iff.mp hkey)
    floor := h.floor
    reading := h.reading
    closing := h.closing
    quiet := fun i conn e he hended => { h.quiet i conn e he hended with }
    done := by
      intro i conn hafter
      have hdone := h.done i conn (hreleased _ hafter)
      exact
        { hdone with
          gone := hperm.mem_iff.mpr hdone.gone
          latency := by
            intro hemitted
            refine (hlookup _).trans ?_
            split
            · rfl
            · rename_i hkey
              rw [hemissions, List.map_append] at hemitted
              rcases List.mem_append.mp hemitted with hbefore | hnow
              · exact hdone.latency hbefore
              · exact absurd (List.mem_singleton.mp hnow) hkey } }

/-- The worker takes all windows when it is shut down, after the last rows are retired. -/
theorem Inv.shutdown (h : s.Inv log) (hreading : s.reading = none) (order : HashOrder) :
    ({ s.call (.finalize order true) with
        audit := s.audit.takeAll.1
        emitting := s.emitting ++ s.audit.takeAll.2
        stopped := true } : RotationSystem n).Inv log := by
  have hrotating : (s.reg.finalize order true).rotating = s.reg.rotating :=
    SigRegistry.rotating_finalize _ _ _
  have hperm : (RotationSystem.gone { s.call (.finalize order true) with
      audit := s.audit.takeAll.1
      emitting := s.emitting ++ s.audit.takeAll.2
      stopped := true } log).Perm (s.gone log ++ s.audit.windows.keys) := by
    rw [← FilterAudit.keys_takeAll]
    exact gone_perm s.emitting s.audit.takeAll.2 log
  obtain ⟨handed, htraces⟩ := h.traces
  exact {
    traces := ⟨handed, htraces.finalize order true⟩
    counted := h.counted_finalize order true
    rotates := fun i hi => (congrFun hrotating i).trans (h.rotates i hi)
    known := by
      have hbefore : ∀ key, (s.audit.ending key).isSome = true ∨ key ∈ s.gone log → s.Knows key :=
        h.known
      intro key hkey
      have hknown : s.Knows key := by
        rcases hkey with hsome | hgone
        · have hnone : s.audit.takeAll.1.ending key = none := FilterAudit.ending_takeAll key
          exact absurd (hsome.symm.trans (congrArg Option.isSome hnone)) Bool.noConfusion
        · rcases List.mem_append.mp (hperm.mem_iff.mp hgone) with hold | hnow
          · exact hbefore key (Or.inr hold)
          · exact hbefore key (Or.inl (FilterAudit.isSome_ending_iff.mpr hnow))
      obtain ⟨i, hi, hrot, hle, hidle⟩ := hknown
      exact ⟨i, hi, (congrFun hrotating i).trans hrot, hle, hidle⟩
    distinct := by
      refine hperm.nodup_iff.mpr (List.Nodup.append h.distinct (AList.keys_nodup _) ?_)
      intro key hbefore hnow
      have hsome := FilterAudit.isSome_ending_iff.mpr hnow
      rw [h.apart key hbefore] at hsome
      exact absurd hsome Bool.noConfusion
    apart := fun key _ => FilterAudit.ending_takeAll key
    floor := fun hrunning => absurd hrunning Bool.noConfusion
    reading := by
      intro r hr
      exact absurd (hreading.symm.trans hr) (Option.some_ne_none r).symm
    -- what waits for the finalized floor is not promised any more
    closing := fun _ _ _ hrunning => absurd hrunning Bool.noConfusion
    quiet := by
      intro i conn e he
      have hnone : s.audit.takeAll.1.ending (i.val, conn) = none := FilterAudit.ending_takeAll _
      exact absurd (hnone.symm.trans he) (Option.some_ne_none e).symm
    done := by
      intro i conn hreleased
      have hdone := h.done i conn hreleased
      exact
        { rotating := (congrFun hrotating i).trans hdone.rotating
          past := hdone.past
          gone := hperm.mem_iff.mpr (List.mem_append_left _ hdone.gone)
          noneLeft := fun hafter => hdone.noneLeft (holds_of_finalize hafter)
          latency := fun hemitted =>
            (SigRegistry.windowLatency_finalize order true hdone.rotating hdone.noneLeft).trans
              (hdone.latency hemitted) } }

end RotationSystem

end ShredTools.Audit
