import Mathlib.Data.List.Basic
import Mathlib.Order.Lattice

/-!
# Paging backwards through a growing log

A log whose entries have ascending keys is read newest first, a page at a time.  Each page asks for
the entries below the key of the last entry that the page before it had.  `unread` is what a page
is taken from, and `unread_next` says that a page and what is left after it are all that was there,
also when the log has grown in the meantime.

Nothing is said of how long a page is, and the log may grow by any entries with greater keys between
two pages.  What was unread before the first page is everything (`unread_none`), and a page is read
newest first (`descending_unread`); the induction over the pages is left to whoever defines how they
are asked for.
-/

namespace Paging

variable {α ι : Type*} [LinearOrder ι] (key : α → ι) (counts : α → Bool)

/-- The keys of a log ascend. -/
def Ascending (log : List α) : Prop := log.Pairwise fun a b => key a < key b

/-- The entries that count and lie below a bound, if there is one, the newest first. -/
def unread (bound : Option ι) (log : List α) : List α :=
  log.reverse.filter fun a => counts a && bound.all fun b => decide (key a < b)

variable {key counts}

/-- One more entry keeps the keys ascending if it is above the last one. -/
theorem Ascending.concat {log : List α} {a : α} (h : Ascending key log)
    (hlast : ∀ last, log.getLast? = some last → key last < key a) :
    Ascending key (log ++ [a]) := by
  refine List.pairwise_append.mpr ⟨h, List.pairwise_singleton _ _, ?_⟩
  intro b hb c hc
  rw [List.mem_singleton.mp hc]
  rcases List.eq_nil_or_concat' log with rfl | ⟨init, last, rfl⟩
  · exact absurd hb List.not_mem_nil
  · have hlt := hlast last List.getLast?_concat
    rcases List.mem_append.mp hb with hb | hb
    · exact ((List.pairwise_append.mp h).2.2 b hb last (List.mem_singleton_self _)).trans hlt
    · rw [List.mem_singleton.mp hb]
      exact hlt

/-- Without a bound, everything that counts is unread. -/
theorem unread_none (log : List α) : unread key counts none log = (log.filter counts).reverse := by
  simp [unread, List.filter_reverse]

/-- What is unread comes newest first. -/
theorem descending_unread (counts : α → Bool) {log : List α} (h : Ascending key log)
    (bound : Option ι) : (unread key counts bound log).Pairwise fun a b => key b < key a :=
  (List.pairwise_reverse.mpr h).filter _

/-- What is unread is in the log and below the bound. -/
lemma mem_unread {bound : Option ι} {log : List α} {a : α} (h : a ∈ unread key counts bound log) :
    a ∈ log ∧ ∀ b, bound = some b → key a < b := by
  obtain ⟨hmem, htest⟩ := List.mem_filter.mp h
  refine ⟨List.mem_reverse.mp hmem, ?_⟩
  intro b hb
  rw [hb] at htest
  simpa using (Bool.and_eq_true_iff.mp htest).2

/-- Below a key that was unread itself, there is what was unread and lies below it. -/
lemma unread_some {bound : Option ι} {log : List α} {last : α}
    (h : last ∈ unread key counts bound log) :
    unread key counts (some (key last)) log =
      (unread key counts bound log).filter fun a => decide (key a < key last) := by
  unfold unread
  rw [List.filter_filter]
  apply List.filter_congr
  intro a _
  by_cases hlt : key a < key last
  · have hbound : (bound.all fun b => decide (key a < b)) = true := by
      cases hb : bound with
      | none => rfl
      | some b => exact decide_eq_true (hlt.trans ((mem_unread h).2 b hb))
    simp [hlt, hbound]
  · simp [hlt]

/-- **Step.**  After a page that was not empty, what is unread in the grown log is what was unread
and not on the page. -/
theorem unread_next {bound : Option ι} {log more : List α} {n : ℕ} {last : α}
    (h : Ascending key (log ++ more))
    (hlast : ((unread key counts bound log).take n).getLast? = some last) :
    unread key counts (some (key last)) (log ++ more) = (unread key counts bound log).drop n := by
  obtain ⟨hlog, -, hmore⟩ := List.pairwise_append.mp h
  obtain ⟨init, hpage⟩ := List.getLast?_eq_some_iff.mp hlast
  have hsplit : unread key counts bound log =
      init ++ [last] ++ (unread key counts bound log).drop n := by
    rw [← hpage, List.take_append_drop]
  have hmem : last ∈ unread key counts bound log := by
    rw [hsplit]
    simp
  -- what the log has got since then is above the page
  have hnew : unread key counts (some (key last)) (log ++ more) =
      unread key counts (some (key last)) log := by
    have hnil : unread key counts (some (key last)) more = [] := by
      rw [List.eq_nil_iff_forall_not_mem]
      intro a ha
      obtain ⟨hin, hlt⟩ := mem_unread ha
      exact lt_asymm (hlt _ rfl) (hmore last (mem_unread hmem).1 a hin)
    unfold unread at hnil ⊢
    rw [List.reverse_append, List.filter_append, hnil, List.nil_append]
  have hdesc := descending_unread counts hlog bound
  rw [hsplit, List.append_assoc, List.pairwise_append, List.pairwise_append] at hdesc
  obtain ⟨-, ⟨-, -, hbelow⟩, habove⟩ := hdesc
  rw [hnew, unread_some hmem]
  generalize (unread key counts bound log).drop n = rest at hsplit hbelow habove ⊢
  have hinit : init.filter (fun a => decide (key a < key last)) = [] := by
    rw [List.filter_eq_nil_iff]
    intro a ha
    have hlt := habove a ha last (List.mem_append_left _ (List.mem_singleton_self _))
    simpa using hlt.le
  have hrest : rest.filter (fun a => decide (key a < key last)) = rest := by
    rw [List.filter_eq_self]
    intro a ha
    exact decide_eq_true (hbelow last (List.mem_singleton_self _) a ha)
  rw [hsplit, List.filter_append, List.filter_append, hinit, hrest]
  simp

end Paging
