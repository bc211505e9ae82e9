import Mathlib.Data.List.Basic
import Mathlib.Data.List.Induction

/-!
# Runs of a step function with outputs

A machine is a step function `σ → ε → σ × ο`: from a state and an event it gives the next state
and an output.  `finalState` and `outputs` run it along a list of events.  The rules that
proofs about runs use are `run_induction` (a property of the history, the state reached and the
outputs so far that every step preserves holds along every run), `log_induction` (the same for a
property of the state, the events to come and a log of the outputs), `run_project` (a part of the
machine that the other events leave alone makes the run of its own events) and the splitting lemmas
for a run cut in two.  `List.exists_split_concat` finds a place in a history with one more event,
`List.Along` is a condition on each event of a history, and `List.foldl_project` follows one part of
the state through a loop that seldom touches it.
-/

/-- A place in a list with one more element is a place in the list, or the new last one. -/
theorem List.exists_split_concat {α : Type*} {P : List α → α → Prop} (l : List α) (a : α) :
    (∃ before x later, l ++ [a] = before ++ x :: later ∧ P before x) ↔
      (∃ before x later, l = before ++ x :: later ∧ P before x) ∨ P l a := by
  constructor
  · intro ⟨before, x, later, hsplit, hP⟩
    rcases List.eq_nil_or_concat' later with rfl | ⟨init, last, rfl⟩
    · obtain ⟨rfl, hx⟩ := List.append_inj' hsplit rfl
      rw [← List.singleton_inj.mp hx] at hP
      exact Or.inr hP
    · rw [← List.cons_append, ← List.append_assoc] at hsplit
      obtain ⟨rfl, -⟩ := List.append_inj' hsplit rfl
      exact Or.inl ⟨before, x, init, rfl, hP⟩
  · intro h
    rcases h with ⟨before, x, later, rfl, hP⟩ | hP
    · exact ⟨before, x, later ++ [a], by simp, hP⟩
    · exact ⟨l, a, [], rfl, hP⟩

/-- Every element of a list meets a condition, in view of those before it. -/
def List.Along {α : Type*} (P : List α → α → Prop) (l : List α) : Prop :=
  ∀ before a after, l = before ++ a :: after → P before a

theorem List.along_nil {α : Type*} (P : List α → α → Prop) : ([] : List α).Along P := by
  intro before a after h
  cases before <;> cases h

theorem List.along_singleton {α : Type*} {P : List α → α → Prop} {a : α} (h : P [] a) :
    [a].Along P := by
  intro before b after hsplit
  cases before with
  | nil =>
    cases hsplit
    exact h
  | cons c before =>
    have hlen := congrArg List.length hsplit
    simp at hlen

/-- The condition holds along a longer list if it does along both parts. -/
theorem List.Along.append {α : Type*} {P : List α → α → Prop} {l l' : List α} (h : l.Along P)
    (h' : l'.Along fun before => P (l ++ before)) : (l ++ l').Along P := by
  intro before a after hsplit
  rcases List.append_eq_append_iff.mp hsplit.symm with ⟨mid, hl, hmid⟩ | ⟨mid, rfl, hmid⟩
  · cases mid with
    | nil =>
      rw [List.append_nil] at hl
      rw [← hl, ← List.append_nil l]
      exact h' [] a after hmid.symm
    | cons b mid =>
      obtain ⟨rfl, -⟩ := List.cons.inj hmid
      exact h before a mid hl
  · exact h' mid a after hmid

/-- What holds along a list holds along its first part. -/
theorem List.Along.left {α : Type*} {P : List α → α → Prop} {l l' : List α}
    (h : (l ++ l').Along P) : l.Along P := by
  intro before a after hsplit
  refine h before a (after ++ l') ?_
  rw [hsplit, List.append_assoc, List.cons_append]

/-- A condition on the elements alone, wherever they are. -/
theorem List.along_of_forall {α : Type*} {P : List α → α → Prop} {l : List α}
    (h : ∀ a ∈ l, ∀ before, P before a) : l.Along P := by
  intro before a after hsplit
  refine h a ?_ before
  rw [hsplit]
  exact List.mem_append_right _ List.mem_cons_self

/-- What a loop makes of one part of its state, if that part changes with some elements only, and
depends on nothing but itself and what the loop leaves alone. -/
theorem List.foldl_project {σ α β : Type*} (f : σ → α → σ) (part : σ → β) (concerns : α → Prop)
    [DecidablePred concerns] (g : β → α → β) (Inv : σ → Prop)
    (hinv : ∀ s x, Inv s → Inv (f s x))
    (hpart : ∀ s x, Inv s → part (f s x) = if concerns x then g (part s) x else part s)
    (l : List α) {s : σ} (hs : Inv s) :
    part (l.foldl f s) = (l.filter fun x => concerns x).foldl g (part s) := by
  induction l generalizing s with
  | nil => rfl
  | cons x l ih =>
    rw [List.foldl_cons, ih (hinv s x hs), hpart s x hs]
    by_cases hx : concerns x
    · rw [if_pos hx, List.filter_cons_of_pos (by simpa using hx), List.foldl_cons]
    · rw [if_neg hx, List.filter_cons_of_neg (by simpa using hx)]

namespace Machine

variable {σ ε ο : Type*}

/-- The state reached from `s` by the events `es`. -/
def finalState (step : σ → ε → σ × ο) : σ → List ε → σ
  | s, [] => s
  | s, e :: es => finalState step (step s e).1 es

/-- The outputs of the run from `s` along `es`, one for each event. -/
def outputs (step : σ → ε → σ × ο) : σ → List ε → List ο
  | _, [] => []
  | s, e :: es => (step s e).2 :: outputs step (step s e).1 es

variable (step : σ → ε → σ × ο)

@[simp] theorem finalState_nil (s : σ) : finalState step s [] = s := rfl

@[simp] theorem finalState_cons (s : σ) (e : ε) (es : List ε) :
    finalState step s (e :: es) = finalState step (step s e).1 es := rfl

@[simp] theorem outputs_nil (s : σ) : outputs step s [] = [] := rfl

@[simp] theorem outputs_cons (s : σ) (e : ε) (es : List ε) :
    outputs step s (e :: es) = (step s e).2 :: outputs step (step s e).1 es := rfl

/-- A run along a concatenation continues from the state reached by the first part. -/
lemma finalState_append (s : σ) (es es' : List ε) :
    finalState step s (es ++ es') = finalState step (finalState step s es) es' := by
  induction es generalizing s with
  | nil => rfl
  | cons e es ih => exact ih _

/-- The outputs along a concatenation are those of the two parts. -/
theorem outputs_append (s : σ) (es es' : List ε) :
    outputs step s (es ++ es') =
      outputs step s es ++ outputs step (finalState step s es) es' := by
  induction es generalizing s with
  | nil => rfl
  | cons e es ih =>
    rw [List.cons_append, outputs_cons, ih, outputs_cons, finalState_cons, List.cons_append]

/-- One more event is one more step. -/
theorem finalState_concat (s : σ) (es : List ε) (e : ε) :
    finalState step s (es ++ [e]) = (step (finalState step s es) e).1 := by
  rw [finalState_append, finalState_cons, finalState_nil]

/-- One more event is one more output. -/
theorem outputs_concat (s : σ) (es : List ε) (e : ε) :
    outputs step s (es ++ [e]) = outputs step s es ++ [(step (finalState step s es) e).2] := by
  rw [outputs_append, outputs_cons, outputs_nil]

/-- Every event has its output. -/
@[simp] lemma length_outputs (s : σ) (es : List ε) : (outputs step s es).length = es.length := by
  induction es generalizing s with
  | nil => rfl
  | cons e es ih => simp [ih]

/-- **Run rule.**  A property of the events so far, the state reached and the outputs so far that
holds at the start and that every step preserves holds along every run. -/
theorem run_induction {P : List ε → σ → List ο → Prop} {s : σ} (start : P [] s [])
    (next : ∀ es e t os, P es t os → P (es ++ [e]) (step t e).1 (os ++ [(step t e).2]))
    (es : List ε) : P es (finalState step s es) (outputs step s es) := by
  induction es using List.reverseRecOn with
  | nil => exact start
  | append_singleton es e ih =>
    rw [finalState_concat, outputs_concat]
    exact next es e _ _ ih

/-- **Projection rule.**  A run seen from one part of the machine.  The events of the part are steps
of a machine of its own, which reports what is visible; the other events leave the part as it is
and report nothing visible.  So the part makes the run of its own events. -/
theorem run_project {τ ρ : Type*} {step : σ → ε → σ × List ρ} {step' : τ → ε → τ × List ρ}
    {sees : σ → τ → Prop} (concerns : ε → Bool) (visible : ρ → Bool) {es : List ε}
    (own : ∀ s t, ∀ e ∈ es, sees s t → concerns e = true →
      sees (step s e).1 (step' t e).1 ∧ (step s e).2.filter visible = (step' t e).2)
    (other : ∀ s t, ∀ e ∈ es, sees s t → concerns e = false →
      sees (step s e).1 t ∧ (step s e).2.filter visible = [])
    {s : σ} {t : τ} (start : sees s t) :
    sees (finalState step s es) (finalState step' t (es.filter concerns)) ∧
      (outputs step s es).flatten.filter visible =
        (outputs step' t (es.filter concerns)).flatten := by
  induction es generalizing s t with
  | nil => exact ⟨start, rfl⟩
  | cons e es ih =>
    have ih' := @ih (fun s t e he => own s t e (List.mem_cons_of_mem _ he))
      (fun s t e he => other s t e (List.mem_cons_of_mem _ he))
    rw [finalState_cons, outputs_cons, List.flatten_cons, List.filter_append]
    cases hconcerns : concerns e with
    | true =>
      obtain ⟨hsees, hvisible⟩ := own s t e List.mem_cons_self start hconcerns
      obtain ⟨hfinal, houtputs⟩ := ih' hsees
      rw [List.filter_cons_of_pos hconcerns, finalState_cons, outputs_cons, List.flatten_cons,
        hvisible, houtputs]
      exact ⟨hfinal, rfl⟩
    | false =>
      obtain ⟨hsees, hvisible⟩ := other s t e List.mem_cons_self start hconcerns
      obtain ⟨hfinal, houtputs⟩ := ih' hsees
      rw [List.filter_cons_of_neg (by simp [hconcerns]), hvisible, List.nil_append]
      exact ⟨hfinal, houtputs⟩

/-- **Log rule.**  A property of the state, the events to come and what was reported so far that
every step preserves holds when the events are over. -/
theorem log_induction {ρ : Type*} (step : σ → ε → σ × List ρ) {P : σ → List ε → List ρ → Prop}
    (next : ∀ s e es log, P s (e :: es) log → P (step s e).1 es (log ++ (step s e).2))
    {s : σ} {es : List ε} {log : List ρ} (start : P s es log) :
    P (finalState step s es) [] (log ++ (outputs step s es).flatten) := by
  induction es generalizing s log with
  | nil =>
    rw [outputs_nil, List.flatten_nil, List.append_nil]
    exact start
  | cons e es ih =>
    rw [outputs_cons, List.flatten_cons, ← List.append_assoc, finalState_cons]
    exact ih (next s e es log start)

end Machine
