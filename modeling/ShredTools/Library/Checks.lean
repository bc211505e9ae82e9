import Mathlib.Data.List.Forall2
import Mathlib.Data.Option.Basic

/-!
# Computations that may fail

A computation of `Except` succeeds exactly if each of its steps does.  With these rules a chain of
checks is read off its success, one step at a time, and the pass over a list element by element
(`mapM_eq_ok_iff`).  A pass with `Option` reads off in the same way (`List.mapM_eq_some_iff`).

The rules are equivalences, so that they serve in both directions: to show that a computation
succeeds, and to find out what its success says.  `failIf` is a check with the error that it raises.
A fold that fails has an element at which it does, after those at which it did not
(`exists_foldlM_eq_error`).
-/

namespace Except

universe u v

variable {ε : Type u} {α β : Type v}

/-- A sequence succeeds if its first step does, and the rest with the value of the first. -/
theorem bind_eq_ok_iff {x : Except ε α} {f : α → Except ε β} {b : β} :
    (x >>= f) = .ok b ↔ ∃ a, x = .ok a ∧ f a = .ok b := by
  cases x with
  | error e => simp [bind, Except.bind]
  | ok a => simp [bind, Except.bind]

/-- A step that succeeds passes its value on. -/
@[simp] theorem ok_bind (a : α) (f : α → Except ε β) : (.ok a >>= f) = f a := rfl

/-- A step that fails ends the sequence. -/
@[simp] theorem error_bind (e : ε) (f : α → Except ε β) : (.error e >>= f) = .error e := rfl

@[simp] theorem pure_eq_ok_iff {a b : α} : (pure a : Except ε α) = .ok b ↔ a = b := by
  simp [pure, Except.pure]

@[simp] lemma throw_ne_ok {e : ε} {a : α} : (throw e : Except ε α) ≠ .ok a := by
  simp [throw, throwThe, MonadExceptOf.throw]

/-- Fail with `e` if the condition holds. -/
def failIf (c : Prop) [Decidable c] (e : ε) : Except ε Unit := if c then .error e else .ok ()

/-- A check passes if its condition does not hold. -/
@[simp] theorem failIf_eq_ok_iff {c : Prop} [Decidable c] {e : ε} {u : Unit} :
    failIf c e = .ok u ↔ ¬ c := by
  unfold failIf
  by_cases hc : c <;> simp [hc]

/-- Rewriting the error keeps what succeeds. -/
@[simp] theorem mapError_eq_ok_iff {ε' : Type u} {f : ε → ε'} {x : Except ε α} {a : α} :
    x.mapError f = .ok a ↔ x = .ok a := by
  cases x <;> simp [Except.mapError]

/-- A list passes element by element. -/
theorem mapM_eq_ok_iff {f : α → Except ε β} {as : List α} {bs : List β} :
    as.mapM f = .ok bs ↔ List.Forall₂ (fun a b => f a = .ok b) as bs := by
  induction as generalizing bs with
  | nil =>
    rw [List.mapM_nil, pure_eq_ok_iff, List.forall₂_nil_left_iff]
    exact eq_comm
  | cons a as ih =>
    rw [List.mapM_cons, List.forall₂_cons_left_iff]
    simp only [bind_eq_ok_iff, pure_eq_ok_iff, ih]
    constructor
    · rintro ⟨b, hb, bs', hbs, rfl⟩
      exact ⟨b, bs', hb, hbs, rfl⟩
    · rintro ⟨b, bs', hb, hbs, rfl⟩
      exact ⟨b, hb, bs', hbs, rfl⟩

/-- A list that is made of another passes as the other if each of its elements does. -/
theorem mapM_map_eq_ok {f : α → Except ε β} {g : β → α} {bs : List β}
    (h : ∀ b ∈ bs, f (g b) = .ok b) : (bs.map g).mapM f = .ok bs := by
  refine mapM_eq_ok_iff.mpr (List.forall₂_map_left_iff.mpr ?_)
  exact List.forall₂_same.mpr h

/-- A list passes if each of its elements does. -/
theorem exists_mapM_eq_ok {f : α → Except ε β} {as : List α} (h : ∀ a ∈ as, ∃ b, f a = .ok b) :
    ∃ bs, as.mapM f = .ok bs := by
  induction as with
  | nil => exact ⟨[], rfl⟩
  | cons a as ih =>
    obtain ⟨b, hb⟩ := h a List.mem_cons_self
    obtain ⟨bs, hbs⟩ := ih fun a ha => h a (List.mem_cons_of_mem _ ha)
    exact ⟨b :: bs, mapM_eq_ok_iff.mpr (.cons hb (mapM_eq_ok_iff.mp hbs))⟩

/-- A loop fails if the step for one of the elements does, whatever came before. -/
theorem exists_foldlM_eq_error {f : β → α → Except ε β} {as : List α} {a : α} (ha : a ∈ as)
    (h : ∀ b, ∃ e, f b a = .error e) (b : β) : ∃ e, as.foldlM f b = .error e := by
  induction as generalizing b with
  | nil => cases ha
  | cons first as ih =>
    rw [List.foldlM_cons]
    cases hfirst : f b first with
    | error e => exact ⟨e, rfl⟩
    | ok b' =>
      rcases List.mem_cons.mp ha with rfl | ha
      · obtain ⟨e, he⟩ := h b
        rw [hfirst] at he
        cases he
      · exact ih ha b'

/-- A check of every element passes if it passes for each. -/
theorem forM_eq_ok_iff {f : α → Except ε PUnit} {as : List α} {u : PUnit} :
    as.forM f = .ok u ↔ ∀ a ∈ as, f a = .ok ⟨⟩ := by
  induction as with
  | nil => simp [List.forM]
  | cons a as ih =>
    rw [List.forM, List.forall_mem_cons, ← ih, bind_eq_ok_iff]
    constructor
    · rintro ⟨u', ha, has⟩
      exact ⟨ha, has⟩
    · rintro ⟨ha, has⟩
      exact ⟨⟨⟩, ha, has⟩

end Except

namespace List

universe u v w

variable {α : Type u} {β : Type v} {γ : Type w}

/-- A pass over a list gives what each element gives. -/
theorem mapM_eq_some_iff {f : α → Option β} {l : List α} {l' : List β} :
    l.mapM f = some l' ↔ l.map f = l'.map some := by
  induction l generalizing l' with
  | nil => cases l' <;> simp
  | cons a l ih =>
    rw [mapM_cons, map_cons]
    cases f a with
    | none => cases l' <;> simp
    | some b =>
      cases hrest : l.mapM f with
      | none =>
        have hnot : ∀ l' : List β, l.map f ≠ l'.map some := fun l' heq => by
          rw [ih.mpr heq] at hrest
          cases hrest
        cases l' <;> simp [hnot]
      | some bs =>
        have hbs := ih.mp hrest
        rw [hbs, ← map_cons, (map_injective_iff.mpr (Option.some_injective β)).eq_iff]
        exact Option.some_inj

/-- Where all are there, mapping them is mapping those that are there. -/
theorem map_eq_map_filterMap (g : β → γ) {f : α → Option β} {l : List α}
    (h : ∀ a ∈ l, (f a).isSome = true) :
    l.map (fun a => (f a).map g) = ((l.filterMap f).map g).map some := by
  induction l with
  | nil => rfl
  | cons a l ih =>
    obtain ⟨b, hb⟩ := Option.isSome_iff_exists.mp (h a mem_cons_self)
    rw [map_cons, ih fun a' ha' => h a' (mem_cons_of_mem _ ha'),
      filterMap_cons_some hb, map_cons, map_cons, hb, Option.map_some]

end List
