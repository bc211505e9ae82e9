import Mathlib.Data.List.Basic
import Mathlib.Data.Nat.Notation

/-!
# Doing a thing over and over

Two ways to do a thing over and over when doing it once may fail, with the rule for each by which
proofs go from once to many times.

The body of a loop takes the variables of the loop and stops the program, goes on with new values of
them, or leaves the loop with a result; `Loop.run` makes so many turns of it.  An invariant that
every turn keeps, while a number goes down, gives that enough turns leave the loop with a result,
and that none of them stops the program (`Loop.run_of_variant`).

A generator hands out a value and goes over to its next state, or fails; `draws` takes so many
values.  A generator that comes back to a state of the same kind after every `n` draws never fails,
and what it is known to hand out in one block of `n` draws it hands out in every block
(`exists_block`).
-/

/-! ### Loops -/

namespace Loop

/-- How a turn of a loop ends, if the program does not stop. -/
inductive Turn (σ ρ : Type*)
  /-- With the variables of the next turn. -/
  | again (s : σ)
  /-- With the result of the loop. -/
  | done (r : ρ)
  deriving DecidableEq

variable {σ ρ : Type*}

/-- A number of turns of a loop, or fewer if it is left before. -/
def run (body : σ → Option (Turn σ ρ)) : ℕ → σ → Option (Turn σ ρ)
  | 0, s => some (.again s)
  | turns + 1, s =>
    (body s).bind fun
      | .again s => run body turns s
      | .done r => some (.done r)

variable {body : σ → Option (Turn σ ρ)}

lemma run_succ_again {s s' : σ} (h : body s = some (.again s')) (turns : ℕ) :
    run body (turns + 1) s = run body turns s' := by
  rw [run, h, Option.bind_some]

lemma run_succ_done {s : σ} {r : ρ} (h : body s = some (.done r)) (turns : ℕ) :
    run body (turns + 1) s = some (.done r) := by
  rw [run, h, Option.bind_some]

/-- **Rule of total correctness.**  If every turn under the invariant keeps it and brings the
variant down, or leaves the loop with a result that meets the postcondition, then as many turns as
the variant says, and one more, leave the loop with such a result. -/
theorem run_of_variant (Inv : σ → Prop) (Post : ρ → Prop) (variant : σ → ℕ)
    (turn : ∀ s, Inv s →
      (∃ s', body s = some (.again s') ∧ Inv s' ∧ variant s' < variant s) ∨
        ∃ r, body s = some (.done r) ∧ Post r)
    {turns : ℕ} {s : σ} (hs : Inv s) (hturns : variant s < turns) :
    ∃ r, run body turns s = some (.done r) ∧ Post r := by
  induction turns generalizing s with
  | zero => exact absurd hturns (Nat.not_lt_zero _)
  | succ turns ih =>
    rcases turn s hs with ⟨s', hbody, hs', hless⟩ | ⟨r, hbody, hr⟩
    · rw [run_succ_again hbody]
      exact ih hs' (Nat.lt_of_lt_of_le hless (Nat.le_of_lt_succ hturns))
    · exact ⟨r, run_succ_done hbody turns, hr⟩

end Loop

/-! ### Draws -/

namespace ShredTools

universe u v

variable {σ : Type u} {α : Type v}

/-- What `n` draws in a row hand out, with the state after them. -/
def draws (next : σ → Option (α × σ)) : ℕ → σ → Option (List α × σ)
  | 0, s => some ([], s)
  | n + 1, s =>
    (next s).bind fun first => (draws next n first.2).map fun rest => (first.1 :: rest.1, rest.2)

variable {next : σ → Option (α × σ)}

/-- Draws that start with one that succeeds. -/
theorem draws_succ_of_next {n : ℕ} {s s' : σ} {a : α} (h : next s = some (a, s')) :
    draws next (n + 1) s = (draws next n s').map fun rest => (a :: rest.1, rest.2) := by
  rw [draws, h, Option.bind_some]

/-- Draws go on from where those before them ended. -/
lemma draws_add {m n : ℕ} {s s' s'' : σ} {before after : List α}
    (hm : draws next m s = some (before, s')) (hn : draws next n s' = some (after, s'')) :
    draws next (m + n) s = some (before ++ after, s'') := by
  induction m generalizing s before with
  | zero =>
    rw [draws, Option.some.injEq, Prod.mk.injEq] at hm
    obtain ⟨rfl, rfl⟩ := hm
    rw [Nat.zero_add, hn, List.nil_append]
  | succ m ih =>
    rw [draws, Option.bind_eq_some_iff] at hm
    obtain ⟨⟨a, t⟩, hnext, hrest⟩ := hm
    rw [Option.map_eq_some_iff] at hrest
    obtain ⟨⟨rest, t'⟩, hdraws, heq⟩ := hrest
    rw [Prod.mk.injEq] at heq
    obtain ⟨rfl, rfl⟩ := heq
    rw [Nat.succ_add, draws_succ_of_next hnext, ih hdraws, Option.map_some, List.cons_append]

/-- **Every block is as one block is**: if `n` draws from a state of the kind `I` succeed with
values that satisfy `P` and come back to the kind `I`, then so do the `n` draws after any number of
blocks. -/
theorem exists_block {I : σ → Prop} {P : List α → Prop} {n : ℕ}
    (hblock : ∀ s, I s → ∃ block s', draws next n s = some (block, s') ∧ P block ∧ I s')
    {s : σ} (hs : I s) (k : ℕ) :
    ∃ before s' block s'', draws next (k * n) s = some (before, s') ∧
      draws next n s' = some (block, s'') ∧ P block := by
  have hreach : ∃ before s', draws next (k * n) s = some (before, s') ∧ I s' := by
    induction k with
    | zero => exact ⟨[], s, by rw [Nat.zero_mul, draws], hs⟩
    | succ k ih =>
      obtain ⟨before, s', hbefore, hs'⟩ := ih
      obtain ⟨block, s'', hdraws, -, hs''⟩ := hblock s' hs'
      refine ⟨before ++ block, s'', ?_, hs''⟩
      rw [Nat.succ_mul]
      exact draws_add hbefore hdraws
  obtain ⟨before, s', hbefore, hs'⟩ := hreach
  obtain ⟨block, s'', hdraws, hP, -⟩ := hblock s' hs'
  exact ⟨before, s', block, s'', hbefore, hdraws, hP⟩

end ShredTools
