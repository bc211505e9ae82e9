import Mathlib.Data.List.Nodup
import Mathlib.Data.List.Perm.Subperm
import Mathlib.Data.List.Range
import Mathlib.Order.Bounds.Basic

/-!
# Segments between consecutive marks

`rangeInclusive a b` lists the numbers `a, …, b`, as an inclusive range of imperative code does.
Given a predicate `P` that marks some numbers as ends, `Segment P a b` says that `a..=b` is one of
the pieces the marks cut the numbers into: it ends at a mark, begins after the mark before it (or
at zero) and has no mark inside.  Segments of one predicate are disjoint or equal, and they are
compared across two predicates that agree inside a segment.  `Segment.Opens` is what a search for
the end of a segment knows of its beginning.  Ascending marks cut off one segment after another
(`mem_cutAt_iff`).
-/

/-- The numbers from `a` to `b`, both included, in ascending order. -/
def rangeInclusive (a b : ℕ) : List ℕ := List.range' a (b + 1 - a)

/-- The members of an inclusive range. -/
@[simp] theorem mem_rangeInclusive {a b i : ℕ} : i ∈ rangeInclusive a b ↔ a ≤ i ∧ i ≤ b := by
  simp only [rangeInclusive, List.mem_range'_1]
  omega

/-- The length of an inclusive range. -/
@[simp] theorem length_rangeInclusive (a b : ℕ) : (rangeInclusive a b).length = b + 1 - a := by
  simp [rangeInclusive]

/-- An inclusive range lists no number twice. -/
theorem nodup_rangeInclusive (a b : ℕ) : (rangeInclusive a b).Nodup := by
  unfold rangeInclusive
  exact List.nodup_range'

/-- As many different numbers below `n` as there are are all of them. -/
theorem List.Nodup.mem_of_length_eq {l : List ℕ} {n : ℕ} (hnodup : l.Nodup) (hlt : ∀ i ∈ l, i < n)
    (hlength : l.length = n) {i : ℕ} (hi : i < n) : i ∈ l := by
  have hsub : l.Subperm (List.range n) := hnodup.subperm fun j hj => List.mem_range.mpr (hlt j hj)
  have hperm := hsub.perm_of_length_le (by rw [List.length_range, hlength])
  exact hperm.mem_iff.mpr (List.mem_range.mpr hi)

/-- The range `a..=b` ends at a mark, begins at zero or after a mark, and has no other mark. -/
structure Segment (P : ℕ → Prop) (a b : ℕ) : Prop where
  /-- The range is not empty. -/
  le : a ≤ b
  /-- The last number is a mark. -/
  ends : P b
  /-- The range begins at zero or right after a mark. -/
  starts : a = 0 ∨ P (a - 1)
  /-- No number before the last one is a mark. -/
  inner : ∀ j, a ≤ j → j < b → ¬ P j

/-- A segment begins at `a`, and it has no mark before `f`. -/
structure Segment.Opens (P : ℕ → Prop) (a f : ℕ) : Prop where
  /-- The search for its end is past its beginning. -/
  le : a ≤ f
  /-- The segment begins at zero or right after a mark. -/
  starts : a = 0 ∨ P (a - 1)
  /-- No number that was searched is a mark. -/
  inner : ∀ j, a ≤ j → j < f → ¬ P j

namespace Segment

variable {P Q : ℕ → Prop} {a b a' b' f i : ℕ}

/-- The mark before a segment lies below every later segment. -/
theorem end_lt_start (h : Segment P a b) (h' : Segment P a' b') (hlt : b < b') : b < a' := by
  by_contra hge
  exact h'.inner b (not_lt.mp hge) hlt h.ends

/-- Two segments with the same end are the same. -/
theorem start_eq (h : Segment P a b) (h' : Segment P a' b) : a = a' := by
  rcases Nat.lt_trichotomy a a' with hlt | heq | hgt
  · rcases h'.starts with h0 | hm
    · omega
    · exact absurd hm (h.inner (a' - 1) (by omega) (by have := h'.le; omega))
  · exact heq
  · rcases h.starts with h0 | hm
    · omega
    · exact absurd hm (h'.inner (a - 1) (by omega) (by have := h.le; omega))

/-- Two segments that share a number are the same. -/
theorem eq_of_mem (h : Segment P a b) (h' : Segment P a' b') (hi : a ≤ i ∧ i ≤ b)
    (hi' : a' ≤ i ∧ i ≤ b') : a = a' ∧ b = b' := by
  rcases Nat.lt_trichotomy b b' with hlt | rfl | hgt
  · have := h.end_lt_start h' hlt
    omega
  · exact ⟨h.start_eq h', rfl⟩
  · have := h'.end_lt_start h hgt
    omega

/-- Where no mark stands below `f`, a segment begins at zero. -/
theorem opens_zero (h : ∀ j < f, ¬ P j) : Opens P 0 f where
  le := Nat.zero_le f
  starts := .inl rfl
  inner j _ hj := h j hj

/-- Otherwise one begins after the last mark below `f`. -/
theorem opens_of_isGreatest {m : ℕ} (h : IsGreatest {j | j < f ∧ P j} m) : Opens P (m + 1) f where
  le := h.1.1
  starts := .inr h.1.2
  inner _ hmj hjf hP := absurd (h.2 ⟨hjf, hP⟩) (not_le.mpr hmj)

/-- After a mark the next segment begins. -/
theorem opens_succ (h : P b) : Opens P (b + 1) (b + 1) where
  le := le_rfl
  starts := .inr h
  inner _ hb hj := absurd hb (not_le.mpr hj)

/-- A segment that opens goes to the next mark. -/
theorem Opens.segment (h : Opens P a f) (hnext : IsLeast {j | f ≤ j ∧ P j} b) : Segment P a b where
  le := h.le.trans hnext.1.1
  ends := hnext.1.2
  starts := h.starts
  inner j hj hlt hP := by
    rcases Nat.lt_or_ge j f with hjf | hfj
    · exact h.inner j hj hjf hP
    · exact absurd (hnext.2 ⟨hfj, hP⟩) (not_le.mpr hlt)

/-- Of the segments that end at `f` or later, the one to the next mark is the first. -/
theorem eq_or_end_lt (h : Segment P a b) (hnext : IsLeast {j | f ≤ j ∧ P j} b)
    (h' : Segment P a' b') (hf : f ≤ b') : (a' = a ∧ b' = b) ∨ b < a' := by
  rcases (hnext.2 ⟨hf, h'.ends⟩).lt_or_eq with hlt | rfl
  · exact Or.inr (h.end_lt_start h' hlt)
  · exact Or.inl ⟨h'.start_eq h, rfl⟩

/-- A segment of `P` is a segment of `Q` when the two agree on the segment and before it. -/
theorem congr (h : Segment P a b) (hpq : ∀ j, a - 1 ≤ j → j ≤ b → (P j ↔ Q j)) :
    Segment Q a b where
  le := h.le
  ends := (hpq b (by have := h.le; omega) le_rfl).mp h.ends
  starts := h.starts.imp id (hpq (a - 1) le_rfl (by have := h.le; omega)).mp
  inner j hj hlt hq := h.inner j hj hlt ((hpq j (by omega) hlt.le).mpr hq)

end Segment

/-- The ranges that end at some marks, the first of which begins at `a`. -/
def cutAt (a : ℕ) : List ℕ → List (ℕ × ℕ)
  | [] => []
  | b :: marks => (a, b) :: cutAt (b + 1) marks

/-- The ranges end at the marks. -/
@[simp] theorem map_snd_cutAt (a : ℕ) (marks : List ℕ) : (cutAt a marks).map Prod.snd = marks := by
  induction marks generalizing a with
  | nil => rfl
  | cons b marks ih => rw [cutAt, List.map_cons, ih]

/-- If they are all the marks from a beginning on, in ascending order, these are the segments. -/
theorem mem_cutAt_iff {P : ℕ → Prop} {a : ℕ} {marks : List ℕ} (hsorted : marks.Pairwise (· < ·))
    (hmarks : ∀ j, j ∈ marks ↔ P j ∧ a ≤ j) (hstart : a = 0 ∨ P (a - 1)) {s e : ℕ} :
    (s, e) ∈ cutAt a marks ↔ Segment P s e ∧ a ≤ s := by
  induction marks generalizing a with
  | nil =>
    refine ⟨fun h => absurd h List.not_mem_nil, fun ⟨hsegment, hle⟩ => ?_⟩
    exact absurd ((hmarks e).mpr ⟨hsegment.ends, hle.trans hsegment.le⟩) List.not_mem_nil
  | cons b marks ih =>
    obtain ⟨hb, hle⟩ := (hmarks b).mp List.mem_cons_self
    obtain ⟨hbelow, hsorted⟩ := List.pairwise_cons.mp hsorted
    have hfirst : Segment P a b := by
      refine ⟨hle, hb, hstart, fun j hj hjb hP => ?_⟩
      rcases List.mem_cons.mp ((hmarks j).mpr ⟨hP, hj⟩) with rfl | hmem
      · exact absurd hjb (lt_irrefl _)
      · exact absurd (hbelow j hmem) (not_lt.mpr hjb.le)
    have hrest : ∀ j, j ∈ marks ↔ P j ∧ b + 1 ≤ j := by
      intro j
      constructor
      · intro hmem
        exact ⟨((hmarks j).mp (List.mem_cons_of_mem _ hmem)).1, hbelow j hmem⟩
      · intro ⟨hP, hlt⟩
        rcases List.mem_cons.mp ((hmarks j).mpr ⟨hP, by omega⟩) with rfl | hmem
        · exact absurd hlt (by omega)
        · exact hmem
    rw [cutAt, List.mem_cons, ih hsorted hrest (Or.inr hb), Prod.mk.injEq]
    constructor
    · rintro (⟨rfl, rfl⟩ | ⟨hsegment, hlt⟩)
      · exact ⟨hfirst, le_rfl⟩
      · exact ⟨hsegment, by omega⟩
    · intro ⟨hsegment, hs⟩
      rcases Nat.lt_trichotomy b e with hlt | rfl | hgt
      · exact Or.inr ⟨hsegment, hfirst.end_lt_start hsegment hlt⟩
      · exact Or.inl ⟨hsegment.start_eq hfirst, rfl⟩
      · exact absurd hsegment.ends (hfirst.inner e (hs.trans hsegment.le) hgt)

/-- One range ends before the next begins. -/
theorem pairwise_cutAt {a : ℕ} {marks : List ℕ} (hsorted : marks.Pairwise (· < ·)) :
    (cutAt a marks).Pairwise fun range range' => range.2 < range'.1 := by
  induction marks generalizing a with
  | nil => exact List.Pairwise.nil
  | cons b marks ih =>
    obtain ⟨hbelow, hsorted⟩ := List.pairwise_cons.mp hsorted
    refine List.pairwise_cons.mpr ⟨?_, ih hsorted⟩
    have hstarts : ∀ {f : ℕ} {l : List ℕ}, l.Pairwise (· < ·) → (∀ j ∈ l, f ≤ j) →
        ∀ range ∈ cutAt f l, f ≤ range.1 := by
      intro f l
      induction l generalizing f with
      | nil => exact fun _ _ range hrange => absurd hrange List.not_mem_nil
      | cons c l ih =>
        intro hl hf range hrange
        obtain ⟨hc, hl⟩ := List.pairwise_cons.mp hl
        rcases List.mem_cons.mp hrange with rfl | hmem
        · exact le_rfl
        · have := ih hl (fun j hj => hc j hj) range hmem
          have := hf c List.mem_cons_self
          omega
    intro range hrange
    exact hstarts hsorted (fun j hj => hbelow j hj) range hrange
