import Mathlib

/-!
# A quota for each period

A counter of what was taken in a period. It starts again when a later period is observed; an
observation of an earlier one changes nothing, so what is taken then counts for the latest.

* `Counts`: the counter has what was taken since it was started, and no period has more than
  the limit.
* `takenIn_of_pairwise`: where no observation is of an earlier period, everything counts for
  the period in which it is taken.
-/

namespace PeriodQuota

variable {P : Type*} [LinearOrder P]

/-- The latest period that was observed, and what was taken in it. -/
structure Counter (P : Type*) where
  period : P
  used : ℕ

def Counter.observe (c : Counter P) (p : P) : Counter P := if c.period < p then ⟨p, 0⟩ else c

/-- An attempt observes a period, and may take something. -/
def Counter.attempt (c : Counter P) (p : P) (taken : Bool) : Counter P :=
  if taken then ⟨(c.observe p).period, (c.observe p).used + 1⟩ else c.observe p

/-- The latest period of some attempts, from `p0` on. -/
def latest (p0 : P) (attempts : List (P × Bool)) : P :=
  attempts.foldl (fun p a => max p a.1) p0

/-- The periods for which the attempts that took something count. -/
def takenIn (p0 : P) : List (P × Bool) → List P
  | [] => []
  | a :: attempts => (if a.2 then [max p0 a.1] else []) ++ takenIn (max p0 a.1) attempts

theorem latest_concat (p0 : P) (attempts : List (P × Bool)) (p : P) (taken : Bool) :
    latest p0 (attempts ++ [(p, taken)]) = max (latest p0 attempts) p := by
  rw [latest, List.foldl_append]
  rfl

theorem takenIn_concat (p0 : P) (attempts : List (P × Bool)) (p : P) (taken : Bool) :
    takenIn p0 (attempts ++ [(p, taken)]) =
      takenIn p0 attempts ++ if taken then [max (latest p0 attempts) p] else [] := by
  induction attempts generalizing p0 with
  | nil => simp [takenIn, latest]
  | cons a attempts ih =>
    rw [List.cons_append, takenIn, ih, takenIn, List.append_assoc]
    rfl

/-- The counter `c` behind the attempts, which started at `p0`. -/
structure Counts (limit : ℕ) (p0 : P) (attempts : List (P × Bool)) (c : Counter P) : Prop where
  period : c.period = latest p0 attempts
  used : c.used = (takenIn p0 attempts).count c.period
  later : ∀ p, c.period < p → (takenIn p0 attempts).count p = 0
  le : ∀ p, (takenIn p0 attempts).count p ≤ limit

variable {limit : ℕ} {p0 : P} {attempts : List (P × Bool)} {c : Counter P}

theorem Counts.start (limit : ℕ) (p0 : P) : Counts limit p0 [] ⟨p0, 0⟩ :=
  ⟨rfl, rfl, fun _ _ => rfl, fun _ => Nat.zero_le _⟩

theorem Counter.observe_period (c : Counter P) (p : P) : (c.observe p).period = max c.period p := by
  unfold observe
  split_ifs with h
  · exact (max_eq_right h.le).symm
  · exact (max_eq_left (not_lt.mp h)).symm

/-- Behind an observation the counter has what was taken in the latest period. -/
theorem Counts.observe (h : Counts limit p0 attempts c) (p : P) :
    (c.observe p).used = (takenIn p0 attempts).count (max (latest p0 attempts) p) := by
  rw [← h.period]
  unfold Counter.observe
  split_ifs with hlt
  · rw [max_eq_right hlt.le, h.later p hlt]
  · rw [max_eq_left (not_lt.mp hlt), h.used]

/-- An attempt that takes only within the limit. -/
theorem Counts.attempt (h : Counts limit p0 attempts c) {p : P} {taken : Bool}
    (hlimit : taken = true → (c.observe p).used < limit) :
    Counts limit p0 (attempts ++ [(p, taken)]) (c.attempt p taken) := by
  have hused := h.observe p
  have hperiod := c.observe_period p
  have hlater : ∀ q, max c.period p < q → (takenIn p0 attempts).count q = 0 :=
    fun q hq => h.later q ((le_max_left _ _).trans_lt hq)
  rw [h.period] at hperiod hlater
  generalize hm : max (latest p0 attempts) p = m at hused hperiod hlater
  unfold Counter.attempt
  cases taken with
  | false =>
    rw [if_neg Bool.false_ne_true]
    constructor <;> simp only [latest_concat, takenIn_concat, hm, Bool.false_eq_true, if_false,
      List.append_nil, hperiod]
    · exact hused
    · exact hlater
    · exact h.le
  | true =>
    have hlt := hlimit rfl
    rw [if_pos rfl]
    constructor <;> simp only [latest_concat, takenIn_concat, hm, if_true, hperiod,
      List.count_append]
    · rw [hused, List.count_singleton_self]
    · intro q hq
      rw [hlater q hq, List.count_singleton, if_neg (by simpa using hq.ne)]
    · intro q
      rw [List.count_singleton]
      split_ifs with hq
      · rw [beq_iff_eq] at hq
        rw [← hq, ← hused]
        exact hlt
      · exact h.le q

/-- Where no attempt observes an earlier period, each counts for the one it observes. -/
theorem takenIn_of_pairwise (h : (p0 :: attempts.map Prod.fst).Pairwise (· ≤ ·)) :
    takenIn p0 attempts = attempts.filterMap fun a => if a.2 then some a.1 else none := by
  induction attempts generalizing p0 with
  | nil => rfl
  | cons a attempts ih =>
    obtain ⟨hle, hrest⟩ := List.pairwise_cons.mp h
    have hmax : max p0 a.1 = a.1 := max_eq_right (hle _ List.mem_cons_self)
    rw [takenIn, hmax, ih hrest, List.filterMap_cons]
    cases a.2 <;> rfl

end PeriodQuota
