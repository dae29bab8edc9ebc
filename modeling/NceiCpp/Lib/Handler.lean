import NceiCpp.Lib.CreditRun
import NceiCpp.Lib.Exec
import NceiCpp.Lib.Interaction

/-!
# Programs with handled questions

The questions of a `Program` answered by a stateful computation, which may be cut.

* `handle_eq_some_iff`: a computation that ends is a run of the program, whose exchanges are
  made by the handler one after the other. So what holds of every run of the program holds
  under every handler.
* `handle_eq_none`: a computation that is cut has made the exchanges of a prefix of a run.
* `handle_keeps`: what the handler keeps on every question a run asks, the program keeps.
-/

namespace Interaction.Program

open CreditRun

variable {Q R α σ : Type}

/-- `p` with its questions answered by `h`. -/
def handle (h : Q → Exec σ R) : Program Q R α → Exec σ α
  | ret a => pure a
  | ask q k => do
    let r ← h q
    handle h (k r)

/-- From `s` the handler answers a question, and leaves `s'`. -/
def Answers (h : Q → Exec σ R) (s : σ) (x : Q × R) (s' : σ) : Prop := h x.1 s = (some x.2, s')

/-- With the exchanges `t` answered, `p` asks `q`. -/
def Asks : Program Q R α → List (Q × R) → Q → Prop
  | ret _, _, _ => False
  | ask q k, t, q' => (t = [] ∧ q' = q) ∨ ∃ r t', t = (q, r) :: t' ∧ (k r).Asks t' q'

theorem handle_ask_some {h : Q → Exec σ R} {q : Q} {k : R → Program Q R α} {s s' : σ} {r : R}
    (hq : h q s = (some r, s')) : (ask q k).handle h s = (k r).handle h s' :=
  Exec.bind_some hq fun r => (k r).handle h

theorem handle_ask_none {h : Q → Exec σ R} {q : Q} {k : R → Program Q R α} {s s' : σ}
    (hq : h q s = (none, s')) : (ask q k).handle h s = (none, s') :=
  Exec.bind_none hq fun r => (k r).handle h

theorem handle_eq_some_iff {h : Q → Exec σ R} {p : Program Q R α} {s s' : σ} {a : α} :
    p.handle h s = (some a, s') ↔ ∃ t, p.Runs t a ∧ Run (Answers h) s t s' := by
  induction p generalizing s with
  | ret b =>
    constructor
    · rintro ⟨⟩
      exact ⟨[], ⟨rfl, rfl⟩, .nil⟩
    · rintro ⟨t, ⟨rfl, rfl⟩, hrun⟩
      cases hrun
      rfl
  | ask q k ih =>
    constructor
    · intro hs
      rcases hq : h q s with ⟨_ | r, s1⟩
      · rw [handle_ask_none hq] at hs
        cases hs
      · rw [handle_ask_some hq] at hs
        obtain ⟨t, hruns, hrun⟩ := (ih r).mp hs
        exact ⟨(q, r) :: t, ⟨r, t, rfl, hruns⟩, .cons hq hrun⟩
    · rintro ⟨t, ⟨r, t', rfl, hruns⟩, hrun⟩
      cases hrun with
      | cons hq hrun =>
        rw [handle_ask_some hq]
        exact (ih r).mpr ⟨t', hruns, hrun⟩

theorem handle_eq_none {h : Q → Exec σ R} {p : Program Q R α} {s s' : σ}
    (hs : p.handle h s = (none, s')) :
    ∃ t q s1, p.Asks t q ∧ Run (Answers h) s t s1 ∧ h q s1 = (none, s') := by
  induction p generalizing s with
  | ret b => cases hs
  | ask q k ih =>
    rcases hq : h q s with ⟨_ | r, s1⟩
    · rw [handle_ask_none hq] at hs
      obtain rfl : s1 = s' := congrArg Prod.snd hs
      exact ⟨[], q, s, .inl ⟨rfl, rfl⟩, .nil, hq⟩
    · rw [handle_ask_some hq] at hs
      obtain ⟨t, q', s2, hasks, hrun, hcut⟩ := ih r hs
      exact ⟨(q, r) :: t, q', s2, .inr ⟨r, t, rfl, hasks⟩, .cons hq hrun, hcut⟩

/-- An invariant that the handler keeps on the questions of the runs. -/
theorem handle_keeps [Nonempty R] {h : Q → Exec σ R} {p : Program Q R α} {P : Q → Prop}
    {Inv : σ → Prop} (hasked : ∀ t a, p.Runs t a → ∀ q ∈ t.map Prod.fst, P q)
    (hkeep : ∀ q, P q → Exec.Triple Inv (h q) fun _ => Inv) :
    Exec.Triple Inv (p.handle h) fun _ => Inv := by
  induction p with
  | ret b => exact Exec.Triple.pure fun s hs => hs
  | ask q k ih =>
    have hq : P q := by
      obtain ⟨r⟩ := ‹Nonempty R›
      exact hasked _ _ ⟨r, _, rfl, runs_exec (fun _ _ => r) [] (k r)⟩ q List.mem_cons_self
    refine Exec.Triple.bind (hkeep q hq) (fun r => ih r fun t a hruns x hx => ?_) fun s hs => hs
    exact hasked ((q, r) :: t) a ⟨r, t, rfl, hruns⟩ x (List.mem_cons_of_mem q hx)

end Interaction.Program
