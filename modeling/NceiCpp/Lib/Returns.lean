import NceiCpp.Lib.Handler

/-!
# Computations that return

A loop that is cut behind a number of turns is a family of computations, one for each number.
`Settles` says that the loop itself ends: with turns enough the computation has a value, which
does not depend on their number. `Returns` is total correctness.

* `loop`: the rule of a loop with a variant.
* `handle_returns`: a program returns if the computation that answers its questions does.
-/

namespace Exec

open Filter

variable {σ α β : Type}

/-- With turns enough, `m` ends with `a` and leaves `s'`. -/
def Settles (m : ℕ → Exec σ α) (s : σ) (a : α) (s' : σ) : Prop :=
  ∀ᶠ turns in atTop, m turns s = (some a, s')

/-- From a state in `P`, `m` ends with `Q`. -/
def Returns (P : σ → Prop) (m : ℕ → Exec σ α) (Q : α → σ → Prop) : Prop :=
  ∀ s, P s → ∃ a s', Settles m s a s' ∧ Q a s'

/-- It does so in one way. -/
theorem Settles.unique {m : ℕ → Exec σ α} {s s1 s2 : σ} {a b : α} (h1 : Settles m s a s1)
    (h2 : Settles m s b s2) : a = b ∧ s1 = s2 := by
  obtain ⟨turns, hturns1, hturns2⟩ := (h1.and h2).exists
  rw [hturns1, Prod.mk.injEq, Option.some.injEq] at hturns2
  exact hturns2

namespace Returns

variable {P P' : σ → Prop} {Q : α → σ → Prop} {R : β → σ → Prop}

theorem pure {a : α} (h : ∀ s, P s → Q a s) : Returns P (fun _ => Pure.pure a) Q :=
  fun s hs => ⟨a, s, .of_forall fun _ => rfl, h s hs⟩

theorem act {f : σ → α × σ} (h : ∀ s, P s → Q (f s).1 (f s).2) :
    Returns P (fun _ => Exec.act f) Q :=
  fun s hs => ⟨_, _, .of_forall fun _ => rfl, h s hs⟩

theorem bind {m : ℕ → Exec σ α} {f : ℕ → α → Exec σ β} (hm : Returns P m Q)
    (hf : ∀ a, Returns (Q a) (fun turns => f turns a) R) :
    Returns P (fun turns => m turns >>= f turns) R := by
  intro s hs
  obtain ⟨a, s1, hm, hq⟩ := hm s hs
  obtain ⟨b, s2, hf, hr⟩ := hf a s1 hq
  refine ⟨b, s2, ?_, hr⟩
  filter_upwards [hm, hf] with turns hm hf
  rw [bind_some hm, hf]

theorem of_pre {m : ℕ → Exec σ α} (h : Returns P m Q) (hP : ∀ s, P' s → P s) : Returns P' m Q :=
  fun s hs => h s (hP s hs)

theorem of_post {m : ℕ → Exec σ α} {Q' : α → σ → Prop} (h : Returns P m Q)
    (hQ : ∀ a s, Q a s → Q' a s) : Returns P m Q' := by
  intro s hs
  obtain ⟨a, s', hsettles, hq⟩ := h s hs
  exact ⟨a, s', hsettles, hQ a s' hq⟩

/-- A turn of the loop ends it, or leaves a state in `P` with a smaller variant. -/
theorem loop {m : ℕ → Exec σ α} (variant : σ → ℕ)
    (hturn : ∀ s, P s → (∃ a s', Q a s' ∧ ∀ turns, m (turns + 1) s = (some a, s')) ∨
      ∃ s', P s' ∧ variant s' < variant s ∧ ∀ turns, m (turns + 1) s = m turns s') :
    Returns P m Q := by
  intro s hs
  induction hn : variant s using Nat.strong_induction_on generalizing s with
  | _ n ih =>
    subst hn
    rcases hturn s hs with ⟨a, s', hq, hend⟩ | ⟨s', hs', hlt, hnext⟩
    · refine ⟨a, s', eventually_atTop.mpr ⟨1, fun turns hturns => ?_⟩, hq⟩
      rw [← Nat.sub_add_cancel hturns]
      exact hend _
    · obtain ⟨a, s'', hsettles, hq⟩ := ih _ hlt s' hs' rfl
      obtain ⟨bound, hbound⟩ := eventually_atTop.mp hsettles
      refine ⟨a, s'', eventually_atTop.mpr ⟨bound + 1, fun turns hturns => ?_⟩, hq⟩
      rw [← Nat.sub_add_cancel (Nat.le_of_add_left_le hturns), hnext]
      exact hbound _ (Nat.le_sub_of_add_le hturns)

end Returns

end Exec

namespace Interaction.Program

open Exec

variable {Q R α σ : Type}

theorem handle_returns {h : ℕ → Q → Exec σ R} {Inv : σ → Prop}
    (hkeep : ∀ q, Returns Inv (fun turns => h turns q) fun _ => Inv) (p : Program Q R α) :
    Returns Inv (fun turns => p.handle (h turns)) fun _ => Inv := by
  induction p with
  | ret a => exact Returns.pure fun s hs => hs
  | ask q k ih => exact Returns.bind (hkeep q) ih

end Interaction.Program
