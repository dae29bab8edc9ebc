import Mathlib.Data.List.DropRight

/-!
# Trimming a list

`trim p l` is `l` without the elements that satisfy `p` at its two ends.

* `trim_append`, `exists_trim`: what is between the trimmed ends.
-/

namespace Trim

variable {α : Type*} {p : α → Bool}

def trim (p : α → Bool) (l : List α) : List α := (l.dropWhile p).rdropWhile p

/-- Neither end satisfies `p`. -/
def Bare (p : α → Bool) (l : List α) : Prop :=
  (∀ x ∈ l.head?, p x = false) ∧ ∀ x ∈ l.getLast?, p x = false

theorem Bare.of_forall {l : List α} (h : ∀ x ∈ l, p x = false) : Bare p l :=
  ⟨fun x hx => h x (List.mem_of_head? hx), fun x hx => h x (List.mem_of_getLast? hx)⟩

theorem dropWhile_eq_self_of_head {l : List α} (h : ∀ x ∈ l.head?, p x = false) :
    l.dropWhile p = l := by
  cases l with
  | nil => rfl
  | cons x l => exact List.dropWhile_cons_of_neg (by simp [h x rfl])

theorem rdropWhile_append_of_pos {trail : List α} (htrail : ∀ x ∈ trail, p x = true)
    (l : List α) : (l ++ trail).rdropWhile p = l.rdropWhile p := by
  rw [List.rdropWhile, List.reverse_append,
    List.dropWhile_append_of_pos fun x hx => htrail x (List.mem_reverse.mp hx)]
  rfl

theorem trim_append {lead core trail : List α} (hlead : ∀ x ∈ lead, p x = true)
    (hcore : Bare p core) (htrail : ∀ x ∈ trail, p x = true) :
    trim p (lead ++ core ++ trail) = core := by
  rw [trim, List.append_assoc, List.dropWhile_append_of_pos hlead]
  by_cases hne : core = []
  · rw [hne, List.nil_append, List.dropWhile_eq_nil_iff.mpr htrail, List.rdropWhile_nil]
  · have hhead : ∀ x ∈ (core ++ trail).head?, p x = false := by
      intro x hx
      rw [List.head?_append_of_ne_nil core hne] at hx
      exact hcore.1 x hx
    rw [dropWhile_eq_self_of_head hhead, rdropWhile_append_of_pos htrail, List.rdropWhile,
      dropWhile_eq_self_of_head, List.reverse_reverse]
    intro x hx
    rw [List.head?_reverse] at hx
    exact hcore.2 x hx

theorem exists_trim (p : α → Bool) (l : List α) : ∃ lead trail, l = lead ++ trim p l ++ trail ∧
    ∀ x ∈ lead ++ trail, p x = true := by
  refine ⟨l.takeWhile p, (l.dropWhile p).rtakeWhile p, ?_, ?_⟩
  · rw [trim, List.append_assoc, List.rdropWhile_append_rtakeWhile,
      List.takeWhile_append_dropWhile]
  · intro x hx
    rcases List.mem_append.mp hx with hx | hx
    · exact List.mem_takeWhile_imp hx
    · exact List.mem_rtakeWhile_imp hx

end Trim
