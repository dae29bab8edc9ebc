import Mathlib.Data.List.Infix
import Mathlib.Order.Basic

/-!
# The longest text in front

A reader takes the longest initial part of its input that is one of the texts `text n`.

* `IsLongest.text_eq`: there is one longest text.
* `takeWhile_run`, `takeWhile_of_append`: the run of characters at the start of a list.
-/

namespace LongestMatch

variable {α T : Type*} {p : α → Bool} {l rest s : List α}

/-! ## Runs -/

/-- A run is as long as it is written. -/
theorem takeWhile_run (hl : ∀ x ∈ l, p x = true) (hrest : ∀ x ∈ rest.head?, p x = false) :
    (l ++ rest).takeWhile p = l ∧ (l ++ rest).dropWhile p = rest := by
  rw [List.takeWhile_append_of_pos hl, List.dropWhile_append_of_pos hl]
  cases rest with
  | nil => simp
  | cons x rest =>
    have hx : ¬p x = true := by simpa using hrest x rfl
    rw [List.takeWhile_cons_of_neg hx, List.dropWhile_cons_of_neg hx, List.append_nil]
    exact ⟨rfl, rfl⟩

/-- What `s` starts with: a run that ends is the run of `s`, and one that does not is a part
    of it. -/
theorem takeWhile_of_append (hl : ∀ x ∈ l, p x = true) (hrest : ∀ x ∈ rest.head?, p x = false)
    (h : l ++ rest <+: s) :
    l = s.takeWhile p ∧ rest <+: s.dropWhile p ∨
      rest = [] ∧ l.length ≤ (s.takeWhile p).length := by
  obtain ⟨t, rfl⟩ := h
  cases rest with
  | nil =>
    rw [List.append_nil, List.takeWhile_append_of_pos hl, List.length_append]
    exact .inr ⟨rfl, Nat.le_add_right _ _⟩
  | cons x rest =>
    obtain ⟨htake, hdrop⟩ := @takeWhile_run _ p l (x :: rest ++ t) hl hrest
    rw [List.append_assoc, htake, hdrop]
    exact .inl ⟨rfl, List.prefix_append _ _⟩

/-! ## The longest text -/

variable {text : T → List α}

/-- `s` starts with the text of `n`, and with no longer one. -/
def IsLongest (text : T → List α) (n : T) (s : List α) : Prop :=
  text n <+: s ∧ ∀ m, text m <+: s → (text m).length ≤ (text n).length

theorem IsLongest.text_eq {n m : T} (hn : IsLongest text n s) (hm : IsLongest text m s) :
    text n = text m :=
  (List.prefix_of_prefix_length_le hn.1 hm.1 (hm.2 n hn.1)).eq_of_length
    (le_antisymm (hm.2 n hn.1) (hn.2 m hm.1))

/-- A text is the longest in front of a list whose elements are in no text. -/
theorem isLongest_append {n : T} {trail : List α} (h : ∀ m, ∀ x ∈ text m, x ∉ trail) :
    IsLongest text n (text n ++ trail) := by
  refine ⟨List.prefix_append _ _, ?_⟩
  intro m hm
  obtain ⟨w, hw⟩ := hm
  rcases List.append_eq_append_iff.mp hw with ⟨u, heq, -⟩ | ⟨u, heq, htrail⟩
  · rw [heq, List.length_append]
    exact Nat.le_add_right _ _
  · cases u with
    | nil => simp [heq]
    | cons x u => exact absurd (by simp [htrail]) (h m x (by simp [heq]))

end LongestMatch
