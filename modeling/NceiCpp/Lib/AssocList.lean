import Mathlib

/-!
# Association lists with distinct keys

`List.lookup` finds the first pair with a key. Where the keys are distinct the order of
the pairs is of no consequence.

* `lookup_perm`: looking up in a rearranged list.
* `lookup_map_snd`, `lookup_filter`: changing the values, dropping keys.
* `foldl_lookup`: a loop over the pairs that lets one key set a value.
-/

namespace AssocList

variable {κ β γ : Type} [BEq κ] [LawfulBEq κ]

theorem lookup_eq_some_iff {l : List (κ × β)} (h : (l.map Prod.fst).Nodup) {k : κ} {v : β} :
    l.lookup k = some v ↔ (k, v) ∈ l := by
  induction l with
  | nil => simp
  | cons p l ih =>
    rw [List.map_cons, List.nodup_cons] at h
    rw [List.lookup_cons, List.mem_cons]
    by_cases hk : k = p.1
    · subst hk
      rw [beq_self_eq_true]
      constructor
      · rintro ⟨⟩
        exact .inl rfl
      · rintro (heq | hmem)
        · rw [← heq]
        · exact absurd (List.mem_map_of_mem hmem) h.1
    · rw [beq_false_of_ne hk]
      constructor
      · intro hl
        exact .inr ((ih h.2).mp hl)
      · rintro (rfl | hmem)
        · exact absurd rfl hk
        · exact (ih h.2).mpr hmem

theorem lookup_perm {l l' : List (κ × β)} (h : (l.map Prod.fst).Nodup) (hperm : l.Perm l') (k : κ) :
    l.lookup k = l'.lookup k := by
  have h' : (l'.map Prod.fst).Nodup := (hperm.map Prod.fst).nodup_iff.mp h
  ext v
  rw [lookup_eq_some_iff h, lookup_eq_some_iff h', hperm.mem_iff]

theorem lookup_map_snd (f : β → γ) (l : List (κ × β)) (k : κ) :
    (l.map fun p => (p.1, f p.2)).lookup k = (l.lookup k).map f := by
  induction l with
  | nil => rfl
  | cons p l ih =>
    rw [List.map_cons, List.lookup_cons, List.lookup_cons]
    by_cases hk : k = p.1
    · rw [hk, beq_self_eq_true]
      rfl
    · rw [beq_false_of_ne hk]
      exact ih

theorem lookup_filter (q : κ → Bool) (l : List (κ × β)) (k : κ) :
    (l.filter fun p => q p.1).lookup k = if q k then l.lookup k else none := by
  induction l with
  | nil => simp
  | cons p l ih =>
    rw [List.filter_cons, List.lookup_cons]
    by_cases hk : k = p.1
    · subst hk
      rw [beq_self_eq_true]
      split_ifs with hq
      · rw [List.lookup_cons, beq_self_eq_true]
      · rw [ih, if_neg hq]
    · rw [beq_false_of_ne hk, ← ih]
      split_ifs
      · rw [List.lookup_cons, beq_false_of_ne hk]
      · rfl

/-- A loop over pairs with distinct keys, in which only the key `name` sets the value that
    `get` reads. -/
theorem foldl_lookup {σ : Type} {step : σ → κ × β → σ} {get : σ → γ} {conv : β → γ} {name : κ}
    (hset : ∀ s v, get (step s (name, v)) = conv v)
    (hother : ∀ s p, p.1 ≠ name → get (step s p) = get s) {l : List (κ × β)}
    (h : (l.map Prod.fst).Nodup) (s : σ) :
    get (l.foldl step s) = ((l.lookup name).map conv).getD (get s) := by
  induction l generalizing s with
  | nil => rfl
  | cons p l ih =>
    rw [List.map_cons, List.nodup_cons] at h
    rw [List.foldl_cons, ih h.2, List.lookup_cons]
    by_cases hname : name = p.1
    · subst hname
      have hnone : l.lookup p.1 = none := by
        rw [List.lookup_eq_none_iff]
        intro a ha
        simp only [bne_iff_ne]
        intro heq
        exact h.1 (heq ▸ List.mem_map_of_mem ha)
      rw [hnone, beq_self_eq_true]
      exact hset s p.2
    · rw [beq_false_of_ne hname, hother s p (Ne.symm hname)]

end AssocList
