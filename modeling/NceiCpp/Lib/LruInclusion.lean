import NceiCpp.Lib.LruList
import NceiCpp.Lib.Simulation

/-!
# Inclusion of LRU lists

The same operations at the same times on two LRU lists, one with room for `m` entries and
one with room for `n ≥ m`. The smaller list is a part of the larger one in the same order,
and the larger one has at most `n - m` entries more (`Includes`), although the lists are
reordered and shortened at different times.

* `step_includes`: an operation keeps this, and what the smaller list serves the larger one
  serves, too. `runTotal_includes`: so it is in every run.
-/

namespace LruList

variable {κ ν : Type} [BEq κ]

/-- `s`, with room for `m` entries, is included in `l`, with room for `n`. -/
structure Includes (m n : ℕ) (s l : List (Entry κ ν)) : Prop where
  sublist : s.Sublist l
  excess : l.length + m ≤ n + s.length
  length_le : s.length ≤ m
  keys : l.Pairwise fun a b => (a.key == b.key) = false

/-- Of two lists the one that drops more at its end stays a part of the other. -/
theorem take_sublist_take {α : Type} {m n : ℕ} {s l : List α} (h : s.Sublist l)
    (hlen : l.length + m ≤ n + s.length) : (s.take m).Sublist (l.take n) := by
  have hdrop := (h.reverse.drop (l.length - n)).reverse
  rw [List.drop_reverse, List.drop_reverse, List.reverse_reverse, List.reverse_reverse] at hdrop
  have htake : l.take n = l.take (l.length - (l.length - n)) := by
    rcases Nat.le_total l.length n with hle | hle
    · rw [List.take_of_length_le hle, List.take_of_length_le (by omega)]
    · rw [Nat.sub_sub_self hle]
  have hprefix : (s.take m).Sublist (s.take (s.length - (l.length - n))) := by
    rcases Nat.le_total s.length m with hle | hle
    · rw [List.take_of_length_le hle, List.take_of_length_le (by omega)]
    · exact (List.take_prefix_take_left (by omega)).sublist
  rw [htake]
  exact hprefix.trans hdrop

variable {m n : ℕ} {ttl : ℤ} {s l : List (Entry κ ν)} {key : κ} {e : Entry κ ν}

theorem find_eq_some_mem (h : find key l = some e) : e ∈ l ∧ (e.key == key) = true :=
  ⟨List.mem_of_find?_eq_some h, by simpa using List.find?_some h⟩

theorem find_eq_none_iff : find key l = none ↔ ∀ a ∈ l, (a.key == key) = false := by
  rw [find, List.find?_eq_none]
  simp

theorem includes_nil (hmn : m ≤ n) : Includes m n ([] : List (Entry κ ν)) [] :=
  ⟨List.Sublist.refl [], by simpa using hmn, Nat.zero_le _, .nil⟩

section Equivalence

variable [EquivBEq κ]

/-- With distinct keys there is one entry to find. -/
theorem find_of_mem (hkeys : l.Pairwise fun a b => (a.key == b.key) = false) (he : e ∈ l)
    (hkey : (e.key == key) = true) : find key l = some e := by
  obtain ⟨front, back, rfl⟩ := List.append_of_mem he
  obtain ⟨-, -, hcross⟩ := List.pairwise_append.mp hkeys
  refine find_split hkey fun a ha => ?_
  rw [← BEq.congr_right hkey]
  exact hcross a ha e List.mem_cons_self

/-- No entry is left when the one of `key` is removed. -/
theorem remove_ne (hkeys : l.Pairwise fun a b => (a.key == b.key) = false) (key : κ) :
    ∀ a ∈ remove key l, (a.key == key) = false := by
  induction l with
  | nil => simp [remove]
  | cons b l ih =>
    obtain ⟨hb, hl⟩ := List.pairwise_cons.mp hkeys
    cases hkey : b.key == key with
    | true =>
      have hremove : remove key (b :: l) = l := by simp [remove, hkey]
      rw [hremove]
      intro a ha
      rw [← BEq.congr_right hkey, BEq.comm]
      exact hb a ha
    | false =>
      have hremove : remove key (b :: l) = b :: remove key l := by simp [remove, hkey]
      rw [hremove]
      exact List.forall_mem_cons.mpr ⟨hkey, ih hl⟩

theorem Includes.find (h : Includes m n s l) (hfind : find key s = some e) :
    LruList.find key l = some e := by
  obtain ⟨he, hkey⟩ := find_eq_some_mem hfind
  exact find_of_mem h.keys (h.sublist.subset he) hkey

theorem Includes.remove (h : Includes m n s l) (key : κ) :
    Includes m n (remove key s) (LruList.remove key l) := by
  have h1 := h.excess
  have h2 := length_remove_le key l
  have h3 := length_remove_le key s
  refine ⟨h.sublist.eraseP, ?_, h3.trans h.length_le, h.keys.sublist List.eraseP_sublist⟩
  cases hfind : LruList.find key s with
  | none =>
    rw [remove_absent (find_eq_none_iff.mp hfind)]
    omega
  | some e =>
    have hs := length_remove_of_find hfind
    have hl := length_remove_of_find (h.find hfind)
    omega

/-- The keys of a list with the entry of `key` in front. -/
theorem cons_keys (hkeys : l.Pairwise fun a b => (a.key == b.key) = false)
    (he : (e.key == key) = true) :
    (e :: remove key l).Pairwise fun a b => (a.key == b.key) = false := by
  refine List.pairwise_cons.mpr ⟨fun a ha => ?_, hkeys.sublist List.eraseP_sublist⟩
  rw [BEq.congr_left he, BEq.comm]
  exact remove_ne hkeys key a ha

/-- The entry of `key` is put in front of both lists. -/
theorem Includes.cons (h : Includes m n s l) (he : (e.key == key) = true) :
    Includes m n ((e :: LruList.remove key s).take m) ((e :: LruList.remove key l).take n) := by
  have hr := h.remove key
  have h1 := hr.excess
  refine ⟨take_sublist_take (hr.sublist.cons_cons e) ?_, ?_, List.length_take_le _ _,
    (cons_keys h.keys he).sublist (List.take_sublist _ _)⟩
  · simp only [List.length_cons]
    omega
  · simp only [List.length_take, List.length_cons]
    omega

/-- The entry of a key that the smaller list does not have is moved to the front of the
    larger one. -/
theorem Includes.touch (h : Includes m n s l) (hs : LruList.find key s = none)
    {a : Entry κ ν} (hl : LruList.find key l = some a) (he : (e.key == key) = true) :
    Includes m n s (e :: LruList.remove key l) := by
  have h1 := h.excess
  have hlen := length_remove_of_find hl
  have hsub := (h.remove key).sublist
  rw [remove_absent (find_eq_none_iff.mp hs)] at hsub
  refine ⟨hsub.cons e, ?_, h.length_le, cons_keys h.keys he⟩
  rw [List.length_cons]
  omega

/-- What the smaller list serves the larger one serves, too. -/
def Serves (small large : Outcome ν) : Prop :=
  ∀ v, small = .found (some v) → large = .found (some v)

theorem get_includes (h : Includes m n s l) (key : κ) (now : ℤ) :
    Serves (get ttl s key now).1 (get ttl l key now).1 ∧
      Includes m n (get ttl s key now).2 (get ttl l key now).2 := by
  have h1 := h.length_le
  have h2 := h.excess
  unfold get
  cases hs : LruList.find key s with
  | some e =>
    have hlen := length_remove_of_find hs
    have hlen' := length_remove_of_find (h.find hs)
    have hcons := h.cons (find_eq_some_mem hs).2
    rw [List.take_of_length_le (by rw [List.length_cons]; omega),
      List.take_of_length_le (by rw [List.length_cons]; omega)] at hcons
    rw [h.find hs]
    dsimp only
    split_ifs
    · exact ⟨fun v hv => hv, h.remove key⟩
    · exact ⟨fun v hv => hv, hcons⟩
  | none =>
    refine ⟨fun v hv => by simp at hv, ?_⟩
    cases hl : LruList.find key l with
    | none => exact h
    | some e =>
      have hremove := h.remove key
      rw [remove_absent (find_eq_none_iff.mp hs)] at hremove
      dsimp only
      split_ifs
      · exact hremove
      · exact h.touch hs hl (find_eq_some_mem hl).2

theorem put_includes (h : Includes m n s l) (hmn : m ≤ n) (key : κ) (value : ν) (now : ℤ)
    (fails : Bool) :
    Includes m n (put m ttl s key value now fails).2 (put n ttl l key value now fails).2 := by
  have h1 := h.length_le
  have h2 := h.excess
  have he : ((⟨key, value, now⟩ : Entry κ ν).key == key) = true := BEq.rfl
  unfold put
  by_cases httl : ttl ≤ 0
  · rw [if_pos (.inr httl), if_pos (.inr httl)]
    exact h
  by_cases hm : m = 0
  · -- the smaller list has no room at all
    have hnil : s = [] := List.eq_nil_of_length_eq_zero (by omega)
    rw [if_pos (.inl hm), hnil]
    rw [hnil, List.length_nil] at h2
    split_ifs with hn hfails
    · exact hnil ▸ h
    · exact hnil ▸ h
    · have hlen := List.length_take_le n ((⟨key, value, now⟩ : Entry κ ν) :: LruList.remove key l)
      refine ⟨List.nil_sublist _, ?_, Nat.zero_le _,
        (cons_keys h.keys he).sublist (List.take_sublist _ _)⟩
      rw [List.length_nil]
      dsimp only
      omega
  · have hon : ¬ (m = 0 ∨ ttl ≤ 0) := by tauto
    have hon' : ¬ (n = 0 ∨ ttl ≤ 0) := by omega
    rw [if_neg hon, if_neg hon']
    cases hs : LruList.find key s with
    | some e =>
      rw [h.find hs, if_neg (by simp), if_neg (by simp)]
      exact h.cons he
    | none =>
      cases fails with
      | false =>
        rw [if_neg (by simp), if_neg (by simp)]
        exact h.cons he
      | true =>
        rw [if_pos (by simp)]
        cases hl : LruList.find key l with
        | none =>
          rw [if_pos (by simp)]
          exact h
        | some e =>
          have hlen := length_remove_of_find hl
          rw [if_neg (by simp), List.take_of_length_le (by rw [List.length_cons]; omega)]
          exact h.touch hs hl he

/-- An operation keeps the inclusion, and what the smaller list serves the larger one serves. -/
theorem step_includes (h : Includes m n s l) (hmn : m ≤ n) (op : Op κ ν) :
    Serves (step m ttl s op).1 (step n ttl l op).1 ∧
      Includes m n (step m ttl s op).2 (step n ttl l op).2 := by
  cases op with
  | put key value now fails =>
    refine ⟨fun v hv => ?_, put_includes h hmn key value now fails⟩
    simp only [step, put] at hv
    split_ifs at hv
  | get key now => exact get_includes h key now
  | invalidate key => exact ⟨fun v hv => hv, h.remove key⟩
  | clear => exact ⟨fun v hv => hv, includes_nil hmn⟩
  | size =>
    refine ⟨fun v hv => ?_, h⟩
    cases hv

/-- The inclusion holds in every run. -/
theorem runTotal_includes (h : Includes m n s l) (hmn : m ≤ n) (ttl : ℤ) (ops : List (Op κ ν)) :
    List.Forall₂ Serves (Simulation.runTotal (step m ttl) s ops).1
        (Simulation.runTotal (step n ttl) l ops).1 ∧
      Includes m n (Simulation.runTotal (step m ttl) s ops).2
        (Simulation.runTotal (step n ttl) l ops).2 := by
  induction ops generalizing s l with
  | nil => exact ⟨.nil, h⟩
  | cons op ops ih =>
    obtain ⟨hserves, hnext⟩ := step_includes h hmn op
    obtain ⟨hrest, hlast⟩ := ih hnext
    exact ⟨.cons hserves hrest, hlast⟩

end Equivalence

end LruList
