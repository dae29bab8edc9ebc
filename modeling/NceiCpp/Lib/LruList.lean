import Mathlib

/-!
# An LRU list with a time to live

What a least-recently-used cache is for: one list of entries, the most recently used one
first, with at most `maxEntries` entries; an entry is served until it is older than `ttl`.
Times are integers of any unit.

* `step`: the operations. `step_length_le`: the list stays within its bound.
* `find_split`, `remove_split`, `find_absent`, `remove_absent`: the operations on a list
  that is given by its parts.
-/

namespace LruList

structure Entry (κ ν : Type) where
  key : κ
  value : ν
  insertedAt : ℤ

/-- The operations. A put that `fails` does not add a new key; `now` is the time. -/
inductive Op (κ ν : Type)
  | put (key : κ) (value : ν) (now : ℤ) (fails : Bool)
  | get (key : κ) (now : ℤ)
  | invalidate (key : κ)
  | clear
  | size

/-- The results of the operations. -/
inductive Outcome (ν : Type)
  | done
  | failed
  | found (value : Option ν)
  | count (n : ℕ)
  deriving DecidableEq

variable {κ ν : Type} [BEq κ]

def find (key : κ) (l : List (Entry κ ν)) : Option (Entry κ ν) := l.find? fun e => e.key == key

def remove (key : κ) (l : List (Entry κ ν)) : List (Entry κ ν) := l.eraseP fun e => e.key == key

/-- Put the key in front with the current time; the entries beyond the bound are dropped. -/
def put (maxEntries : ℕ) (ttl : ℤ) (l : List (Entry κ ν)) (key : κ) (value : ν) (now : ℤ)
    (fails : Bool) : Outcome ν × List (Entry κ ν) :=
  if maxEntries = 0 ∨ ttl ≤ 0 then (.done, l)
  else if fails ∧ (find key l).isNone then (.failed, l)
  else (.done, (⟨key, value, now⟩ :: remove key l).take maxEntries)

/-- Serve the value of an entry that is not too old and move it to the front; an entry that
    is too old is removed. -/
def get (ttl : ℤ) (l : List (Entry κ ν)) (key : κ) (now : ℤ) : Outcome ν × List (Entry κ ν) :=
  match find key l with
  | none => (.found none, l)
  | some e =>
    if now - e.insertedAt > ttl then (.found none, remove key l)
    else (.found (some e.value), e :: remove key l)

def step (maxEntries : ℕ) (ttl : ℤ) (l : List (Entry κ ν)) :
    Op κ ν → Outcome ν × List (Entry κ ν)
  | .put key value now fails => put maxEntries ttl l key value now fails
  | .get key now => get ttl l key now
  | .invalidate key => (.done, remove key l)
  | .clear => (.done, [])
  | .size => (.count l.length, l)

variable {key : κ} {e : Entry κ ν} {l l' : List (Entry κ ν)}

theorem find_split (he : (e.key == key) = true) (hl : ∀ a ∈ l, (a.key == key) = false) :
    find key (l ++ e :: l') = some e := by
  have hnone : l.find? (fun a => a.key == key) = none := by
    rw [List.find?_eq_none]
    intro a ha
    simp [hl a ha]
  rw [find, List.find?_append, hnone, Option.none_or, List.find?_cons, he]

theorem remove_split (he : (e.key == key) = true) (hl : ∀ a ∈ l, (a.key == key) = false) :
    remove key (l ++ e :: l') = l ++ l' := by
  rw [remove, List.eraseP_append_right _ fun a ha => by simp [hl a ha], List.eraseP_cons, he]
  rfl

theorem find_absent (hl : ∀ a ∈ l, (a.key == key) = false) : find key l = none := by
  rw [find, List.find?_eq_none]
  intro a ha
  simp [hl a ha]

theorem remove_absent (hl : ∀ a ∈ l, (a.key == key) = false) : remove key l = l :=
  List.eraseP_of_forall_not fun a ha => by simp [hl a ha]

theorem length_remove_le (key : κ) (l : List (Entry κ ν)) : (remove key l).length ≤ l.length :=
  List.eraseP_sublist.length_le

theorem length_remove_of_find (h : find key l = some e) : (remove key l).length + 1 = l.length := by
  have hpos := List.length_pos_of_mem (List.mem_of_find?_eq_some h)
  have hlen := List.length_eraseP_of_mem (List.mem_of_find?_eq_some h) (List.find?_some h)
  rw [remove, hlen]
  omega

/-- The list stays within its bound. -/
theorem step_length_le {maxEntries : ℕ} (ttl : ℤ) (h : l.length ≤ maxEntries) (op : Op κ ν) :
    (step maxEntries ttl l op).2.length ≤ maxEntries := by
  cases op with
  | put key value now fails =>
    simp only [step, put]
    split_ifs
    · exact h
    · exact h
    · exact List.length_take_le _ _
  | get key now =>
    simp only [step, get]
    cases hfind : find key l with
    | none => exact h
    | some e =>
      have hlen := length_remove_of_find hfind
      dsimp only
      split_ifs
      · dsimp only
        omega
      · rw [List.length_cons]
        omega
  | invalidate key => exact (length_remove_le key l).trans h
  | clear => exact Nat.zero_le _
  | size => exact h

end LruList
