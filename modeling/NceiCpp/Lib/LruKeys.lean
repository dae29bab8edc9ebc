import NceiCpp.Lib.LruInclusion

/-!
# The keys of an LRU list

Of its keys an LRU list uses nothing but which of them are equal. With other names for the keys
that tell the same ones apart it does the same under these names.

* `step_rename`: one operation. `runTotal_rename`: a run.
-/

namespace LruList

variable {κ κ' ν : Type}

def Entry.rename (f : κ → κ') (e : Entry κ ν) : Entry κ' ν := ⟨f e.key, e.value, e.insertedAt⟩

def Op.rename (f : κ → κ') : Op κ ν → Op κ' ν
  | .put key value now fails => .put (f key) value now fails
  | .get key now => .get (f key) now
  | .invalidate key => .invalidate (f key)
  | .clear => .clear
  | .size => .size

variable [BEq κ] [BEq κ'] {f : κ → κ'}

theorem find_rename (hf : ∀ a b, (f a == f b) = (a == b)) (key : κ) (l : List (Entry κ ν)) :
    find (f key) (l.map (Entry.rename f)) = (find key l).map (Entry.rename f) := by
  rw [find, find, List.find?_map]
  congr 2
  funext e
  exact hf e.key key

theorem remove_rename (hf : ∀ a b, (f a == f b) = (a == b)) (key : κ) (l : List (Entry κ ν)) :
    remove (f key) (l.map (Entry.rename f)) = (remove key l).map (Entry.rename f) := by
  rw [remove, remove, List.eraseP_map]
  congr 2
  funext e
  exact hf e.key key

theorem step_rename (hf : ∀ a b, (f a == f b) = (a == b)) (maxEntries : ℕ) (ttl : ℤ)
    (l : List (Entry κ ν)) (op : Op κ ν) :
    step maxEntries ttl (l.map (Entry.rename f)) (op.rename f) =
      ((step maxEntries ttl l op).1, (step maxEntries ttl l op).2.map (Entry.rename f)) := by
  cases op with
  | put key value now fails =>
    simp only [Op.rename, step, put]
    rw [find_rename hf, remove_rename hf, Option.isNone_map]
    split_ifs
    · rfl
    · rfl
    · rw [List.map_take]
      rfl
  | get key now =>
    simp only [Op.rename, step, get]
    rw [find_rename hf, remove_rename hf]
    cases find key l with
    | none => rfl
    | some e =>
      have htime : (e.rename f).insertedAt = e.insertedAt := rfl
      dsimp only [Option.map_some]
      rw [htime]
      split_ifs <;> rfl
  | invalidate key =>
    simp only [Op.rename, step]
    rw [remove_rename hf]
  | clear => rfl
  | size =>
    simp only [Op.rename, step]
    rw [List.length_map]

theorem runTotal_rename (hf : ∀ a b, (f a == f b) = (a == b)) (maxEntries : ℕ) (ttl : ℤ)
    (l : List (Entry κ ν)) (ops : List (Op κ ν)) :
    Simulation.runTotal (step maxEntries ttl) (l.map (Entry.rename f)) (ops.map (Op.rename f)) =
      ((Simulation.runTotal (step maxEntries ttl) l ops).1,
        (Simulation.runTotal (step maxEntries ttl) l ops).2.map (Entry.rename f)) := by
  induction ops generalizing l with
  | nil => rfl
  | cons op ops ih =>
    rw [List.map_cons, Simulation.runTotal, step_rename hf]
    dsimp only
    rw [ih]
    rfl

end LruList
