import Mathlib

/-!
# Query strings

A query string over any alphabet: a base, a mark, and `key eq value` pairs separated by
`sep`. Nothing is escaped here.

* `split_render`: splitting at the first `mark`, then on `sep`, then at the first `eq`
  gives back the base and the pairs, in order, when no separator occurs where the
  splitting would take it for one.
* `render_concat`, `render_append`: how pairs are appended.
* `mem_render`: what characters a query string has.
-/

namespace QueryString

variable {α : Type*}

/-- What stands before the first `x` and, if there is an `x`, what follows it. -/
def cut [DecidableEq α] (x : α) : List α → List α × Option (List α)
  | [] => ([], none)
  | a :: l => if a = x then ([], some l) else (a :: (cut x l).1, (cut x l).2)

theorem cut_of_not_mem [DecidableEq α] {x : α} {l : List α} (h : x ∉ l) : cut x l = (l, none) := by
  induction l with
  | nil => rfl
  | cons a l ih =>
    rw [List.mem_cons, not_or] at h
    rw [cut, if_neg (Ne.symm h.1), ih h.2]

theorem cut_append [DecidableEq α] {x : α} {l : List α} (h : x ∉ l) (r : List α) :
    cut x (l ++ x :: r) = (l, some r) := by
  induction l with
  | nil => simp [cut]
  | cons a l ih =>
    rw [List.mem_cons, not_or] at h
    rw [List.cons_append, cut, if_neg (Ne.symm h.1), ih h.2]

variable (mark sep eq : α)

/-- The text of one pair. -/
def pairText (kv : List α × List α) : List α := kv.1 ++ eq :: kv.2

/-- The query string of a base and a list of pairs; without pairs there is no mark. -/
def render (base : List α) (kvs : List (List α × List α)) : List α :=
  if kvs = [] then base else base ++ mark :: [sep].intercalate (kvs.map (pairText eq))

/-- Split at the first `mark`, then on `sep`, then at the first `eq`. -/
def split [DecidableEq α] (l : List α) : List α × List (List α × List α) :=
  match cut mark l with
  | (base, none) => (base, [])
  | (base, some q) =>
    (base, (q.splitOn sep).map fun kv => ((cut eq kv).1, (cut eq kv).2.getD []))

theorem split_render [DecidableEq α] {base : List α} {kvs : List (List α × List α)}
    (hbase : mark ∉ base) (hne : sep ≠ eq)
    (hkvs : ∀ kv ∈ kvs, eq ∉ kv.1 ∧ sep ∉ kv.1 ∧ sep ∉ kv.2) :
    split mark sep eq (render mark sep eq base kvs) = (base, kvs) := by
  unfold render split
  split_ifs with h
  · rw [cut_of_not_mem hbase, h]
  · have htexts : ∀ t ∈ kvs.map (pairText eq), sep ∉ t := by
      intro t ht
      obtain ⟨kv, hkv, rfl⟩ := List.mem_map.mp ht
      obtain ⟨-, h2, h3⟩ := hkvs kv hkv
      simp only [pairText, List.mem_append, List.mem_cons, not_or]
      exact ⟨h2, hne, h3⟩
    rw [cut_append hbase]
    simp only [List.splitOn_intercalate sep htexts (by simpa using h), List.map_map]
    congr 1
    conv_rhs => rw [← List.map_id kvs]
    apply List.map_congr_left
    intro kv hkv
    simp only [Function.comp_apply, pairText, cut_append (hkvs kv hkv).1, Option.getD_some, id]

theorem intercalate_concat (x : α) (l : List (List α)) (a : List α) (h : l ≠ []) :
    [x].intercalate (l ++ [a]) = [x].intercalate l ++ x :: a := by
  induction l with
  | nil => exact absurd rfl h
  | cons b l ih =>
    cases l with
    | nil => simp
    | cons c l =>
      rw [List.cons_append, List.cons_append, List.intercalate_cons_cons, ← List.cons_append,
        ih (by simp), List.intercalate_cons_cons]
      simp

/-- A pair is appended behind the mark if it is the first one, behind `sep` otherwise. -/
theorem render_concat (base : List α) (kvs : List (List α × List α)) (kv : List α × List α) :
    render mark sep eq base (kvs ++ [kv]) =
      render mark sep eq base kvs ++ (if kvs = [] then mark else sep) :: pairText eq kv := by
  unfold render
  by_cases h : kvs = []
  · simp [h]
  · rw [if_neg (by simp), if_neg h, if_neg h, List.map_append, List.map_singleton,
      intercalate_concat _ _ _ (by simpa using h)]
    simp

/-- Behind a first pair every further pair follows a `sep`. -/
theorem render_append (base : List α) {kvs : List (List α × List α)} (h : kvs ≠ [])
    (kvs' : List (List α × List α)) :
    render mark sep eq base (kvs ++ kvs') =
      render mark sep eq base kvs ++ kvs'.flatMap fun kv => sep :: pairText eq kv := by
  induction kvs' generalizing kvs with
  | nil => simp
  | cons kv kvs' ih =>
    have happ : kvs ++ kv :: kvs' = (kvs ++ [kv]) ++ kvs' := by simp
    rw [happ, ih (by simp), render_concat, if_neg h, List.flatMap_cons, List.append_assoc]

theorem mem_intercalate {x a : α} {l : List (List α)} (h : a ∈ [x].intercalate l) :
    a = x ∨ ∃ t ∈ l, a ∈ t := by
  induction l with
  | nil => simp at h
  | cons b l ih =>
    cases l with
    | nil => exact .inr ⟨b, by simp, by simpa using h⟩
    | cons c l =>
      rw [List.intercalate_cons_cons, List.append_assoc, List.mem_append, List.mem_append] at h
      rcases h with h | h | h
      · exact .inr ⟨b, by simp, h⟩
      · exact .inl (by simpa using h)
      · rcases ih h with h | ⟨t, ht, h⟩
        · exact .inl h
        · exact .inr ⟨t, by simp [ht], h⟩

/-- The characters of a query string: those of its base, keys and values, and the three
    separators. -/
theorem mem_render {base : List α} {kvs : List (List α × List α)} {a : α}
    (h : a ∈ render mark sep eq base kvs) :
    a ∈ base ∨ a = mark ∨ a = sep ∨ a = eq ∨ ∃ kv ∈ kvs, a ∈ kv.1 ∨ a ∈ kv.2 := by
  unfold render at h
  split_ifs at h
  · exact .inl h
  · rw [List.mem_append, List.mem_cons] at h
    rcases h with h | h | h
    · exact .inl h
    · exact .inr (.inl h)
    · rcases mem_intercalate h with h | ⟨t, ht, h⟩
      · exact .inr (.inr (.inl h))
      · obtain ⟨kv, hkv, rfl⟩ := List.mem_map.mp ht
        simp only [pairText, List.mem_append, List.mem_cons] at h
        rcases h with h | h | h
        · exact .inr (.inr (.inr (.inr ⟨kv, hkv, .inl h⟩)))
        · exact .inr (.inr (.inr (.inl h)))
        · exact .inr (.inr (.inr (.inr ⟨kv, hkv, .inr h⟩)))

end QueryString
