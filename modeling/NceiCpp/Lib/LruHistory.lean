import NceiCpp.Lib.LruInclusion

/-!
# What an LRU list serves, said by its history

The entries of an LRU list explained by the operations before: an entry is that of the last put
of its key, with nothing since that would have taken it away (`Traced`); and the entry of a key
that was used is in the list as long as fewer other keys are used since than there is room for
(`Near`).

* `step_traced`, `step_near`: what one operation keeps.
* `runTotal_traced`, `runTotal_near`: what a run keeps.
-/

namespace LruList

variable {κ ν : Type} [BEq κ]

/-- The key that an operation puts or gets. -/
def Op.key? : Op κ ν → Option κ
  | .put key _ _ _ => some key
  | .get key _ => some key
  | _ => none

/-- The operation leaves an entry of `key` that was put at `t`: it does not put or take away
    this key, and does not get it when the entry is too old. -/
def Op.Keeps (ttl t : ℤ) (key : κ) : Op κ ν → Prop
  | .put k _ _ _ => (k == key) = false
  | .get k now => (k == key) = true → now - t ≤ ttl
  | .invalidate k => (k == key) = false
  | .clear => False
  | .size => True

/-- The entry is that of the last put of its key, which nothing has taken away. -/
def PutLast (ttl : ℤ) (ops : List (Op κ ν)) (e : Entry κ ν) : Prop :=
  ∃ before fails after, ops = before ++ .put e.key e.value e.insertedAt fails :: after ∧
    ∀ op ∈ after, op.Keeps ttl e.insertedAt e.key

/-- All entries of the list come from the operations so far. -/
structure Traced (maxEntries : ℕ) (ttl : ℤ) (ops : List (Op κ ν)) (l : List (Entry κ ν)) :
    Prop where
  keys : l.Pairwise fun a b => (a.key == b.key) = false
  put : ∀ e ∈ l, PutLast ttl ops e
  disabled : maxEntries = 0 ∨ ttl ≤ 0 → l = []

variable {maxEntries : ℕ} {ttl t : ℤ} {ops : List (Op κ ν)} {l : List (Entry κ ν)} {key : κ}
  {value : ν} {e : Entry κ ν}

theorem PutLast.snoc (h : PutLast ttl ops e) {op : Op κ ν}
    (hop : op.Keeps ttl e.insertedAt e.key) : PutLast ttl (ops ++ [op]) e := by
  obtain ⟨before, fails, after, rfl, hafter⟩ := h
  refine ⟨before, fails, after ++ [op], by simp, fun op' hop' => ?_⟩
  rcases List.mem_append.mp hop' with hop' | hop'
  · exact hafter op' hop'
  · rwa [List.mem_singleton.mp hop']

theorem traced_nil (maxEntries : ℕ) (ttl : ℤ) : Traced maxEntries ttl ([] : List (Op κ ν)) [] :=
  ⟨.nil, by simp, fun _ => rfl⟩

section Equivalence

variable [EquivBEq κ]

theorem Op.Keeps.congr {op : Op κ ν} {k : κ} (h : op.Keeps ttl t key) (hk : (key == k) = true) :
    op.Keeps ttl t k := by
  cases op with
  | put k' value now fails =>
    show (k' == k) = false
    rw [← BEq.congr_right hk]
    exact h
  | get k' now =>
    intro hget
    rw [← BEq.congr_right hk] at hget
    exact h hget
  | invalidate k' =>
    show (k' == k) = false
    rw [← BEq.congr_right hk]
    exact h
  | clear => exact h
  | size => trivial

/-- What is left when the entry of `key` is removed. -/
theorem mem_remove (hkeys : l.Pairwise fun a b => (a.key == b.key) = false)
    (he : e ∈ remove key l) : e ∈ l ∧ (e.key == key) = false :=
  ⟨List.mem_of_mem_eraseP he, remove_ne hkeys key e he⟩

/-- An operation keeps the list explained by the history. -/
theorem step_traced (h : Traced maxEntries ttl ops l) (op : Op κ ν) :
    Traced maxEntries ttl (ops ++ [op]) (step maxEntries ttl l op).2 := by
  have hsub : ∀ {l' : List (Entry κ ν)}, l'.Sublist l →
      (∀ e ∈ l', op.Keeps ttl e.insertedAt e.key) → Traced maxEntries ttl (ops ++ [op]) l' := by
    intro l' hl' hkeeps
    refine ⟨h.keys.sublist hl', fun e he => (h.put e (hl'.subset he)).snoc (hkeeps e he), ?_⟩
    intro hoff
    rw [h.disabled hoff] at hl'
    exact List.sublist_nil.mp hl'
  cases op with
  | put key value now fails =>
    simp only [step, put]
    split_ifs with hoff hfails
    · rw [h.disabled hoff] at hsub ⊢
      exact hsub (List.Sublist.refl _) (by simp)
    · refine hsub (List.Sublist.refl _) fun e he => ?_
      have hnone := find_eq_none_iff.mp (Option.isNone_iff_eq_none.mp hfails.2)
      show (key == e.key) = false
      rw [BEq.comm]
      exact hnone e he
    · have hput : PutLast ttl (ops ++ [.put key value now fails]) ⟨key, value, now⟩ :=
        ⟨ops, fails, [], rfl, by simp⟩
      refine ⟨(cons_keys h.keys BEq.rfl).sublist (List.take_sublist _ _), fun e he => ?_,
        fun hoff' => absurd hoff' hoff⟩
      rcases List.mem_cons.mp (List.mem_of_mem_take he) with rfl | he
      · exact hput
      · obtain ⟨hmem, hne⟩ := mem_remove h.keys he
        refine (h.put e hmem).snoc ?_
        show (key == e.key) = false
        rwa [BEq.comm]
  | get key now =>
    simp only [step, get]
    have hrest : ∀ a ∈ remove key l, Op.Keeps ttl a.insertedAt a.key (.get key now : Op κ ν) := by
      intro a ha hkey
      rw [BEq.comm, (mem_remove h.keys ha).2] at hkey
      cases hkey
    cases hfind : find key l with
    | none =>
      refine hsub (List.Sublist.refl _) fun e he hkey => ?_
      rw [BEq.comm, find_eq_none_iff.mp hfind e he] at hkey
      cases hkey
    | some e =>
      dsimp only
      split_ifs with hold
      · exact hsub List.eraseP_sublist hrest
      · obtain ⟨he, hkey⟩ := find_eq_some_mem hfind
        refine ⟨cons_keys h.keys hkey, fun a ha => ?_, fun hoff => ?_⟩
        · rcases List.mem_cons.mp ha with rfl | ha
          · exact (h.put a he).snoc fun _ => not_lt.mp hold
          · exact (h.put a (mem_remove h.keys ha).1).snoc (hrest a ha)
        · rw [h.disabled hoff] at he
          cases he
  | invalidate key =>
    refine hsub List.eraseP_sublist fun e he => ?_
    show (key == e.key) = false
    rw [BEq.comm]
    exact (mem_remove h.keys he).2
  | clear => exact hsub (List.nil_sublist _) fun e he => by cases he
  | size => exact hsub (List.Sublist.refl _) fun e he => trivial

theorem runTotal_traced {past : List (Op κ ν)} (h : Traced maxEntries ttl past l)
    (ops : List (Op κ ν)) :
    Traced maxEntries ttl (past ++ ops) (Simulation.runTotal (step maxEntries ttl) l ops).2 := by
  induction ops generalizing past l with
  | nil =>
    rw [List.append_nil]
    exact h
  | cons op ops ih =>
    have hnext := ih (step_traced h op)
    rwa [List.append_assoc, List.singleton_append] at hnext

/-! ## Entries that stay -/

/-- The key is one of `others`. -/
def Among (others : List κ) (key : κ) : Prop := ∃ k ∈ others, (key == k) = true

/-- The entry `e` is in the list, behind keys of `others` only. -/
structure Near (others : List κ) (e : Entry κ ν) (l : List (Entry κ ν)) : Prop where
  keys : l.Pairwise fun a b => (a.key == b.key) = false
  split : ∃ front back, l = front ++ e :: back ∧ ∀ a ∈ front, Among others a.key

/-- Entries with different keys among `others` are no more than these. -/
theorem length_le_of_among {others : List κ} {front : List (Entry κ ν)}
    (hkeys : front.Pairwise fun a b => (a.key == b.key) = false)
    (hfront : ∀ a ∈ front, Among others a.key) : front.length ≤ others.length := by
  induction front generalizing others with
  | nil => exact Nat.zero_le _
  | cons a front ih =>
    obtain ⟨ha, hrest⟩ := List.pairwise_cons.mp hkeys
    obtain ⟨k, hk, hak⟩ := hfront a List.mem_cons_self
    have hless : ∀ b ∈ front, Among (others.eraseP fun k' => a.key == k') b.key := by
      intro b hb
      obtain ⟨k', hk', hbk⟩ := hfront b (List.mem_cons_of_mem _ hb)
      refine ⟨k', ?_, hbk⟩
      rw [List.mem_eraseP_of_neg]
      · exact hk'
      · have hne := ha b hb
        rw [← BEq.congr_right hbk, hne]
        simp
    have hlen : (others.eraseP fun k' => a.key == k').length = others.length - 1 :=
      List.length_eraseP_of_mem hk hak
    have hpos := List.length_pos_of_mem hk
    have := ih hrest hless
    rw [List.length_cons]
    omega

omit [EquivBEq κ] in
theorem Near.remove {others : List κ} (h : Near others e l) {k : κ} (hk : (e.key == k) = false) :
    Near others e (LruList.remove k l) := by
  obtain ⟨front, back, rfl, hfront⟩ := h.split
  refine ⟨h.keys.sublist List.eraseP_sublist, ?_⟩
  rw [LruList.remove, List.eraseP_append]
  split_ifs
  · exact ⟨_, _, rfl, fun a ha => hfront a (List.mem_of_mem_eraseP ha)⟩
  · rw [List.eraseP_cons_of_neg (by simp [hk])]
    exact ⟨_, _, rfl, hfront⟩

/-- The entry of one of the other keys is put in front. -/
theorem Near.cons {others : List κ} (h : Near others e l) {a : Entry κ ν} {k : κ}
    (hak : (a.key == k) = true) (hk : (e.key == k) = false) (hother : Among others k) :
    Near others e (a :: LruList.remove k l) := by
  obtain ⟨front, back, hsplit, hfront⟩ := (h.remove hk).split
  obtain ⟨k', hk', hkk⟩ := hother
  refine ⟨cons_keys h.keys hak, a :: front, back, by rw [hsplit]; rfl, ?_⟩
  exact List.forall_mem_cons.mpr ⟨⟨k', hk', BEq.trans hak hkk⟩, hfront⟩

/-- Where there is room for more than the other keys, the entry is not cut off. -/
theorem Near.take {others : List κ} (h : Near others e l) (hroom : others.length < maxEntries) :
    Near others e (l.take maxEntries) := by
  obtain ⟨front, back, rfl, hfront⟩ := h.split
  have hlen := length_le_of_among (List.pairwise_append.mp h.keys).1 hfront
  refine ⟨h.keys.sublist (List.take_sublist _ _), front,
    back.take (maxEntries - front.length - 1), ?_, hfront⟩
  rw [List.take_append, List.take_of_length_le (by omega),
    show maxEntries - front.length = maxEntries - front.length - 1 + 1 by omega,
    List.take_succ_cons, Nat.add_sub_cancel]

theorem Near.find {others : List κ} (h : Near others e l) {k : κ} (hk : (e.key == k) = true) :
    LruList.find k l = some e := by
  obtain ⟨front, back, rfl, -⟩ := h.split
  exact find_of_mem h.keys (by simp) hk

/-- The key that an operation puts or gets has its entry in front, if it has one. -/
theorem step_used (h : Traced maxEntries ttl ops l) {op : Op κ ν} {k : κ} (hop : op.key? = some k)
    (he : e ∈ (step maxEntries ttl l op).2) (hek : (e.key == k) = true) (others : List κ) :
    Near others e (step maxEntries ttl l op).2 := by
  refine ⟨(step_traced h op).keys, [], ?_⟩
  suffices hfirst : ∃ back, (step maxEntries ttl l op).2 = e :: back by
    obtain ⟨back, hback⟩ := hfirst
    exact ⟨back, hback, by simp⟩
  have habsent : e ∉ remove k l := by
    intro hmem
    rw [remove_ne h.keys k e hmem] at hek
    cases hek
  cases op with
  | put key value now fails =>
    obtain rfl : key = k := Option.some.inj hop
    simp only [step, put] at he ⊢
    split_ifs at he ⊢ with hoff hfails
    · rw [h.disabled hoff] at he
      cases he
    · have hnone := find_eq_none_iff.mp (Option.isNone_iff_eq_none.mp hfails.2) e he
      rw [hnone] at hek
      cases hek
    · rcases List.mem_cons.mp (List.mem_of_mem_take he) with rfl | hmem
      · cases maxEntries with
        | zero => cases he
        | succ n => exact ⟨_, List.take_succ_cons⟩
      · exact absurd hmem habsent
  | get key now =>
    obtain rfl : key = k := Option.some.inj hop
    simp only [step, get] at he ⊢
    cases hfind : LruList.find key l with
    | none =>
      rw [hfind] at he
      rw [find_eq_none_iff.mp hfind e he] at hek
      cases hek
    | some a =>
      rw [hfind] at he
      dsimp only at he ⊢
      split_ifs at he ⊢
      · exact absurd he habsent
      · rcases List.mem_cons.mp he with rfl | hmem
        · exact ⟨_, rfl⟩
        · exact absurd hmem habsent
  | invalidate key => cases hop
  | clear => cases hop
  | size => cases hop

/-- An operation that leaves the entry and uses its key or one of the others keeps it near. -/
theorem step_near {others : List κ} (hroom : others.length < maxEntries) (h : Near others e l)
    {op : Op κ ν} (hkeeps : op.Keeps ttl e.insertedAt e.key)
    (hother : ∀ k, op.key? = some k → (k == e.key) = true ∨ Among others k) :
    Near others e (step maxEntries ttl l op).2 := by
  have hne : ∀ {k : κ}, (k == e.key) = false → (e.key == k) = false := by
    intro k hk
    rwa [BEq.comm]
  cases op with
  | put key value now fails =>
    have hkeeps : (key == e.key) = false := hkeeps
    have hother : Among others key := (hother key rfl).resolve_left (by simp [hkeeps])
    simp only [step, put]
    split_ifs
    · exact h
    · exact h
    · exact (h.cons BEq.rfl (hne hkeeps) hother).take hroom
  | get key now =>
    simp only [step, get]
    cases hfind : LruList.find key l with
    | none => exact h
    | some a =>
      obtain ⟨ha, hak⟩ := find_eq_some_mem hfind
      dsimp only
      cases hkey : key == e.key with
      | true =>
        -- the entry itself is moved to the front
        have hea : a = e := by
          rw [h.find (by rwa [BEq.comm])] at hfind
          exact (Option.some.inj hfind).symm
        subst hea
        rw [if_neg (not_lt.mpr (hkeeps hkey))]
        exact ⟨cons_keys h.keys hak, [], _, rfl, by simp⟩
      | false =>
        have hother : Among others key := (hother key rfl).resolve_left (by simp [hkey])
        split_ifs
        · exact h.remove (hne hkey)
        · exact h.cons hak (hne hkey) hother
  | invalidate key => exact h.remove (hne hkeeps)
  | clear => exact hkeeps.elim
  | size => exact h

theorem runTotal_near {others : List κ} (hroom : others.length < maxEntries) (h : Near others e l)
    {ops : List (Op κ ν)} (hkeeps : ∀ op ∈ ops, op.Keeps ttl e.insertedAt e.key)
    (hother : ∀ op ∈ ops, ∀ k, op.key? = some k → (k == e.key) = true ∨ Among others k) :
    Near others e (Simulation.runTotal (step maxEntries ttl) l ops).2 := by
  induction ops generalizing l with
  | nil => exact h
  | cons op ops ih =>
    rw [List.forall_mem_cons] at hkeeps hother
    exact ih (step_near hroom h hkeeps.1 hother.1) hkeeps.2 hother.2

end Equivalence

end LruList
