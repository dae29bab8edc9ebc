import NceiCpp.Core.Cache
import NceiCpp.Lib.LruHistory

/-!
# The cache and its history

What a user of `LruCache` can rely on, said without its state: which value a `get` returns, and
when it returns one. The operations of a run are those of all threads in the order in which
they hold the mutex.

* `get_last_put`: a `get` returns nothing but the value that was put last.
* `get_recently_used`: it does return it while fewer other keys were used since than there is
  room for.
-/

namespace NceiCpp.Core.LruCache

open LruList (Entry Op Outcome)

variable {Key Value : Type} [BEq Key] [Hashable Key] [EquivBEq Key] [LawfulHashable Key]
  {config : Config}

/-- The state behind a run, with the LRU list it holds. -/
theorem run_state (config : Config) (ops : List (Op Key Value)) :
    ∃ results c l, Simulation.run step (new config) ops = some (results, c) ∧
      c.Refines config l ∧ l.length ≤ config.maxEntries ∧
      l = (Simulation.runTotal (LruList.step config.maxEntries (config.ttl * nsPerSecond)) []
        ops).2 ∧
      LruList.Traced config.maxEntries (config.ttl * nsPerSecond) ops l := by
  have hstart : (new config : LruCache Key Value).Refines config [] ∧
      ([] : List (Entry Key Value)).length ≤ config.maxEntries :=
    ⟨new_refines config, Nat.zero_le _⟩
  obtain ⟨c, hrun, hc, hlen⟩ := Simulation.run_eq (step_simulates config) hstart ops
  have htraced := LruList.runTotal_traced
    (LruList.traced_nil config.maxEntries (config.ttl * nsPerSecond)) ops
  exact ⟨_, c, _, hrun, hc, hlen, rfl, htraced⟩

/-- For every configuration and every sequence of operations: the value that a `get` then
    returns is that of the last put of its key. It is not older than the time to live, was
    not invalidated or cleared since, and no earlier `get` found it too old. -/
theorem get_last_put (config : Config) (ops : List (Op Key Value)) :
    ∃ results c, Simulation.run step (new config) ops = some (results, c) ∧
      ∀ key now value c', c.get key now = some (.found (some value), c') →
        ∃ before k t fails after, ops = before ++ .put k value t fails :: after ∧
          (k == key) = true ∧ now - t ≤ config.ttl * nsPerSecond ∧
          ∀ op ∈ after, op.Keeps (config.ttl * nsPerSecond) t key := by
  obtain ⟨results, c, l, hrun, hc, -, -, htraced⟩ := run_state config ops
  refine ⟨results, c, hrun, fun key now value c' hget => ?_⟩
  obtain ⟨c'', hsame, -⟩ := get_simulates hc key now
  rw [hget, Option.some.injEq, Prod.mk.injEq] at hsame
  have hfound := hsame.1
  unfold LruList.get at hfound
  cases hfind : LruList.find key l with
  | none => simp [hfind] at hfound
  | some e =>
    rw [hfind] at hfound
    dsimp only at hfound
    split_ifs at hfound with hold
    · simp at hfound
    · obtain ⟨he, hkey⟩ := LruList.find_eq_some_mem hfind
      obtain ⟨before, fails, after, hops, hafter⟩ := htraced.put e he
      obtain rfl : value = e.value := by simpa using hfound
      refine ⟨before, e.key, e.insertedAt, fails, after, hops, hkey, not_lt.mp hold, ?_⟩
      exact fun op hop => (hafter op hop).congr hkey

/-- A value that was put again: a `get` returns the new one, from the last put of its key. -/
theorem get_last_put_again :
    let ops : List (Op ℕ ℕ) := [.put 1 10 0 false, .put 2 20 3 false, .put 1 11 5 false]
    ∃ results c c', Simulation.run step (new {}) ops = some (results, c) ∧
      c.get 1 6 = some (.found (some 11), c') ∧
      ∃ before k t fails after, ops = before ++ .put k 11 t fails :: after ∧
        (k == 1) = true ∧ 6 - t ≤ ({} : Config).ttl * nsPerSecond ∧
        ∀ op ∈ after, op.Keeps (({} : Config).ttl * nsPerSecond) t 1 := by
  intro ops
  obtain ⟨results, c, hrun, hlast⟩ := get_last_put {} ops
  have hget : ∃ c', c.get 1 6 = some (.found (some 11), c') := by
    obtain ⟨_, c0, l, hrun', hc, -, hl, -⟩ := run_state {} ops
    obtain ⟨-, rfl⟩ := Prod.mk.inj (Option.some.inj (hrun.symm.trans hrun'))
    obtain ⟨c', hget, -⟩ := get_simulates hc 1 6
    refine ⟨c', ?_⟩
    rw [hget, hl]
    simp [ops, Simulation.runTotal, LruList.step, LruList.put, LruList.remove, LruList.get,
      LruList.find, nsPerSecond]
  obtain ⟨c', hget⟩ := hget
  exact ⟨results, c, c', hrun, hget, hlast 1 6 11 c' hget⟩

/-- For every configuration and every sequence of operations whose last one puts or gets `key`:
    what the cache then holds for the key, the next `get` of it returns, whatever is done in
    between that does not take it away (no other put, no invalidation, no clear, no `get`
    when it is too old), as long as that is about fewer other keys than `max_entries`. -/
theorem get_recently_used (config : Config) (ops : List (Op Key Value)) (op : Op Key Value)
    {key : Key} (hused : ∃ k, op.key? = some k ∧ (k == key) = true) :
    ∃ results c, Simulation.run step (new config) (ops ++ [op]) = some (results, c) ∧
      ∀ value t, c.Holds key value t → ∀ others : List Key, others.length < config.maxEntries →
      ∀ after : List (Op Key Value),
        (∀ o ∈ after, o.Keeps (config.ttl * nsPerSecond) t key) →
        (∀ o ∈ after, ∀ k, o.key? = some k → (k == key) = true ∨ LruList.Among others k) →
        ∃ results' c', Simulation.run step c after = some (results', c') ∧
          ∀ now, now - t ≤ config.ttl * nsPerSecond →
            ∃ c'', c'.get key now = some (.found (some value), c'') := by
  obtain ⟨results, c, l, hrun, hc, hlen, hl, htraced⟩ := run_state config (ops ++ [op])
  refine ⟨results, c, hrun, fun value t hholds others hroom after hkeeps hothers => ?_⟩
  obtain ⟨e, he, hkey, rfl, rfl⟩ := (hc.holds_iff key value t).mp hholds
  obtain ⟨k, hop, hk⟩ := hused
  have hnear : LruList.Near others e l := by
    have hbefore := LruList.runTotal_traced
      (LruList.traced_nil config.maxEntries (config.ttl * nsPerSecond)) ops
    rw [hl, Simulation.runTotal_concat] at he ⊢
    exact LruList.step_used hbefore hop he (BEq.trans hkey (BEq.symm hk)) others
  obtain ⟨c', hrun', hc', -⟩ := Simulation.run_eq (step_simulates config) ⟨hc, hlen⟩ after
  have hback : (key == e.key) = true := BEq.symm hkey
  have hlast := LruList.runTotal_near hroom hnear
    (fun o ho => (hkeeps o ho).congr hback)
    (fun o ho k' hk' => (hothers o ho k' hk').imp_left fun h => BEq.trans h hback)
  refine ⟨_, c', hrun', fun now hnow => ?_⟩
  obtain ⟨c'', hget, -⟩ := get_simulates hc' key now
  refine ⟨c'', ?_⟩
  rw [hget, LruList.get, hlast.find hkey]
  dsimp only
  rw [if_neg (not_lt.mpr hnow)]

/-- With room for two entries, a key that was put is served behind one other key. -/
theorem get_recently_used_twoEntries :
    ∃ results c, Simulation.run step (new { maxEntries := 2 }) [.put 1 10 0 false] =
        some (results, c) ∧
      ∃ results' c' c'', Simulation.run step c [.put 2 20 1 false, .put 2 21 3 false] =
        some (results', c') ∧ c'.get 1 5 = some (.found (some 10), c'') := by
  obtain ⟨results, c, hrun, hretained⟩ := get_recently_used { maxEntries := 2 } []
    (.put 1 10 0 false : Op ℕ ℕ) ⟨1, rfl, (rfl : (1 == 1) = true)⟩
  have hholds : c.Holds 1 10 0 := by
    obtain ⟨results', c', l, hrun', hc, -, hl, -⟩ :=
      run_state { maxEntries := 2 } [(.put 1 10 0 false : Op ℕ ℕ)]
    obtain ⟨-, rfl⟩ := Prod.mk.inj (Option.some.inj (hrun.symm.trans hrun'))
    exact (hc.holds_iff 1 10 0).mpr ⟨⟨1, 10, 0⟩, by rw [hl]; simp [Simulation.runTotal,
      LruList.step, LruList.put, LruList.remove, nsPerSecond], rfl, rfl, rfl⟩
  obtain ⟨results', c', hrun', hget⟩ := hretained 10 0 hholds [2] (by decide)
    [.put 2 20 1 false, .put 2 21 3 false] (by simp [Op.Keeps]) (by simp [Op.key?, LruList.Among])
  obtain ⟨c'', hc''⟩ := hget 5 (by decide)
  exact ⟨results, c, hrun, results', c', c'', hrun', hc''⟩

end NceiCpp.Core.LruCache
