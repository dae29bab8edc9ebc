import NceiCpp.Api.CdoRetries
import NceiCpp.Api.PagingServer

/-!
# `get_data_all` over a faulty transport

`get_data_all` through all layers of the client: the requests of its two loops are made by
`do_get`, whose retries, quota checks and waits stand between it and a transport that fails
now and then.

* `getDataAll_over_faults`: what it returns is complete. It fails only with the error of a
  request or a refusal, and only with a refusal if the transport does not fail as often in
  a row as `do_get` tries.
-/

namespace NceiCpp.Api

open Interaction Exec IntervalChunks NceiCpp.Core NceiCpp.Models

variable {env : Env} {glaze : Glaze} {params : GetDataParams}

/-- The request `n` was sent since `w0`, for `path`. -/
def SentAs (w0 w : World) (n : ℕ) (path : Bytes) : Prop :=
  w0.requests ≤ n ∧ (sentPaths w.log)[n]? = some path

/-- Every request since `w0` is answered by the server with the records `R`, or fails. -/
def ServesOrFails (env : Env) (glaze : Glaze) (matching : GetDataParams → List DataRecord)
    (w0 w : World) : Prop :=
  ∀ n path, SentAs w0 w n path → Serves glaze matching (path, env.transport n path) ∨
    ∃ e, dataPage glaze (env.transport n path) = .error e

/-- The failures are such that `do_get` tries again, and fewer in a row than it tries. -/
def Recovers (env : Env) (glaze : Glaze) (matching : GetDataParams → List DataRecord)
    (policy : RetryPolicy) (w0 w : World) : Prop :=
  (∀ n path, SentAs w0 w n path → Serves glaze matching (path, env.transport n path) ∨
    shouldRetry (env.transport n path) policy = true) ∧
  ∀ n path, (∀ i < policy.maxAttempts.toNat, SentAs w0 w (n + i) path) →
    ∃ i < policy.maxAttempts.toNat, Serves glaze matching (path, env.transport (n + i) path)

/-! ## Answers -/

theorem Serves.not_retried {matching : GetDataParams → List DataRecord} {path : Bytes}
    {r : Result HttpResponse} (h : Serves glaze matching (path, r)) (policy : RetryPolicy) :
    shouldRetry r policy = false := by
  obtain ⟨-, response, hr, hstatus, -⟩ := h
  have hr : r = .ok response := hr
  rw [hr]
  simp [shouldRetry, shouldRetryResponse, hstatus]

theorem Since.sentAs {path : Bytes} {w0 w1 w : World} {n : ℕ} (h : Since path w1 n w)
    (hw : Counted w1) (hle : w0.requests ≤ w1.requests) {i : ℕ} (hi : i < n) :
    SentAs w0 w (w1.requests + i) path := by
  refine ⟨hle.trans (Nat.le_add_right _ _), ?_⟩
  rw [h.sent, hw, List.getElem?_append_right (Nat.le_add_right _ _),
    Nat.add_sub_cancel_left, List.getElem?_replicate, if_pos hi]

theorem SentAs.mono {w0 w w' : World} (h : sentPaths w.log <+: sentPaths w'.log) {n : ℕ}
    {path : Bytes} (hn : SentAs w0 w n path) : SentAs w0 w' n path := by
  obtain ⟨l, hl⟩ := h
  refine ⟨hn.1, ?_⟩
  have hlt := (List.getElem?_eq_some_iff.mp hn.2).1
  rw [← hl, List.getElem?_append_left hlt]
  exact hn.2

/-- An answer of `do_get` is a page of the server, or makes `get_data` fail. -/
theorem Answered.serves_or_fails {policy : RetryPolicy} {w0 w1 w2 w' : World} {path : Bytes}
    {result : Result HttpResponse} (h : Answered env policy w1 path w2 result) (hw : Counted w1)
    (hle : w0.requests ≤ w1.requests) (hpre : sentPaths w2.log <+: sentPaths w'.log)
    {matching : GetDataParams → List DataRecord}
    (hserver : ServesOrFails env glaze matching w0 w') :
    Serves glaze matching (path, result) ∨ ∃ e, dataPage glaze result = .error e := by
  cases h with
  | @sent n hsince _ _ _ =>
    exact hserver _ _ ((hsince.sentAs hw hle (Nat.lt_succ_self n)).mono hpre)
  | refused => exact .inr ⟨_, rfl⟩

/-- Where the transport recovers, an answer of `do_get` is a page of the server or a
    refusal. -/
theorem Answered.serves_or_refused {policy : RetryPolicy} {w0 w1 w2 w' : World} {path : Bytes}
    {result : Result HttpResponse} (h : Answered env policy w1 path w2 result) (hw : Counted w1)
    (hle : w0.requests ≤ w1.requests) (hpre : sentPaths w2.log <+: sentPaths w'.log)
    {matching : GetDataParams → List DataRecord}
    (hrecovers : Recovers env glaze matching policy w0 w') :
    Serves glaze matching (path, result) ∨
      ∃ e, result = .error e ∧ Refusal w1.limiter.config e := by
  cases h with
  | @sent n hsince hretried _ hlast =>
    have hsent : ∀ i < n + 1, SentAs w0 w' (w1.requests + i) path :=
      fun i hi => (hsince.sentAs hw hle hi).mono hpre
    rcases hrecovers.1 _ _ (hsent n (Nat.lt_succ_self n)) with hserves | hretry
    · exact .inl hserves
    · have hmax := hlast hretry
      obtain ⟨i, hi, hserves⟩ := hrecovers.2 w1.requests path (hmax ▸ hsent)
      -- a request that was served is not tried again, so it is the last one
      rcases Nat.lt_succ_iff_lt_or_eq.mp (hmax ▸ hi) with hlt | rfl
      · have hagain := hretried i hlt
        rw [hserves.not_retried policy] at hagain
        cases hagain
      · exact .inl hserves
  | refused _ _ _ hrefusal => exact .inr ⟨_, rfl, hrefusal⟩

/-! ## The result -/

/-- A run with every exchange answered by the server returns the records of the chunks. -/
theorem getDataAll_served (day : DataRecord → ℤ) (R : List DataRecord) {m n : ℤ}
    (hm : dayOf params.startDate = .ok m) (hn : dayOf params.endDate = .ok n) (hmn : m ≤ n)
    (hmeta : params.includeMetadata ≠ some false) (hlimit : 1 ≤ (pageLimit params).toInt)
    {t : List Exchange} {res : Result (List DataRecord)}
    (hrun : (getDataAll glaze params).Runs t res)
    (hserves : ∀ x ∈ t, Serves glaze (matchingOf day R) x) :
    res = .ok ((chunksOf params).flatMap (recordsIn day R)) := by
  obtain ⟨hchunks, -⟩ := getDataAll_chunks hm hn hmn hrun
  refine hchunks.result (fun range _ acc t' res' hp hs => ?_) hserves
  exact (hp.served hmeta hlimit (matchingOf_pagePath day R range) hs (by decide)).1

/-- The records of the chunks are those of the range. -/
theorem records_chunksOf (day : DataRecord → ℤ) (R : List DataRecord) {m n : ℤ}
    (hm : dayOf params.startDate = .ok m) (hn : dayOf params.endDate = .ok n) (hmn : m ≤ n) :
    ((chunksOf params).flatMap (recordsIn day R)).Perm (within day R m n) ∧
      (R.Pairwise (fun a b => day a ≤ day b) →
        (chunksOf params).flatMap (recordsIn day R) = within day R m n) := by
  have hc := chunksOf_chunked hm hn hmn
  have hflat : (chunksOf params).flatMap (recordsIn day R) =
      ((chunksOf params).map rangeDays).flatMap fun c => within day R c.1 c.2 := by
    rw [List.flatMap_map]
    rfl
  rw [hflat]
  exact ⟨hc.flatMap_perm day (by norm_num) R,
    fun hsorted => hc.flatMap_eq day (by norm_num) hsorted⟩

section perform

variable {policy : RetryPolicy} {w w' : World} {m n : ℤ}

theorem pageLimit_pos (hlimit : ∀ l, params.limit = some l → 1 ≤ l.toInt) :
    1 ≤ (pageLimit params).toInt := by
  unfold pageLimit
  cases hl : params.limit with
  | none => decide
  | some l => exact hlimit l hl

/-- Records are only returned in a run whose exchanges are all served. -/
theorem getDataAll_sound (day : DataRecord → ℤ) (R : List DataRecord)
    (hm : dayOf params.startDate = .ok m) (hn : dayOf params.endDate = .ok n) (hmn : m ≤ n)
    (hmeta : params.includeMetadata ≠ some false)
    (hlimit : ∀ l, params.limit = some l → 1 ≤ l.toInt)
    (hmax : 0 < policy.maxAttempts.toNat) (hw : Counted w) {records : List DataRecord}
    (h : perform (doGet env policy true) (getDataAll glaze params) w = (some (.ok records), w'))
    (hserver : ServesOrFails env glaze (matchingOf day R) w w') :
    records = (chunksOf params).flatMap (recordsIn day R) := by
  obtain ⟨t, hruns, hrun⟩ := perform_run hmax h
  obtain ⟨hchunks, -⟩ := getDataAll_chunks hm hn hmn hruns
  have hall : ∀ x ∈ t, Serves glaze (matchingOf day R) x := by
    intro x hx
    obtain ⟨w1, w2, hanswer, hcounted, hle, -, hpre⟩ := hrun.mem hw hx
    rcases hanswer.serves_or_fails hcounted hle hpre hserver with hserves | ⟨e, he⟩
    · exact hserves
    · obtain ⟨t1, t2, rfl⟩ := List.append_of_mem hx
      cases (hchunks.of_failed rfl he).2
  have hrecords := getDataAll_served day R hm hn hmn hmeta (pageLimit_pos hlimit) hruns hall
  rwa [Except.ok.injEq] at hrecords

/-- Where the transport recovers, records are returned, or a request was refused. -/
theorem getDataAll_recovers (day : DataRecord → ℤ) (R : List DataRecord)
    (hm : dayOf params.startDate = .ok m) (hn : dayOf params.endDate = .ok n) (hmn : m ≤ n)
    (hmeta : params.includeMetadata ≠ some false)
    (hlimit : ∀ l, params.limit = some l → 1 ≤ l.toInt)
    (hmax : 0 < policy.maxAttempts.toNat) (hw : Counted w) {res : Result (List DataRecord)}
    (h : perform (doGet env policy true) (getDataAll glaze params) w = (some res, w'))
    (hrecovers : Recovers env glaze (matchingOf day R) policy w w') :
    (∃ records, res = .ok records) ∨ ∃ e, res = .error e ∧ Refusal w.limiter.config e := by
  obtain ⟨t, hruns, hrun⟩ := perform_run hmax h
  obtain ⟨hchunks, -⟩ := getDataAll_chunks hm hn hmn hruns
  by_cases hall : ∀ x ∈ t, Serves glaze (matchingOf day R) x
  · exact .inl ⟨_, getDataAll_served day R hm hn hmn hmeta (pageLimit_pos hlimit) hruns hall⟩
  · push Not at hall
    obtain ⟨x, hx, hnot⟩ := hall
    obtain ⟨w1, w2, hanswer, hcounted, hle, hconfig, hpre⟩ := hrun.mem hw hx
    rcases hanswer.serves_or_refused hcounted hle hpre hrecovers with hserves | ⟨e, he, hrefusal⟩
    · exact absurd hserves hnot
    · obtain ⟨t1, t2, rfl⟩ := List.append_of_mem hx
      have hfail : dataPage glaze x.2 = .error e := by
        rw [he]
        rfl
      exact .inr ⟨e, (hchunks.of_failed rfl hfail).2, hconfig ▸ hrefusal⟩

end perform

/-- `get_data_all` through retries, quota checks and waits, over a transport each of whose
    requests is answered by a server that holds `R` or fails. What it returns has the records
    of `R` in the range, each once, and in the order of `R` if that is the order of the dates:
    no request that fails, is repeated or is given up takes records away or adds some. Where
    `do_get` tries again after each failure, and tries more often than the transport fails in
    a row, it returns them, or the client has refused to send a request. -/
theorem getDataAll_over_faults (day : DataRecord → ℤ) (R : List DataRecord) {m n : ℤ}
    (hm : dayOf params.startDate = .ok m) (hn : dayOf params.endDate = .ok n) (hmn : m ≤ n)
    (hmeta : params.includeMetadata ≠ some false)
    (hlimit : ∀ l, params.limit = some l → 1 ≤ l.toInt) {policy : RetryPolicy}
    (hmax : 0 < policy.maxAttempts.toNat) {w w' : World} (hw : Counted w)
    {res : Result (List DataRecord)}
    (h : perform (doGet env policy true) (getDataAll glaze params) w = (some res, w'))
    (hserver : ServesOrFails env glaze (matchingOf day R) w w') :
    (∀ records, res = .ok records →
      records = (chunksOf params).flatMap (recordsIn day R) ∧
        records.Perm (within day R m n) ∧
        (R.Pairwise (fun a b => day a ≤ day b) → records = within day R m n)) ∧
    (Recovers env glaze (matchingOf day R) policy w w' →
      (∃ records, res = .ok records) ∨ ∃ e, res = .error e ∧ Refusal w.limiter.config e) := by
  refine ⟨?_, fun hrecovers =>
    getDataAll_recovers day R hm hn hmn hmeta hlimit hmax hw h hrecovers⟩
  rintro records rfl
  have hrecords := getDataAll_sound day R hm hn hmn hmeta hlimit hmax hw h hserver
  refine ⟨hrecords, ?_⟩
  rw [hrecords]
  exact records_chunksOf day R hm hn hmn

/-! ### One failure -/

/-- Clocks under which nothing is waited for. -/
def quietEnv (transport : ℕ → Bytes → Result HttpResponse) : Env where
  sys := fun _ => 0
  steady := fun n => n
  transport := transport
  retryDelay := fun _ => 200
  turns := 1

section quietEnv

variable {transport : ℕ → Bytes → Result HttpResponse}

theorem doGet_again {path : Bytes} (hagain : shouldRetry (transport 0 path) {} = true)
    (hdone : shouldRetry (transport 1 path) {} = false) : ∃ w,
    doGet (quietEnv transport) {} true path (newWorld (quietEnv transport) {}) =
      (some (transport 1 path), w) ∧
    w.limiter = limiterLeft 3 4 2 ∧ w.readings = 8 ∧ w.requests = 2 ∧
      sentPaths w.log = [path, path] := by
  have hnew : (newWorld (quietEnv transport) {}).limiter = limiterLeft 5 0 0 := rfl
  have hfresh : 0 < (limiterLeft 5 0 0).dailyRequestsRemaining 0 := by decide
  have hfirst : (limiterLeft 5 0 0).tryAcquire 0 ((4 : ℕ) : ℤ) = (true, limiterLeft 4 4 1) := by
    decide
  have hquota : 0 < (limiterLeft 4 4 1).dailyRequestsRemaining 0 := by decide
  have htry : (limiterLeft 4 4 1).tryAcquire 0 ((7 : ℕ) : ℤ) = (true, limiterLeft 3 4 2) := by
    decide
  obtain ⟨w, hagain, hlimiter, hreadings, hrequests, hlog⟩ :=
    @withRetryFrom_granted (quietEnv transport) {} 1 (newWorld (quietEnv transport) {}) _ _ path
      2 _ hnew rfl hfresh rfl rfl hfirst hagain (by decide)
  have hsecond : attemptGet (quietEnv transport) path w = (some _, _) :=
    attemptGet_granted hlimiter hreadings hquota rfl rfl htry
  have hresult : (quietEnv transport).transport w.requests path = transport 1 path := by
    rw [hrequests]
    rfl
  rw [hresult] at hsecond
  have hget : doGet (quietEnv transport) {} true path (newWorld (quietEnv transport) {}) = _ :=
    hagain.trans (withRetryFrom_done (by decide) hsecond fun h => by simp [hdone] at h)
  refine ⟨_, hget, rfl, ?_, ?_, ?_⟩
  · show w.readings + 1 + 2 = 8
    rw [hreadings]
  · show w.requests + 1 = 2
    rw [hrequests]
    rfl
  · rw [sentPaths_granted, hlog]
    rfl

theorem doGet_next {w : World} (hlimiter : w.limiter = limiterLeft 3 4 2)
    (hreadings : w.readings = 8) (hrequests : w.requests = 2) {path : Bytes}
    (hdone : shouldRetry (transport 2 path) {} = false) : ∃ w',
    doGet (quietEnv transport) {} true path w = (some (transport 2 path), w') ∧
      sentPaths w'.log = sentPaths w.log ++ [path] := by
  have hquota : 0 < (limiterLeft 3 4 2).dailyRequestsRemaining 0 := by decide
  have htry : (limiterLeft 3 4 2).tryAcquire 0 ((10 : ℕ) : ℤ) = (true, limiterLeft 2 4 3) := by
    decide
  have hattempt : attemptGet (quietEnv transport) path w = _ :=
    attemptGet_granted hlimiter hreadings hquota rfl rfl htry
  have hresult : (quietEnv transport).transport w.requests path = transport 2 path := by
    rw [hrequests]
    rfl
  rw [hresult] at hattempt
  refine ⟨_, withRetryFrom_done (by decide) hattempt (fun h => ?_), ?_⟩
  · rw [hdone] at h
    cases h.1
  · exact sentPaths_granted _ _ _ _

/-- A run in which the first request is repeated, and the others get the two pages. -/
theorem perform_again
    (hagain : shouldRetry (transport 0 (pagePath twoRecordsParams twoRecordsRange 1)) {} = true)
    (h1 : transport 1 (pagePath twoRecordsParams twoRecordsRange 1) =
      .ok ⟨200, twoRecordsBody "1", []⟩)
    (h2 : transport 2 (pagePath twoRecordsParams twoRecordsRange 2) =
      .ok ⟨200, twoRecordsBody "2", []⟩) : ∃ w',
    perform (doGet (quietEnv transport) {} true) (getDataAll twoRecordsGlaze twoRecordsParams)
      (newWorld (quietEnv transport) {}) = (some (.ok twoRecords), w') ∧
    sentPaths w'.log =
      [pagePath twoRecordsParams twoRecordsRange 1, pagePath twoRecordsParams twoRecordsRange 1,
        pagePath twoRecordsParams twoRecordsRange 2] := by
  obtain ⟨w1, hget1, hlimiter, hreadings, hrequests, hlog1⟩ :=
    doGet_again hagain (by rw [h1]; rfl)
  have hdone : shouldRetry (transport 2 (pagePath twoRecordsParams twoRecordsRange 2)) {} =
      false := by
    rw [h2]
    rfl
  obtain ⟨w2, hget2, hlog2⟩ := doGet_next hlimiter hreadings hrequests hdone
  rw [h1] at hget1
  rw [h2] at hget2
  refine ⟨w2, ?_, ?_⟩
  · rw [perform_eq_handle]
    exact Program.handle_eq_some_iff.mpr
      ⟨twoRecordsExchanges, runs_twoRecords, .cons hget1 (.cons hget2 .nil)⟩
  · rw [hlog2, hlog1]
    rfl

end quietEnv

/-- The first request fails, the others get the two pages. -/
def failsOnce (n : ℕ) (_ : Bytes) : Result HttpResponse :=
  if n = 0 then .ok ⟨503, [], []⟩
  else if n = 1 then .ok ⟨200, twoRecordsBody "1", []⟩
  else .ok ⟨200, twoRecordsBody "2", []⟩

/-- A service that fails once, and the two records behind it. -/
theorem getDataAll_over_faults_failsOnce :
    twoRecords.Perm (within recordDay twoRecords 19723 19753) := by
  obtain ⟨w', hperform, hlog⟩ := @perform_again failsOnce rfl rfl rfl
  obtain ⟨hm, hn⟩ := dayOf_twoRecordsParams
  have hserver : ServesOrFails (quietEnv failsOnce) twoRecordsGlaze
      (matchingOf recordDay twoRecords) (newWorld (quietEnv failsOnce) {}) w' := by
    obtain ⟨h1, h2⟩ := List.forall_mem_cons.mp serves_twoRecords
    have h2 := List.forall_mem_singleton.mp h2
    rintro n path ⟨-, hsent⟩
    rw [hlog] at hsent
    rcases n with _ | _ | _ | n
    · exact .inr ⟨_, rfl⟩
    · cases hsent
      exact .inl h1
    · cases hsent
      exact .inl h2
    · simp at hsent
  have hcounted : Counted (newWorld (quietEnv failsOnce) {}) := rfl
  obtain ⟨hcomplete, -⟩ := getDataAll_over_faults recordDay twoRecords hm hn (by norm_num)
    (by decide) (by rintro l ⟨⟩; decide) (by decide) hcounted hperform hserver
  exact (hcomplete _ rfl).2.1

end NceiCpp.Api
