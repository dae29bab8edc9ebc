import NceiCpp.Api.CdoClient
import NceiCpp.Api.QueryParse

/-!
# Runs of `get_data_all`

The two loops of `get_data_all` as relations between the exchanges of a run and its
result. The server is not restricted: any answer to any request is a possible exchange.

* `pageLoop_runs`, `chunkLoop_runs`, `getDataAll_runs`: the runs of the program are the
  derivations of `Pages` and `Chunks`.
* `Chunks.pages`: the exchanges of a run that ask for one chunk are the run of the inner
  loop for that chunk.
* `Pages.offsets_sorted`, `Pages.length_le`: within a chunk the offsets grow, so it takes
  at most `2 ^ 31 - 1` requests.
* `Pages.of_stuck`, `Chunks.of_stuck`: a page without a further offset ends the call.
-/

namespace NceiCpp.Api

open Interaction NceiCpp.Core NceiCpp.Models

variable (glaze : Glaze) (params : GetDataParams)

/-- The path of the request for the page at `offset`. -/
def pagePath (range : DateRange) (offset : Int32) : Bytes :=
  buildDataQuery (chunkParams params range offset)

/-- The page says there is more and gives no further offset. -/
def Stuck (offset : Int32) (page : CDOResponse DataRecord) : Prop :=
  page.hasMore ∧ page.nextOffset ≤ offset

/-- The loop asks for another page behind this one. -/
def Advances (offset : Int32) (page : CDOResponse DataRecord) : Prop :=
  page.hasMore ∧ page.results.isEmpty = false ∧ page.nextOffset > offset

/-- The inner loop, from an offset and the records so far, with the exchanges and the
    result. -/
inductive Pages (range : DateRange) :
    Int32 → List DataRecord → List Exchange → Result (List DataRecord) → Prop
  | failed {offset : Int32} {acc : List DataRecord} {r : Result HttpResponse} {e : Error} :
      dataPage glaze r = .error e →
      Pages range offset acc [(pagePath params range offset, r)] (.error e)
  | stuck {offset : Int32} {acc : List DataRecord} {r : Result HttpResponse}
      {page : CDOResponse DataRecord} : dataPage glaze r = .ok page → Stuck offset page →
      Pages range offset acc [(pagePath params range offset, r)] (.error stuckError)
  | last {offset : Int32} {acc : List DataRecord} {r : Result HttpResponse}
      {page : CDOResponse DataRecord} : dataPage glaze r = .ok page → ¬ Stuck offset page →
      ¬ Advances offset page →
      Pages range offset acc [(pagePath params range offset, r)] (.ok (acc ++ page.results))
  | more {offset : Int32} {acc : List DataRecord} {r : Result HttpResponse}
      {page : CDOResponse DataRecord} {t : List Exchange} {res : Result (List DataRecord)} :
      dataPage glaze r = .ok page → Advances offset page →
      Pages range page.nextOffset (acc ++ page.results) t res →
      Pages range offset acc ((pagePath params range offset, r) :: t) res

/-- The outer loop, from the records so far, with the exchanges and the result. -/
inductive Chunks :
    List DateRange → List DataRecord → List Exchange → Result (List DataRecord) → Prop
  | done {acc : List DataRecord} : Chunks [] acc [] (.ok acc)
  | failed {range : DateRange} {ranges : List DateRange} {acc : List DataRecord}
      {t : List Exchange} {e : Error} : Pages glaze params range 1 acc t (.error e) →
      Chunks (range :: ranges) acc t (.error e)
  | next {range : DateRange} {ranges : List DateRange} {acc acc' : List DataRecord}
      {t t' : List Exchange} {res : Result (List DataRecord)} :
      Pages glaze params range 1 acc t (.ok acc') → Chunks ranges acc' t' res →
      Chunks (range :: ranges) acc (t ++ t') res

/-! ## The program and the relations -/

variable {glaze params}

theorem Advances.not_stuck {offset : Int32} {page : CDOResponse DataRecord}
    (h : Advances offset page) : ¬ Stuck offset page := by
  intro hs
  have h1 := Int32.lt_iff_toInt_lt.mp h.2.2
  have h2 := Int32.le_iff_toInt_le.mp hs.2
  omega

/-- The distance to the largest offset shrinks from page to page. -/
theorem Advances.lt {offset : Int32} {page : CDOResponse DataRecord} (h : Advances offset page) :
    offset.toInt < page.nextOffset.toInt := Int32.lt_iff_toInt_lt.mp h.2.2

theorem getData_bind_runs {α : Type} {p : GetDataParams}
    {f : Result (CDOResponse DataRecord) → Client α} {t : List Exchange} {a : α} :
    (getData glaze p >>= f).Runs t a ↔
      ∃ r t', t = (buildDataQuery p, r) :: t' ∧ (f (dataPage glaze r)).Runs t' a := by
  change (Program.perform (buildDataQuery p) >>= fun r => f (dataPage glaze r)).Runs t a ↔ _
  exact Program.runs_perform_bind

/-- What a turn of the inner loop does behind its request. -/
theorem pageLoop_turn {range : DateRange} {offset : Int32} {acc : List DataRecord}
    {t : List Exchange} {res : Result (List DataRecord)} :
    (pageLoop glaze params range offset acc).Runs t res ↔
      ∃ r t', t = (pagePath params range offset, r) :: t' ∧
        ((∃ e, dataPage glaze r = .error e ∧ t' = [] ∧ res = .error e) ∨
          ∃ page, dataPage glaze r = .ok page ∧
            ((Stuck offset page ∧ t' = [] ∧ res = .error stuckError) ∨
              (Advances offset page ∧
                (pageLoop glaze params range page.nextOffset (acc ++ page.results)).Runs t' res) ∨
              (¬ Stuck offset page ∧ ¬ Advances offset page ∧ t' = [] ∧
                res = .ok (acc ++ page.results)))) := by
  rw [pageLoop, getData_bind_runs]
  apply exists_congr
  intro r
  apply exists_congr
  intro t'
  apply and_congr Iff.rfl
  cases dataPage glaze r with
  | error e =>
    constructor
    · rintro ⟨rfl, rfl⟩
      exact .inl ⟨e, rfl, rfl, rfl⟩
    · rintro (⟨e', he, rfl, rfl⟩ | ⟨page, hpage, -⟩)
      · cases he
        exact ⟨rfl, rfl⟩
      · cases hpage
  | ok page =>
    simp only [reduceCtorEq, false_and, exists_false, false_or, Except.ok.injEq, exists_eq_left']
    split_ifs with hstuck hadv
    · constructor
      · intro h
        exact .inl ⟨hstuck, h⟩
      · rintro (⟨-, h⟩ | ⟨hadv, -⟩ | ⟨hnot, -⟩)
        · exact h
        · exact absurd hstuck hadv.not_stuck
        · exact absurd hstuck hnot
    · constructor
      · intro h
        exact .inr (.inl ⟨hadv, h⟩)
      · rintro (⟨hstuck', -⟩ | ⟨-, h⟩ | ⟨-, hnot, -⟩)
        · exact absurd hstuck' hstuck
        · exact h
        · exact absurd hadv hnot
    · constructor
      · intro h
        exact .inr (.inr ⟨hstuck, hadv, h⟩)
      · rintro (⟨hstuck', -⟩ | ⟨hadv', -⟩ | ⟨-, -, h⟩)
        · exact absurd hstuck' hstuck
        · exact absurd hadv' hadv
        · exact h

theorem pageLoop_runs {range : DateRange} {offset : Int32} {acc : List DataRecord}
    {t : List Exchange} {res : Result (List DataRecord)} :
    (pageLoop glaze params range offset acc).Runs t res ↔
      Pages glaze params range offset acc t res := by
  constructor
  · intro h
    induction hn : (2 ^ 31 - offset.toInt).toNat using Nat.strong_induction_on
      generalizing offset acc t with
    | _ n ih =>
      obtain ⟨r, t', rfl, hturn⟩ := pageLoop_turn.mp h
      rcases hturn with ⟨e, hpage, rfl, rfl⟩ | ⟨page, hpage, ⟨hstuck, rfl, rfl⟩ | ⟨hadv, hrest⟩ |
        ⟨hstuck, hadv, rfl, rfl⟩⟩
      · exact .failed hpage
      · exact .stuck hpage hstuck
      · have hlt := hadv.lt
        have hmax := page.nextOffset.toInt_lt
        exact .more hpage hadv (ih _ (by omega) hrest rfl)
      · exact .last hpage hstuck hadv
  · intro h
    induction h with
    | failed hpage => exact pageLoop_turn.mpr ⟨_, _, rfl, .inl ⟨_, hpage, rfl, rfl⟩⟩
    | stuck hpage hstuck =>
      exact pageLoop_turn.mpr ⟨_, _, rfl, .inr ⟨_, hpage, .inl ⟨hstuck, rfl, rfl⟩⟩⟩
    | last hpage hstuck hadv =>
      exact pageLoop_turn.mpr ⟨_, _, rfl, .inr ⟨_, hpage, .inr (.inr ⟨hstuck, hadv, rfl, rfl⟩)⟩⟩
    | more hpage hadv _ ih =>
      exact pageLoop_turn.mpr ⟨_, _, rfl, .inr ⟨_, hpage, .inr (.inl ⟨hadv, ih⟩)⟩⟩

theorem chunkLoop_runs {ranges : List DateRange} {acc : List DataRecord} {t : List Exchange}
    {res : Result (List DataRecord)} :
    (chunkLoop glaze params ranges acc).Runs t res ↔ Chunks glaze params ranges acc t res := by
  induction ranges generalizing acc t with
  | nil =>
    constructor
    · rintro ⟨rfl, rfl⟩
      exact .done
    · rintro ⟨⟩
      exact ⟨rfl, rfl⟩
  | cons range ranges ih =>
    rw [chunkLoop, Program.runs_bind]
    constructor
    · rintro ⟨t1, t2, mid, rfl, h1, h2⟩
      have h1 := pageLoop_runs.mp h1
      cases mid with
      | error e =>
        obtain ⟨rfl, rfl⟩ := h2
        rw [List.append_nil]
        exact .failed h1
      | ok acc' => exact .next h1 (ih.mp h2)
    · intro h
      cases h with
      | failed h1 => exact ⟨t, [], _, (List.append_nil t).symm, pageLoop_runs.mpr h1, rfl, rfl⟩
      | next h1 h2 => exact ⟨_, _, _, rfl, pageLoop_runs.mpr h1, ih.mpr h2⟩

/-- A run of `get_data_all` on a range that splits is a run of the loop over its chunks. -/
theorem getDataAll_runs {ranges : List DateRange} {t : List Exchange}
    {res : Result (List DataRecord)}
    (h : splitDateRange params.startDate params.endDate = .ok ranges) :
    (getDataAll glaze params).Runs t res ↔ Chunks glaze params ranges [] t res := by
  rw [getDataAll, h]
  exact chunkLoop_runs

/-! ## What a request asks for -/

/-- The parameters a server reads from a path. -/
def requestOf (path : Bytes) : GetDataParams := readDataParams (parsePath path).2

/-- The exchange asks for records of the chunk `range`. -/
def AsksFor (range : DateRange) (x : Exchange) : Prop :=
  (requestOf x.1).startDate = range.1 ∧ (requestOf x.1).endDate = range.2

instance (range : DateRange) (x : Exchange) : Decidable (AsksFor range x) := by
  unfold AsksFor
  infer_instance

/-- The exchanges of `t` for the chunk `range`. -/
def chunkExchanges (range : DateRange) (t : List Exchange) : List Exchange :=
  t.filter (AsksFor range ·)

/-- The offsets the exchanges of `t` ask for. -/
def offsets (t : List Exchange) : List Int32 := t.filterMap fun x => (requestOf x.1).offset

theorem requestOf_buildDataQuery (p : GetDataParams) :
    requestOf (buildDataQuery p) = p.normalized := by
  rw [requestOf, parsePath_buildDataQuery, readDataParams_dataPairs]

theorem requestOf_pagePath (params : GetDataParams) (range : DateRange) (offset : Int32) :
    requestOf (pagePath params range offset) = (chunkParams params range offset).normalized :=
  requestOf_buildDataQuery _

theorem asksFor_pagePath {range range' : DateRange} {offset : Int32} {r : Result HttpResponse} :
    AsksFor range (pagePath params range' offset, r) ↔ range' = range := by
  rw [AsksFor, requestOf_pagePath, Prod.ext_iff]
  rfl

theorem offsets_cons (range : DateRange) (offset : Int32) (r : Result HttpResponse)
    (t : List Exchange) :
    offsets ((pagePath params range offset, r) :: t) = offset :: offsets t := by
  rw [offsets, List.filterMap_cons, requestOf_pagePath]
  rfl

/-- The inner loop asks for its chunk only. -/
theorem Pages.asksFor {range : DateRange} {offset : Int32} {acc : List DataRecord}
    {t : List Exchange} {res : Result (List DataRecord)}
    (h : Pages glaze params range offset acc t res) :
    ∀ x ∈ t, ∃ o, x.1 = pagePath params range o := by
  induction h with
  | failed _ => exact List.forall_mem_singleton.mpr ⟨_, rfl⟩
  | stuck _ _ => exact List.forall_mem_singleton.mpr ⟨_, rfl⟩
  | last _ _ _ => exact List.forall_mem_singleton.mpr ⟨_, rfl⟩
  | more _ _ _ ih => exact List.forall_mem_cons.mpr ⟨⟨_, rfl⟩, ih⟩

theorem Chunks.asksFor {ranges : List DateRange} {acc : List DataRecord} {t : List Exchange}
    {res : Result (List DataRecord)} (h : Chunks glaze params ranges acc t res) :
    ∀ x ∈ t, ∃ range ∈ ranges, ∃ o, x.1 = pagePath params range o := by
  induction h with
  | done => exact List.forall_mem_nil _
  | failed h1 =>
    intro x hx
    exact ⟨_, List.mem_cons_self, h1.asksFor x hx⟩
  | next h1 _ ih =>
    intro x hx
    rcases List.mem_append.mp hx with hx | hx
    · exact ⟨_, List.mem_cons_self, h1.asksFor x hx⟩
    · obtain ⟨range, hr, ho⟩ := ih x hx
      exact ⟨range, List.mem_cons_of_mem _ hr, ho⟩

theorem chunkExchanges_self {range : DateRange} {t : List Exchange}
    (h : ∀ x ∈ t, ∃ o, x.1 = pagePath params range o) : chunkExchanges range t = t := by
  apply List.filter_eq_self.mpr
  rintro ⟨path, r⟩ hx
  obtain ⟨o, rfl⟩ := h _ hx
  exact decide_eq_true (asksFor_pagePath.mpr rfl)

theorem chunkExchanges_other {range : DateRange} {t : List Exchange}
    (h : ∀ x ∈ t, ∃ range', range' ≠ range ∧ ∃ o, x.1 = pagePath params range' o) :
    chunkExchanges range t = [] := by
  apply List.filter_eq_nil_iff.mpr
  rintro ⟨path, r⟩ hx
  obtain ⟨range', hne, o, rfl⟩ := h _ hx
  rw [decide_eq_true_eq, asksFor_pagePath]
  exact hne

/-- The exchanges of a run for one of its chunks are a run of the inner loop, unless the
    call failed before it came to the chunk. -/
theorem Chunks.pages {ranges : List DateRange} {acc : List DataRecord} {t : List Exchange}
    {res : Result (List DataRecord)} (h : Chunks glaze params ranges acc t res)
    (hnd : ranges.Nodup) {range : DateRange} (hr : range ∈ ranges) :
    (chunkExchanges range t = [] ∧ ∃ e, res = .error e) ∨
      ∃ acc' res', Pages glaze params range 1 acc' (chunkExchanges range t) res' ∧
        ∀ e, res' = .error e → res = .error e := by
  induction h with
  | done => simp at hr
  | @failed first ranges acc t e h1 =>
    obtain ⟨hnot, hnd⟩ := List.nodup_cons.mp hnd
    by_cases heq : range = first
    · rw [heq, chunkExchanges_self h1.asksFor]
      exact .inr ⟨acc, _, h1, fun _ h => h⟩
    · refine .inl ⟨?_, e, rfl⟩
      apply chunkExchanges_other
      intro x hx
      exact ⟨first, Ne.symm heq, h1.asksFor x hx⟩
  | @next first ranges acc acc' t t' res h1 h2 ih =>
    obtain ⟨hnot, hnd⟩ := List.nodup_cons.mp hnd
    rw [chunkExchanges, List.filter_append, ← chunkExchanges, ← chunkExchanges]
    by_cases heq : range = first
    · have hrest : chunkExchanges first t' = [] := by
        apply chunkExchanges_other
        intro x hx
        obtain ⟨range', hr', ho⟩ := h2.asksFor x hx
        exact ⟨range', fun h => hnot (h ▸ hr'), ho⟩
      rw [heq, chunkExchanges_self h1.asksFor, hrest, List.append_nil]
      exact .inr ⟨acc, _, h1, fun _ h => by cases h⟩
    · have hfirst : chunkExchanges range t = [] := by
        apply chunkExchanges_other
        intro x hx
        exact ⟨first, Ne.symm heq, h1.asksFor x hx⟩
      rw [hfirst, List.nil_append]
      rcases List.mem_cons.mp hr with hr | hr
      · exact absurd hr heq
      · exact ih hnd hr

/-- In a run that succeeds every chunk does. -/
theorem Chunks.ok_pages {ranges : List DateRange} {acc out : List DataRecord} {t : List Exchange}
    (h : Chunks glaze params ranges acc t (.ok out)) (hnd : ranges.Nodup) {range : DateRange}
    (hr : range ∈ ranges) :
    ∃ acc' out', Pages glaze params range 1 acc' (chunkExchanges range t) (.ok out') := by
  rcases h.pages hnd hr with ⟨-, e, he⟩ | ⟨acc', res', hp, herr⟩
  · cases he
  · cases res' with
    | error e => cases herr e rfl
    | ok out' => exact ⟨acc', out', hp⟩

/-! ## Offsets -/

/-- Within a chunk the offsets start at the first one and grow. -/
theorem Pages.offsets_sorted {range : DateRange} {offset : Int32} {acc : List DataRecord}
    {t : List Exchange} {res : Result (List DataRecord)}
    (h : Pages glaze params range offset acc t res) :
    ∃ os, offsets t = offset :: os ∧ os.length + 1 = t.length ∧
      (offset :: os).Pairwise (fun a b => a.toInt < b.toInt) := by
  have hone : ∀ (o : Int32) (r : Result HttpResponse),
      ∃ os, offsets [(pagePath params range o, r)] = o :: os ∧
        os.length + 1 = [(pagePath params range o, r)].length ∧
        (o :: os).Pairwise (fun a b => a.toInt < b.toInt) := by
    intro o r
    exact ⟨[], offsets_cons range o r [], rfl, List.pairwise_singleton _ _⟩
  induction h with
  | failed _ => exact hone _ _
  | stuck _ _ => exact hone _ _
  | last _ _ _ => exact hone _ _
  | @more offset acc r page t res hpage hadv _ ih =>
    obtain ⟨os, hos, hlen, hsorted⟩ := ih
    refine ⟨page.nextOffset :: os, ?_, by simp [← hlen], ?_⟩
    · rw [offsets_cons, hos]
    · refine List.pairwise_cons.mpr ⟨?_, hsorted⟩
      intro b hb
      have hlt := hadv.lt
      rcases List.mem_cons.mp hb with rfl | hb
      · exact hlt
      · exact hlt.trans ((List.pairwise_cons.mp hsorted).1 b hb)

theorem Pages.length_le {range : DateRange} {offset : Int32} {acc : List DataRecord}
    {t : List Exchange} {res : Result (List DataRecord)}
    (h : Pages glaze params range offset acc t res) :
    (t.length : ℤ) ≤ 2 ^ 31 - offset.toInt := by
  have hmax : ∀ o : Int32, (1 : ℤ) ≤ 2 ^ 31 - o.toInt := by
    intro o
    have := o.toInt_lt
    omega
  induction h with
  | @failed offset _ _ _ _ => exact hmax offset
  | @stuck offset _ _ _ _ _ => exact hmax offset
  | @last offset _ _ _ _ _ _ => exact hmax offset
  | more _ hadv _ ih =>
    have := hadv.lt
    rw [List.length_cons]
    push_cast
    omega

theorem Chunks.length_le {ranges : List DateRange} {acc : List DataRecord} {t : List Exchange}
    {res : Result (List DataRecord)} (h : Chunks glaze params ranges acc t res) :
    t.length ≤ ranges.length * (2 ^ 31 - 1) := by
  have hone : (1 : Int32).toInt = 1 := rfl
  induction h with
  | done => simp
  | failed h1 =>
    have := h1.length_le
    rw [List.length_cons, Nat.add_mul]
    omega
  | next h1 _ ih =>
    have := h1.length_le
    rw [List.length_append, List.length_cons, Nat.add_mul]
    omega

/-! ## Pages without a further offset -/

theorem offset_pagePath (params : GetDataParams) (range : DateRange) (o : Int32) :
    (requestOf (pagePath params range o)).offset = some o := by
  rw [requestOf_pagePath]
  rfl

theorem eq_of_singleton_eq_append {α : Type} {a b : α} {l l' : List α}
    (h : [a] = l ++ b :: l') : a = b ∧ l' = [] := by
  cases l with
  | nil =>
    rw [List.nil_append, List.cons.injEq] at h
    exact ⟨h.1, h.2.symm⟩
  | cons c l => simp at h

/-- A page that says there is more and gives no further offset ends the loop. -/
theorem Pages.of_stuck {range : DateRange} {offset : Int32} {acc : List DataRecord}
    {t : List Exchange} {res : Result (List DataRecord)}
    (h : Pages glaze params range offset acc t res) {t1 t2 : List Exchange} {x : Exchange}
    (ht : t = t1 ++ x :: t2) {o : Int32} (ho : (requestOf x.1).offset = some o)
    {page : CDOResponse DataRecord} (hpage : dataPage glaze x.2 = .ok page)
    (hstuck : Stuck o page) : t2 = [] ∧ res = .error stuckError := by
  induction h generalizing t1 with
  | failed hpage' =>
    obtain ⟨rfl, rfl⟩ := eq_of_singleton_eq_append ht
    rw [hpage] at hpage'
    cases hpage'
  | stuck _ _ =>
    obtain ⟨rfl, rfl⟩ := eq_of_singleton_eq_append ht
    exact ⟨rfl, rfl⟩
  | last hpage' hnot _ =>
    obtain ⟨rfl, rfl⟩ := eq_of_singleton_eq_append ht
    rw [offset_pagePath, Option.some.injEq] at ho
    rw [hpage, Except.ok.injEq] at hpage'
    rw [ho, ← hpage'] at hnot
    exact absurd hstuck hnot
  | more hpage' hadv _ ih =>
    cases t1 with
    | nil =>
      obtain ⟨rfl, -⟩ := List.cons.inj ht
      rw [offset_pagePath, Option.some.injEq] at ho
      rw [hpage, Except.ok.injEq] at hpage'
      rw [ho, ← hpage'] at hadv
      exact absurd hstuck hadv.not_stuck
    | cons y t1 => exact ih (List.cons.inj ht).2

theorem Chunks.of_stuck {ranges : List DateRange} {acc : List DataRecord} {t : List Exchange}
    {res : Result (List DataRecord)} (h : Chunks glaze params ranges acc t res)
    {t1 t2 : List Exchange} {x : Exchange} (ht : t = t1 ++ x :: t2) {o : Int32}
    (ho : (requestOf x.1).offset = some o) {page : CDOResponse DataRecord}
    (hpage : dataPage glaze x.2 = .ok page) (hstuck : Stuck o page) :
    t2 = [] ∧ res = .error stuckError := by
  induction h generalizing t1 with
  | done => simp at ht
  | failed h1 => exact h1.of_stuck ht ho hpage hstuck
  | @next _ _ _ _ _ t' _ h1 _ ih =>
    rcases List.append_eq_append_iff.mp ht with ⟨a, -, h2⟩ | ⟨c, h2, h3⟩
    · exact ih h2
    · cases c with
      | nil =>
        have h4 : t' = [] ++ x :: t2 := h3.symm
        exact ih h4
      | cons y c =>
        -- a chunk with such a page does not end with records
        obtain ⟨rfl, -⟩ := List.cons.inj h3
        obtain ⟨-, hres⟩ := h1.of_stuck h2 ho hpage hstuck
        cases hres

/-! ## Requests that fail -/

/-- A request that fails ends the loop with its error. -/
theorem Pages.of_failed {range : DateRange} {offset : Int32} {acc : List DataRecord}
    {t : List Exchange} {res : Result (List DataRecord)}
    (h : Pages glaze params range offset acc t res) {t1 t2 : List Exchange} {x : Exchange}
    (ht : t = t1 ++ x :: t2) {e : Error} (he : dataPage glaze x.2 = .error e) :
    t2 = [] ∧ res = .error e := by
  induction h generalizing t1 with
  | failed hpage =>
    obtain ⟨rfl, rfl⟩ := eq_of_singleton_eq_append ht
    rw [he, Except.error.injEq] at hpage
    exact ⟨rfl, by rw [hpage]⟩
  | stuck hpage _ =>
    obtain ⟨rfl, rfl⟩ := eq_of_singleton_eq_append ht
    rw [he] at hpage
    cases hpage
  | last hpage _ _ =>
    obtain ⟨rfl, rfl⟩ := eq_of_singleton_eq_append ht
    rw [he] at hpage
    cases hpage
  | more hpage _ _ ih =>
    cases t1 with
    | nil =>
      obtain ⟨rfl, -⟩ := List.cons.inj ht
      rw [he] at hpage
      cases hpage
    | cons y t1 => exact ih (List.cons.inj ht).2

theorem Chunks.of_failed {ranges : List DateRange} {acc : List DataRecord} {t : List Exchange}
    {res : Result (List DataRecord)} (h : Chunks glaze params ranges acc t res)
    {t1 t2 : List Exchange} {x : Exchange} (ht : t = t1 ++ x :: t2) {e : Error}
    (he : dataPage glaze x.2 = .error e) : t2 = [] ∧ res = .error e := by
  induction h generalizing t1 with
  | done => simp at ht
  | failed h1 => exact h1.of_failed ht he
  | @next _ _ _ _ _ t' _ h1 _ ih =>
    rcases List.append_eq_append_iff.mp ht with ⟨a, -, h2⟩ | ⟨c, h2, h3⟩
    · exact ih h2
    · cases c with
      | nil =>
        have h4 : t' = [] ++ x :: t2 := h3.symm
        exact ih h4
      | cons y c =>
        obtain ⟨rfl, -⟩ := List.cons.inj h3
        obtain ⟨-, hres⟩ := h1.of_failed h2 he
        cases hres

/-! ## Termination -/

/-- Dates that do not split end the call without a request. -/
theorem getDataAll_runs_invalid {e : StdException} {t : List Exchange}
    {res : Result (List DataRecord)}
    (h : splitDateRange params.startDate params.endDate = .error e)
    (hrun : (getDataAll glaze params).Runs t res) :
    t = [] ∧ res = .error (Error.invalidRequest e.what) := by
  rw [getDataAll, h] at hrun
  cases e with
  | invalidArgument what | outOfRange what => exact ⟨hrun.1, hrun.2⟩

/-- The chunks of the request. -/
def chunksOf (params : GetDataParams) : List DateRange :=
  match splitDateRange params.startDate params.endDate with
  | .ok ranges => ranges
  | .error _ => []

/-- A run of `get_data_all` is a run of the loop over its chunks, unless the dates do not
    split. -/
theorem getDataAll_cases {t : List Exchange} {res : Result (List DataRecord)}
    (hrun : (getDataAll glaze params).Runs t res) :
    (t = [] ∧ ∃ e, splitDateRange params.startDate params.endDate = .error e ∧
        res = .error (Error.invalidRequest e.what)) ∨
      (Chunks glaze params (chunksOf params) [] t res ∧ (chunksOf params).Nodup) := by
  unfold chunksOf
  cases h : splitDateRange params.startDate params.endDate with
  | error e =>
    obtain ⟨ht, hres⟩ := getDataAll_runs_invalid h hrun
    exact .inl ⟨ht, e, rfl, hres⟩
  | ok ranges => exact .inr ⟨(getDataAll_runs h).mp hrun, splitDateRange_nodup h⟩

theorem Chunks.offsets_chunk {ranges : List DateRange} {acc : List DataRecord}
    {t : List Exchange} {res : Result (List DataRecord)}
    (h : Chunks glaze params ranges acc t res) (hnd : ranges.Nodup) {range : DateRange}
    (hr : range ∈ ranges) :
    ((offsets (chunkExchanges range t) = [] ∧ ∃ e, res = .error e) ∨
        (offsets (chunkExchanges range t)).head? = some 1) ∧
      (offsets (chunkExchanges range t)).Pairwise (fun a b => a.toInt < b.toInt) := by
  rcases h.pages hnd hr with ⟨hnil, herror⟩ | ⟨acc', res', hpages, -⟩
  · rw [hnil]
    exact ⟨.inl ⟨rfl, herror⟩, List.Pairwise.nil⟩
  · obtain ⟨os, hos, -, hsorted⟩ := hpages.offsets_sorted
    rw [hos]
    exact ⟨.inr rfl, hsorted⟩

/-- `get_data_all` ends against every server, whatever it answers after whatever requests:
    it makes at most `2 ^ 31 - 1` requests for each chunk, the offsets of which start at 1
    and grow; there is no request for a chunk only if the call has failed before it. Where
    `has_more` holds `next_offset` is exact, and a page that has more and whose next offset is
    not behind the one asked for is the last one of the call, which fails. -/
theorem getDataAll_terminates (glaze : Glaze) (params : GetDataParams) :
    (∀ server : List Exchange → Bytes → Result HttpResponse, ∃ t res,
      Program.Follows server [] t ∧ (getDataAll glaze params).Runs t res) ∧
    (∀ t res, (getDataAll glaze params).Runs t res →
      t.length ≤ (chunksOf params).length * (2 ^ 31 - 1) ∧
      (∀ x ∈ t, ∃ range ∈ chunksOf params, ∃ o, x.1 = pagePath params range o) ∧
      (∀ range ∈ chunksOf params,
        ((offsets (chunkExchanges range t) = [] ∧ ∃ e, res = .error e) ∨
          (offsets (chunkExchanges range t)).head? = some 1) ∧
        (offsets (chunkExchanges range t)).Pairwise (fun a b => a.toInt < b.toInt) ∧
        ∀ o ∈ offsets (chunkExchanges range t), o.toInt ≤ 2 ^ 31 - 1) ∧
      ∀ t1 x t2 o page, t = t1 ++ x :: t2 → (requestOf x.1).offset = some o →
        dataPage glaze x.2 = .ok page → page.hasMore = true → page.nextOffset ≤ o →
        t2 = [] ∧ res = .error (Error.parse (bytes "CDO pagination did not advance"))) ∧
    ∀ page : CDOResponse DataRecord, page.hasMore = true →
      page.nextOffset.toInt = max page.metadata.offset.toInt 1 + page.metadata.limit.toInt ∧
        page.nextOffset.toInt ≤ page.metadata.count.toInt := by
  refine ⟨fun server => Program.exists_run server _, fun t res hrun => ?_,
    fun page => nextOffset_of_hasMore⟩
  have hmax : ∀ o : Int32, o.toInt ≤ 2 ^ 31 - 1 := by
    intro o
    have := o.toInt_lt
    omega
  rcases getDataAll_cases hrun with ⟨rfl, e, -, hres⟩ | ⟨hchunks, hnd⟩
  · refine ⟨by simp, by simp, fun range _ => ?_, ?_⟩
    · exact ⟨.inl ⟨rfl, _, hres⟩, List.Pairwise.nil, by simp [chunkExchanges, offsets]⟩
    · intro t1 x t2 o page ht
      simp at ht
  · refine ⟨hchunks.length_le, hchunks.asksFor, fun range hr => ?_, ?_⟩
    · obtain ⟨h1, h2⟩ := hchunks.offsets_chunk hnd hr
      exact ⟨h1, h2, fun o _ => hmax o⟩
    · intro t1 x t2 o page ht ho hpage hmore hnext
      exact hchunks.of_stuck ht ho hpage ⟨hmore, hnext⟩

end NceiCpp.Api
