import NceiCpp.Lib.ClosedText
import NceiCpp.Models.FeedPeriods

/-!
# Feeds that grow

The publisher adds rows at the end of a feed, and a client reads it again and again. Model of
`DelimitedParser::parse_header` (`src/core/csv_parser.cpp`) besides.

* `parse_append_iff`: which texts can grow without changing the rows they have.
* `feeds_grow`: what a longer file adds to what was read before.
-/

namespace NceiCpp.Models

open DelimitedText NceiCpp.Core

/-- `DelimitedParser::parse_header` (lines 87–90). -/
def parseHeader (delim : Delimiter) (text : Bytes) : List Bytes :=
  parseLine delim (nextRecord text 0).1

/-- The parser is a homomorphism in front of every text exactly on the texts whose last record
    has its line feed. -/
theorem parse_append_iff (delim : Delimiter) (text : Bytes) :
    (∀ more, parse delim (text ++ more) = parse delim text ++ parse delim more) ↔
      Closed delim.dialect text := by
  simp only [parse_eq_decode]
  exact decode_append_iff text

theorem parse_append {delim : Delimiter} {text : Bytes} (h : Closed delim.dialect text)
    (more : Bytes) : parse delim (text ++ more) = parse delim text ++ parse delim more :=
  (parse_append_iff delim text).mpr h more

/-- The header is the first row, unless the text starts with an empty line. -/
theorem head?_parse {delim : Delimiter} {text : Bytes} (h : (nextRecord text 0).1 ≠ []) :
    (parse delim text).head? = some (parseHeader delim text) := by
  rw [nextRecord_eq delim, List.drop_zero] at h
  have hne : text ≠ [] := by
    rintro rfl
    exact h rfl
  rw [parseHeader, nextRecord_eq delim, List.drop_zero, parseLine_eq, parse_eq_decode, decode,
    dif_neg hne]
  dsimp only at h ⊢
  rw [if_neg h]
  rfl

/-! ## Longer files -/

theorem gistempTable_append {rows data : List CsvRow} {header : CsvRow}
    (h : gistempTable rows = some (header, data)) (more : List CsvRow) :
    gistempTable (rows ++ more) = some (header, data ++ more) := by
  induction rows with
  | nil => cases h
  | cons row rows ih =>
    rw [List.cons_append]
    rw [gistempTable] at h ⊢
    split_ifs at h ⊢ with hheader
    · cases h
      rfl
    · exact ih h

theorem deserializeGistempCsv_append {text : Bytes} (htext : Closed Delimiter.comma.dialect text)
    {out series : GistempSeries} (h : deserializeGistempCsv text out = (.ok (), series))
    (more : Bytes) : ∃ header rows, gistempTable (parse .comma text) = some (header, rows) ∧
      ∀ out', deserializeGistempCsv (text ++ more) out' = (.ok (),
        { annual := series.annual ++ (parse .comma more).filterMap
            (gistempPoint (headerIndex header (bytes "Year"))
              (headerIndex header (bytes "J-D"))) }) := by
  obtain ⟨header, rows, htable, hannual⟩ := deserializeGistempCsv_ok h
  have hne : series.annual ≠ [] := by
    rw [deserializeGistempCsv_eq] at h
    split_ifs at h with hempty
    · cases h
    · cases h
      exact hempty
  refine ⟨header, rows, htable, fun out' => ?_⟩
  have hrows : gistempRows (parse .comma (text ++ more)) = series.annual ++
      (parse .comma more).filterMap (gistempPoint (headerIndex header (bytes "Year"))
        (headerIndex header (bytes "J-D"))) := by
    rw [parse_append htext, gistempRows, gistempTable_append htable, hannual]
    exact List.filterMap_append
  rw [deserializeGistempCsv_eq, hrows, if_neg (by simp [hne])]

theorem deserializeNsidcSeaIceCsv_append {text : Bytes}
    (htext : Closed Delimiter.comma.dialect text) {monthly : Bool} {out series : SeaIceSeries}
    (h : deserializeNsidcSeaIceCsv text monthly out = (.ok (), series)) (more : Bytes) :
    ∃ header, (parse .comma text).head? = some header ∧
      ∀ out', deserializeNsidcSeaIceCsv (text ++ more) monthly out' = (.ok (),
        { series with
          extent := series.extent ++ (parse .comma more).filterMap
            (seaIcePoint monthly (seaIceColumns monthly header)) }) := by
  unfold deserializeNsidcSeaIceCsv at h
  split at h
  · cases h
  · rename_i header rows hparse
    dsimp only at h
    split_ifs at h with hheader hempty
    · cases h
    · cases h
    · cases h
      refine ⟨header, by rw [hparse]; rfl, fun out' => ?_⟩
      unfold deserializeNsidcSeaIceCsv
      rw [parse_append htext, hparse, List.cons_append]
      dsimp only
      rw [if_neg hheader, List.filterMap_append, if_neg (by simp [hempty])]

theorem parseDelimited_append {delim : Delimiter} {text : Bytes}
    (htext : Closed delim.dialect text) (hrows : parse delim text ≠ []) (more : Bytes) :
    parseDelimited (text ++ more) delim =
      { parseDelimited text delim with
        records := (parseDelimited text delim).records ++
          (parse delim more).map (populateFromRow {} (parseDelimited text delim).columns) } := by
  unfold parseDelimited
  rw [parse_append htext]
  cases hparse : parse delim text with
  | nil => exact absurd hparse hrows
  | cons columns rows =>
    rw [List.cons_append]
    dsimp only
    rw [List.map_append]

/-! ## Versions of a file -/

/-- Each version of a file has the one before it in front, and ends with a record. -/
def Grows (version : ℕ → Bytes) : Prop :=
  ∀ n, Closed Delimiter.comma.dialect (version n) ∧ version n <+: version (n + 1)

theorem Grows.le {version : ℕ → Bytes} (h : Grows version) {m n : ℕ} (hmn : m ≤ n) :
    ∃ more, version n = version m ++ more := by
  induction n, hmn using Nat.le_induction with
  | base => exact ⟨[], (List.append_nil _).symm⟩
  | succ n _ ih =>
    obtain ⟨more, hmore⟩ := ih
    obtain ⟨rows, hrows⟩ := (h n).2
    exact ⟨more ++ rows, by rw [← hrows, hmore, List.append_assoc]⟩

/-- Where a record ends does not depend on the delimiter. -/
theorem closed_delimiter (delim delim' : Delimiter) (text : Bytes) :
    Closed delim.dialect text ↔ Closed delim'.dialect text := by
  cases delim <;> cases delim' <;> exact Iff.rfl

/-- A feed that grows by whole records, polled at any two times: what could be read from the
    earlier version can be read from the later one, and nothing that was reported is taken
    back, changed or moved. The later series starts with the earlier one; what follows are the
    points of the rows that were added, read with the columns of the same header. So it is for
    the three formats of delimited text. -/
theorem feeds_grow {version : ℕ → Bytes} (h : Grows version) {m n : ℕ} (hmn : m ≤ n) :
    ∃ more, version n = version m ++ more ∧
      (∀ out series, deserializeGistempCsv (version m) out = (.ok (), series) →
        ∃ header rows, gistempTable (parse .comma (version m)) = some (header, rows) ∧
          ∀ out', deserializeGistempCsv (version n) out' = (.ok (),
            { annual := series.annual ++ (parse .comma more).filterMap
                (gistempPoint (headerIndex header (bytes "Year"))
                  (headerIndex header (bytes "J-D"))) })) ∧
      (∀ monthly out series,
        deserializeNsidcSeaIceCsv (version m) monthly out = (.ok (), series) →
        ∃ header, (parse .comma (version m)).head? = some header ∧
          ∀ out', deserializeNsidcSeaIceCsv (version n) monthly out' = (.ok (),
            { series with
              extent := series.extent ++ (parse .comma more).filterMap
                (seaIcePoint monthly (seaIceColumns monthly header)) })) ∧
      ∀ delim, parse delim (version m) ≠ [] →
        parseDelimited (version n) delim =
          { parseDelimited (version m) delim with
            records := (parseDelimited (version m) delim).records ++
              (parse delim more).map
                (populateFromRow {} (parseDelimited (version m) delim).columns) } := by
  obtain ⟨more, hmore⟩ := h.le hmn
  rw [hmore]
  refine ⟨more, rfl, fun out series hok => ?_, fun monthly out series hok => ?_,
    fun delim hrows => ?_⟩
  · exact deserializeGistempCsv_append (h m).1 hok more
  · exact deserializeNsidcSeaIceCsv_append (h m).1 hok more
  · exact parseDelimited_append ((closed_delimiter _ _ _).mp (h m).1) hrows more

/-- A file that gets a row each day: the records of the seventh day are those of the third one and
    four more. -/
theorem feeds_grow_daily :
    let header := quotedRow [bytes "Year", bytes "J-D"] (List.cons_ne_nil _ _)
    let row := quotedRow [bytes "2020", bytes "12"] (List.cons_ne_nil _ _)
    let version : ℕ → Bytes := fun n => render true (header :: List.replicate n row)
    (parseDelimited (version 7) .comma).columns = (parseDelimited (version 3) .comma).columns ∧
      ∃ added, (parseDelimited (version 7) .comma).records =
        (parseDelimited (version 3) .comma).records ++ added ∧ added.length = 4 := by
  intro header row version
  have hgrows : Grows version := fun n => by
    refine ⟨closed_render _, render true [row], ?_⟩
    show render true _ ++ _ = render true _
    rw [← render_append, List.cons_append, ← List.replicate_succ']
  have hrows : parse .comma (version 3) ≠ [] := by
    have hparse : parse .comma (version 3) =
        (header :: List.replicate 3 row).map Row.fields := parse_rows .comma true (by decide)
    rw [hparse]
    exact List.cons_ne_nil _ _
  obtain ⟨more, hmore, -, -, hdata⟩ := feeds_grow hgrows (show 3 ≤ 7 by decide)
  have hadded : more = render true (List.replicate 4 row) := by
    have hversion : version 7 = version 3 ++ render true (List.replicate 4 row) := by
      show render true _ = render true _ ++ _
      rw [← render_append]
      rfl
    rw [hversion] at hmore
    exact (List.append_cancel_left hmore).symm
  have hparse : parse .comma more = (List.replicate 4 row).map Row.fields := by
    rw [hadded]
    exact parse_rows .comma true (by decide)
  rw [hdata .comma hrows]
  exact ⟨rfl, _, rfl, by rw [List.length_map, hparse]; rfl⟩

end NceiCpp.Models
