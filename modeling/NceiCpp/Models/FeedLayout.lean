import NceiCpp.Lib.AssocList
import NceiCpp.Models.ClimateFeeds

/-!
# The column layout of the CSV feeds

The feed parsers look up columns by name. Rearranging the columns of a table changes the
indices and not the cells behind the names.

* `SameCell`: two columns of two rows are both absent, or hold the same cell.
* `FeedTable.sameCell`: the columns of one name before and after a permutation.
* `seaIcePoint_congr`, `gistempPoint_congr`: a point depends on the named cells alone.
* `feeds_layout_independent`: so do the series.
-/

namespace NceiCpp.Models

open DelimitedText NceiCpp.Core

/-- A header with distinct names and rows of as many cells. -/
structure FeedTable (n : ℕ) where
  header : Fin n → Bytes
  rows : List (Fin n → Bytes)
  distinct : Function.Injective fun i => trim (header i)

namespace FeedTable

variable {n : ℕ}

def permute (σ : Equiv.Perm (Fin n)) (t : FeedTable n) : FeedTable n where
  header := t.header ∘ σ
  rows := t.rows.map (· ∘ σ)
  distinct := t.distinct.comp σ.injective

/-- The header and the rows as the parser returns them. -/
def csv (t : FeedTable n) : List CsvRow := List.ofFn t.header :: t.rows.map List.ofFn

end FeedTable

/-! ## Header lookup -/

theorem headerIndex_cons (c : Bytes) (header : CsvRow) (name : Bytes) :
    headerIndex (c :: header) name =
      if trim c = name then 0
      else if headerIndex header name < 0 then -1 else headerIndex header name + 1 := by
  unfold headerIndex
  rw [List.findIdx?_cons]
  by_cases h : trim c = name
  · simp [h]
  · cases header.findIdx? fun cell => trim cell = name with
    | none => simp [h]
    | some i =>
      have hi : ¬(i : ℤ) < 0 := by omega
      simp [h, hi]

theorem headerIndex_lt (header : CsvRow) (name : Bytes) :
    headerIndex header name < header.length := by
  induction header with
  | nil =>
    show (-1 : ℤ) < 0
    omega
  | cons c header ih =>
    rw [headerIndex_cons, List.length_cons]
    split_ifs <;> omega

theorem headerIndex_nonneg_iff (header : CsvRow) (name : Bytes) :
    0 ≤ headerIndex header name ↔ ∃ c ∈ header, trim c = name := by
  induction header with
  | nil => simp [headerIndex]
  | cons c header ih =>
    rw [headerIndex_cons, List.exists_mem_cons_iff, ← ih]
    split_ifs with h h'
    · simp [h]
    · simp [h, h']
    · simp [h]
      omega

/-- The cells of a row under the trimmed names of the header. -/
def named (header row : CsvRow) : List (Bytes × Bytes) := (header.map trim).zip row

/-- Looking up a name is reading the cell at its index. -/
theorem lookup_named {header row : CsvRow} (h : header.length = row.length) (name : Bytes) :
    (named header row).lookup name =
      if 0 ≤ headerIndex header name then some (cell row (headerIndex header name)) else none := by
  induction header generalizing row with
  | nil => rfl
  | cons c header ih =>
    cases row with
    | nil => cases h
    | cons x row =>
      have ih := ih (Nat.succ.inj h)
      unfold named at ih ⊢
      rw [List.map_cons, List.zip_cons_cons, List.lookup_cons, headerIndex_cons]
      by_cases hname : trim c = name
      · rw [hname, beq_self_eq_true, if_pos rfl, if_pos le_rfl]
        rfl
      · rw [beq_false_of_ne (Ne.symm hname), if_neg hname]
        simp only [ih]
        by_cases hindex : headerIndex header name < 0
        · rw [if_pos hindex, if_neg (by omega), if_neg (by omega)]
        · have hnat : (headerIndex header name + 1).toNat =
              (headerIndex header name).toNat + 1 := by
            omega
          rw [if_neg hindex, if_pos (by omega), if_pos (by omega), cell, cell, hnat]
          rfl

/-! ## The same cells -/

/-- Both columns are absent, or both are there with the same cell. -/
def SameCell (row : CsvRow) (col : ℤ) (row' : CsvRow) (col' : ℤ) : Prop :=
  (0 ≤ col ↔ 0 ≤ col') ∧
    (0 ≤ col → (col < row.length ∧ col' < row'.length) ∧ cell row col = cell row' col')

theorem sameCell_of_lookup {header row header' row' : CsvRow} {name : Bytes}
    (h : header.length = row.length) (h' : header'.length = row'.length)
    (hlookup : (named header row).lookup name = (named header' row').lookup name) :
    SameCell row (headerIndex header name) row' (headerIndex header' name) := by
  have hlt := headerIndex_lt header name
  have hlt' := headerIndex_lt header' name
  rw [h] at hlt
  rw [h'] at hlt'
  rw [lookup_named h, lookup_named h'] at hlookup
  unfold SameCell
  split_ifs at hlookup with hindex hindex'
  · exact ⟨iff_of_true hindex hindex', fun _ => ⟨⟨hlt, hlt'⟩, Option.some.inj hlookup⟩⟩
  · exact ⟨iff_of_false hindex ‹_›, fun h => absurd h hindex⟩

/-- Permuting the columns of a header and of a row leaves the named cells in place. -/
theorem FeedTable.sameCell {n : ℕ} (t : FeedTable n) (σ : Equiv.Perm (Fin n))
    (row : Fin n → Bytes) (name : Bytes) :
    SameCell (List.ofFn row) (headerIndex (List.ofFn t.header) name) (List.ofFn (row ∘ σ))
      (headerIndex (List.ofFn (t.header ∘ σ)) name) := by
  have hnamed : ∀ header row : Fin n → Bytes, named (List.ofFn header) (List.ofFn row) =
      List.ofFn fun i => (trim (header i), row i) := by
    intro header row
    unfold named
    apply List.ext_getElem <;> simp
  have hkeys : ((List.ofFn fun i => (trim (t.header i), row i)).map Prod.fst).Nodup := by
    rw [List.map_ofFn]
    exact List.nodup_ofFn.mpr t.distinct
  apply sameCell_of_lookup
  · simp
  · simp
  · rw [hnamed, hnamed]
    exact AssocList.lookup_perm hkeys
      (σ.ofFn_comp_perm fun i => (trim (t.header i), row i)).symm name

/-! ## Points -/

section congr

variable {row row' : CsvRow}

theorem tooShort_eq_false {a b : ℤ} (ha : a < row.length) (hb : b < row.length)
    (ha0 : 0 ≤ a) : tooShort row a b = false := by
  rw [tooShort, decide_eq_false_iff_not]
  omega

theorem appendPart_congr {col col' : ℤ} (h : SameCell row col row' col') (period : Bytes) :
    appendPart row col period = appendPart row' col' period := by
  unfold appendPart
  by_cases hcol : 0 ≤ col
  · obtain ⟨⟨hlt, hlt'⟩, hcell⟩ := h.2 hcol
    have hleft : col ≥ 0 ∧ (row.length : ℤ) > col := ⟨hcol, hlt⟩
    have hright : col' ≥ 0 ∧ (row'.length : ℤ) > col' := ⟨h.1.mp hcol, hlt'⟩
    rw [if_pos hleft, if_pos hright, hcell]
  · rw [if_neg fun h => hcol h.1, if_neg fun h' => hcol (h.1.mpr h'.1)]

theorem seaIcePoint_congr (monthly : Bool) {cols cols' : SeaIceColumns}
    (hyear : SameCell row cols.year row' cols'.year)
    (hextent : SameCell row cols.extent row' cols'.extent)
    (hmonth : SameCell row cols.month row' cols'.month)
    (hday : SameCell row cols.day row' cols'.day) (hy : 0 ≤ cols.year) (he : 0 ≤ cols.extent) :
    seaIcePoint monthly cols row = seaIcePoint monthly cols' row' := by
  obtain ⟨⟨hylt, hylt'⟩, hycell⟩ := hyear.2 hy
  obtain ⟨⟨helt, helt'⟩, hecell⟩ := hextent.2 he
  unfold seaIcePoint
  rw [tooShort_eq_false hylt helt hy, tooShort_eq_false hylt' helt' (hyear.1.mp hy), hycell, hecell]
  simp only [appendPart_congr hmonth, appendPart_congr hday]

theorem gistempPoint_congr {year jd year' jd' : ℤ} (hyear : SameCell row year row' year')
    (hjd : SameCell row jd row' jd') (hy : 0 ≤ year) (hj : 0 ≤ jd) :
    gistempPoint year jd row = gistempPoint year' jd' row' := by
  obtain ⟨⟨hylt, hylt'⟩, hycell⟩ := hyear.2 hy
  obtain ⟨⟨hjlt, hjlt'⟩, hjcell⟩ := hjd.2 hj
  unfold gistempPoint
  rw [tooShort_eq_false hylt hjlt hy, tooShort_eq_false hylt' hjlt' (hyear.1.mp hy), hycell, hjcell]

end congr

/-! ## Feeds -/

section table

variable {n : ℕ} {t : FeedTable n} {written : List (Row Delimiter.comma.dialect)}

/-- A table of at least two columns has no blank lines. -/
theorem FeedTable.not_blank (hn : 2 ≤ n) (h : written.map Row.fields = t.csv) :
    ∀ r ∈ written, r.isBlank = false := by
  intro r hr
  apply Row.isBlank_eq_false
  have hmem : r.fields ∈ t.csv := h ▸ List.mem_map_of_mem hr
  rcases List.mem_cons.mp hmem with heq | hmem
  · rw [heq, List.length_ofFn]
    exact hn
  · obtain ⟨row, -, heq⟩ := List.mem_map.mp hmem
    rw [← heq, List.length_ofFn]
    exact hn

theorem FeedTable.parse (hn : 2 ≤ n) (h : written.map Row.fields = t.csv) (terminated : Bool) :
    Core.parse .comma (render terminated written) = t.csv := by
  rw [parse_rows .comma terminated (not_blank hn h), h]

theorem seaIce_permute (hn : 2 ≤ n) (σ : Equiv.Perm (Fin n))
    (h : written.map Row.fields = t.csv) {written' : List (Row Delimiter.comma.dialect)}
    (h' : written'.map Row.fields = (t.permute σ).csv) (terminated terminated' monthly : Bool)
    (out : SeaIceSeries) :
    deserializeNsidcSeaIceCsv (render terminated' written') monthly out =
      deserializeNsidcSeaIceCsv (render terminated written) monthly out := by
  have hcell := t.sameCell σ
  have hcolumns : ((seaIceColumns monthly (List.ofFn (t.header ∘ σ))).year < 0 ∨
      (seaIceColumns monthly (List.ofFn (t.header ∘ σ))).extent < 0) ↔
      ((seaIceColumns monthly (List.ofFn t.header)).year < 0 ∨
        (seaIceColumns monthly (List.ofFn t.header)).extent < 0) := by
    have hsign : ∀ name, headerIndex (List.ofFn (t.header ∘ σ)) name < 0 ↔
        headerIndex (List.ofFn t.header) name < 0 := by
      intro name
      have := (hcell t.header name).1
      omega
    exact or_congr (hsign _) (hsign _)
  unfold deserializeNsidcSeaIceCsv
  rw [FeedTable.parse hn h, FeedTable.parse hn h']
  dsimp only [FeedTable.csv, FeedTable.permute]
  by_cases hneg : (seaIceColumns monthly (List.ofFn t.header)).year < 0 ∨
      (seaIceColumns monthly (List.ofFn t.header)).extent < 0
  · rw [if_pos hneg, if_pos (hcolumns.mpr hneg)]
  · have hpoints : ((t.rows.map (· ∘ σ)).map List.ofFn).filterMap
          (seaIcePoint monthly (seaIceColumns monthly (List.ofFn (t.header ∘ σ)))) =
        (t.rows.map List.ofFn).filterMap
          (seaIcePoint monthly (seaIceColumns monthly (List.ofFn t.header))) := by
      rw [not_or, not_lt, not_lt] at hneg
      rw [List.filterMap_map, List.filterMap_map, List.filterMap_map]
      congr 1
      funext row
      exact (seaIcePoint_congr monthly (hcell row _) (hcell row _) (hcell row _) (hcell row _)
        hneg.1 hneg.2).symm
    rw [if_neg hneg, if_neg (mt hcolumns.mp hneg), hpoints]

/-- A row without a cell for the year, or without one for the annual mean. -/
def IsBanner (row : CsvRow) : Prop :=
  ¬((∃ c ∈ row, trim c = bytes "Year") ∧ ∃ c ∈ row, trim c = bytes "J-D")

theorem isGistempHeader_iff (row : CsvRow) : isGistempHeader row = true ↔ ¬IsBanner row := by
  rw [isGistempHeader, decide_eq_true_eq, IsBanner, not_not]
  exact and_congr (headerIndex_nonneg_iff row _) (headerIndex_nonneg_iff row _)

/-- The search for the header passes over banner rows. -/
theorem gistempTable_banner {banner : List CsvRow} (h : ∀ row ∈ banner, IsBanner row)
    (rows : List CsvRow) : gistempTable (banner ++ rows) = gistempTable rows := by
  induction banner with
  | nil => rfl
  | cons row banner ih =>
    obtain ⟨hrow, hbanner⟩ := List.forall_mem_cons.mp h
    have hheader : ¬isGistempHeader row = true := fun hheader =>
      (isGistempHeader_iff row).mp hheader hrow
    rw [List.cons_append, gistempTable, if_neg hheader, ih hbanner]

/-- The points of a table behind banner rows. -/
theorem gistempRows_csv {banner : List CsvRow} (hbanner : ∀ row ∈ banner, IsBanner row)
    (ht : ¬IsBanner (List.ofFn t.header)) :
    gistempRows (banner ++ t.csv) =
      (t.rows.map List.ofFn).filterMap (gistempPoint
        (headerIndex (List.ofFn t.header) (bytes "Year"))
        (headerIndex (List.ofFn t.header) (bytes "J-D"))) := by
  unfold gistempRows
  rw [gistempTable_banner hbanner, FeedTable.csv, gistempTable,
    if_pos ((isGistempHeader_iff _).mpr ht)]

theorem gistempRows_permute (σ : Equiv.Perm (Fin n)) {banner banner' : List CsvRow}
    (hbanner : ∀ row ∈ banner, IsBanner row) (hbanner' : ∀ row ∈ banner', IsBanner row)
    (ht : ¬IsBanner (List.ofFn t.header)) :
    gistempRows (banner' ++ (t.permute σ).csv) = gistempRows (banner ++ t.csv) := by
  have hcell := t.sameCell σ
  have hboth := of_decide_eq_true ((isGistempHeader_iff _).mpr ht)
  have ht' : ¬IsBanner (List.ofFn (t.permute σ).header) := by
    rw [← isGistempHeader_iff]
    exact decide_eq_true ⟨(hcell t.header _).1.mp hboth.1, (hcell t.header _).1.mp hboth.2⟩
  rw [gistempRows_csv hbanner ht, gistempRows_csv hbanner' ht']
  dsimp only [FeedTable.permute]
  rw [List.filterMap_map, List.filterMap_map, List.filterMap_map]
  congr 1
  funext row
  exact (gistempPoint_congr (hcell row _) (hcell row _) hboth.1 hboth.2).symm

/-- **Column layout.** The sea ice parser gives the same on a table and on the same table with
    its columns permuted, and so does the GISTEMP parser, whatever banner rows stand in front
    of either. -/
theorem feeds_layout_independent (hn : 2 ≤ n) (σ : Equiv.Perm (Fin n))
    (hwritten : written.map Row.fields = t.csv)
    {written' : List (Row Delimiter.comma.dialect)}
    (hwritten' : written'.map Row.fields = (t.permute σ).csv) (terminated terminated' : Bool) :
    (∀ monthly out, deserializeNsidcSeaIceCsv (render terminated' written') monthly out =
      deserializeNsidcSeaIceCsv (render terminated written) monthly out) ∧
    ((∃ i, trim (t.header i) = bytes "Year") → (∃ i, trim (t.header i) = bytes "J-D") →
      ∀ banner banner' : List (Row Delimiter.comma.dialect),
        (∀ r ∈ banner ++ banner', r.isBlank = false ∧ IsBanner r.fields) →
        ∀ out, deserializeGistempCsv (render terminated' (banner' ++ written')) out =
          deserializeGistempCsv (render terminated (banner ++ written)) out) := by
  refine ⟨seaIce_permute hn σ hwritten hwritten' terminated terminated', ?_⟩
  rintro ⟨i, hi⟩ ⟨j, hj⟩ banner banner' hbanner out
  have ht : ¬IsBanner (List.ofFn t.header) := fun h =>
    h ⟨⟨_, List.mem_ofFn.mpr ⟨i, rfl⟩, hi⟩, ⟨_, List.mem_ofFn.mpr ⟨j, rfl⟩, hj⟩⟩
  have hparse : ∀ (terminated : Bool) {banner written : List (Row Delimiter.comma.dialect)}
      {t : FeedTable n}, (∀ r ∈ banner, r.isBlank = false) → written.map Row.fields = t.csv →
      Core.parse .comma (render terminated (banner ++ written)) =
        banner.map Row.fields ++ t.csv := by
    intro terminated banner written t hblank h
    rw [parse_rows, List.map_append, h]
    intro r hr
    rcases List.mem_append.mp hr with hr | hr
    · exact hblank r hr
    · exact FeedTable.not_blank hn h r hr
  have hfields : ∀ rows : List (Row Delimiter.comma.dialect),
      (∀ r ∈ rows, r ∈ banner ++ banner') → ∀ row ∈ rows.map Row.fields, IsBanner row := by
    intro rows hrows row hrow
    obtain ⟨r, hr, rfl⟩ := List.mem_map.mp hrow
    exact (hbanner r (hrows r hr)).2
  have hleft : ∀ r ∈ banner, r ∈ banner ++ banner' := fun r => List.mem_append_left _
  have hright : ∀ r ∈ banner', r ∈ banner ++ banner' := fun r => List.mem_append_right _
  rw [deserializeGistempCsv_eq, deserializeGistempCsv_eq,
    hparse terminated (fun r hr => (hbanner r (hleft r hr)).1) hwritten,
    hparse terminated' (fun r hr => (hbanner r (hright r hr)).1) hwritten',
    gistempRows_permute σ (hfields banner hleft) (hfields banner' hright) ht]

end table

/-- A year and its mean, in two columns. -/
def annualTable : FeedTable 2 where
  header := ![bytes "Year", bytes "J-D"]
  rows := [![bytes "2020", bytes "12"]]
  distinct := by decide

/-- Its columns exchanged, behind a banner. -/
theorem feeds_layout_independent_annual :
    deserializeGistempCsv (render true
        [quotedRow [bytes "Land-Ocean: Global Means"] nofun,
          quotedRow [bytes "J-D", bytes "Year"] nofun, quotedRow [bytes "12", bytes "2020"] nofun])
        {} =
      deserializeGistempCsv (render false
        [quotedRow [bytes "Year", bytes "J-D"] nofun, quotedRow [bytes "2020", bytes "12"] nofun])
        {} := by
  have hbanner : ∀ r ∈ [] ++ [quotedRow [bytes "Land-Ocean: Global Means"] nofun],
      r.isBlank = false ∧ IsBanner r.fields := by
    intro r hr
    rw [List.nil_append, List.mem_singleton] at hr
    subst hr
    refine ⟨by decide, ?_⟩
    rw [← not_not (a := IsBanner _), ← isGistempHeader_iff]
    decide
  have hwritten : [quotedRow [bytes "Year", bytes "J-D"] nofun,
      quotedRow [bytes "2020", bytes "12"] nofun].map Row.fields = annualTable.csv := rfl
  have hwritten' : [quotedRow [bytes "J-D", bytes "Year"] nofun,
      quotedRow [bytes "12", bytes "2020"] nofun].map Row.fields =
        (annualTable.permute (Equiv.swap 0 1)).csv := rfl
  have h := feeds_layout_independent le_rfl (Equiv.swap 0 1) hwritten hwritten' false true
  exact h.2 ⟨0, by decide⟩ ⟨1, by decide⟩ [] _ hbanner {}

end NceiCpp.Models
