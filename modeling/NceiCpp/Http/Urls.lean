import NceiCpp.Http.Client

/-!
# Absolute URLs

What `is_absolute_url` accepts, and the parts of a URL that say where a request goes.

* `isAbsoluteUrl_iff`: the language of `is_absolute_url`.
* `BaseUrl.origin_append`: a path behind a base URL leaves scheme and authority alone.
-/

namespace NceiCpp.Http

/-- A letter followed by letters, digits, `+`, `-` or `.`. -/
def IsScheme (scheme : Bytes) : Prop :=
  ∃ c rest, scheme = c :: rest ∧ isLetter c = true ∧
    ∀ d ∈ rest, isLetter d = true ∨ isDigit d = true ∨ d = ch '+' ∨ d = ch '-' ∨ d = ch '.'

/-- `scheme "://" rest`. -/
def IsAbsolute (value : Bytes) : Prop :=
  ∃ scheme rest, value = scheme ++ bytes "://" ++ rest ∧ IsScheme scheme

/-! ## Finding a text -/

theorem find_eq_some {needle value : Bytes} {n : ℕ} (h : find needle value = some n) :
    ∃ rest, value = value.take n ++ needle ++ rest := by
  induction value generalizing n with
  | nil =>
    rw [find] at h
    split_ifs at h with hnil
    exact ⟨[], by simp [hnil]⟩
  | cons c value ih =>
    rw [find] at h
    split_ifs at h with hfirst
    · obtain ⟨rest, hrest⟩ := List.isPrefixOf_iff_prefix.mp hfirst
      cases h
      exact ⟨rest, by simpa using hrest.symm⟩
    · obtain ⟨m, hm, rfl⟩ := Option.map_eq_some_iff.mp h
      obtain ⟨rest, hrest⟩ := ih hm
      refine ⟨rest, ?_⟩
      rw [List.take_succ_cons, List.cons_append, List.cons_append, ← hrest]

/-- The first occurrence is behind a text without the first character of the needle. -/
theorem find_append {x : Byte} {needle front : Bytes} (hfront : x ∉ front) (rest : Bytes) :
    find (x :: needle) (front ++ x :: needle ++ rest) = some front.length := by
  induction front with
  | nil =>
    have hfirst : (x :: needle).isPrefixOf (x :: (needle ++ rest)) = true := by
      rw [List.isPrefixOf_iff_prefix]
      exact List.prefix_append _ _
    show find (x :: needle) (x :: (needle ++ rest)) = some 0
    rw [find, if_pos hfirst]
  | cons c front ih =>
    rw [List.mem_cons, not_or] at hfront
    have hlater : ¬(x :: needle).isPrefixOf (c :: (front ++ x :: needle ++ rest)) = true := by
      rw [List.isPrefixOf_iff_prefix, List.cons_prefix_cons]
      exact fun h => hfront.1 h.1
    show find (x :: needle) (c :: (front ++ x :: needle ++ rest)) = some (front.length + 1)
    rw [find, if_neg hlater, ih hfront.2]
    rfl

/-! ## Schemes -/

/-- The characters from `lo` on. -/
def charRange (lo n : ℕ) : Bytes := (List.range n).map fun i => UInt8.ofNat (lo + i)

theorem mem_charRange {lo n : ℕ} (h : lo + n ≤ 256) {c : Byte} :
    c ∈ charRange lo n ↔ lo ≤ c.toNat ∧ c.toNat < lo + n := by
  unfold charRange
  rw [List.mem_map]
  constructor
  · rintro ⟨i, hi, rfl⟩
    have hlt := List.mem_range.mp hi
    rw [UInt8.toNat_ofNat']
    omega
  · rintro ⟨hlo, hhi⟩
    refine ⟨c.toNat - lo, List.mem_range.mpr (by omega), ?_⟩
    rw [Nat.add_sub_cancel' hlo, UInt8.ofNat_toNat]

theorem schemeChars_eq : schemeChars = charRange 97 26 ++ (charRange 65 26 ++
    (charRange 48 10 ++ [ch '+', ch '.', ch '-'])) := by
  decide

/-- The set of the source and the grammar agree. -/
theorem mem_schemeChars (c : Byte) :
    c ∈ schemeChars ↔
      isLetter c = true ∨ isDigit c = true ∨ c = ch '+' ∨ c = ch '-' ∨ c = ch '.' := by
  have hletter : isLetter c = true ↔ (97 ≤ c.toNat ∧ c.toNat < 97 + 26) ∨
      65 ≤ c.toNat ∧ c.toNat < 65 + 26 := by
    have hle : ∀ a : Byte, (c ≥ a ↔ a.toNat ≤ c.toNat) ∧ (c ≤ a ↔ c.toNat ≤ a.toNat) :=
      fun a => ⟨UInt8.le_iff_toNat_le, UInt8.le_iff_toNat_le⟩
    simp only [isLetter, Bool.or_eq_true, Bool.and_eq_true, decide_eq_true_eq, (hle _).1, (hle _).2]
    show (97 ≤ c.toNat ∧ c.toNat ≤ 122) ∨ (65 ≤ c.toNat ∧ c.toNat ≤ 90) ↔ _
    omega
  have hdigit : isDigit c = true ↔ 48 ≤ c.toNat ∧ c.toNat < 48 + 10 := by
    rw [isDigit, decide_eq_true_eq]
    omega
  rw [schemeChars_eq, hletter, hdigit, List.mem_append, List.mem_append, List.mem_append,
    mem_charRange (by decide), mem_charRange (by decide), mem_charRange (by decide)]
  simp only [List.mem_cons, List.not_mem_nil, or_false, or_assoc, @or_comm (c = ch '.')]

theorem IsScheme.mem {scheme : Bytes} (h : IsScheme scheme) : ∀ c ∈ scheme, c ∈ schemeChars := by
  obtain ⟨c, rest, rfl, hc, hrest⟩ := h
  intro d hd
  rw [mem_schemeChars]
  rcases List.mem_cons.mp hd with rfl | hd
  · exact .inl hc
  · exact hrest d hd

theorem IsScheme.noColon {scheme : Bytes} (h : IsScheme scheme) : ch ':' ∉ scheme := by
  intro hmem
  have := h.mem _ hmem
  revert this
  decide

theorem find_scheme {scheme : Bytes} (h : IsScheme scheme) (rest : Bytes) :
    find (bytes "://") (scheme ++ bytes "://" ++ rest) = some scheme.length :=
  find_append h.noColon rest

theorem isAbsoluteUrl_iff (value : Bytes) : isAbsoluteUrl value = true ↔ IsAbsolute value := by
  unfold isAbsoluteUrl
  constructor
  · intro h
    cases hfind : find (bytes "://") value with
    | none => simp [hfind] at h
    | some n =>
      simp only [hfind] at h
      split_ifs at h with hzero hletter
      obtain ⟨rest, hrest⟩ := find_eq_some hfind
      refine ⟨value.take n, rest, hrest, ?_⟩
      cases value with
      | nil => simp at hletter
      | cons c value =>
        obtain ⟨m, rfl⟩ := Nat.exists_eq_succ_of_ne_zero hzero
        rw [List.take_succ_cons] at h ⊢
        refine ⟨c, value.take m, rfl, by simpa using hletter, fun d hd => ?_⟩
        have hd := List.all_eq_true.mp h d (List.mem_cons_of_mem c hd)
        exact (mem_schemeChars d).mp (of_decide_eq_true hd)
  · rintro ⟨scheme, rest, rfl, hscheme⟩
    simp only [find_scheme hscheme]
    have hmem := hscheme.mem
    obtain ⟨c, tail, rfl, hc, -⟩ := hscheme
    rw [if_neg (by simp), if_neg (by simp [hc]), List.append_assoc, List.take_left,
      List.all_eq_true]
    exact fun d hd => decide_eq_true (hmem d hd)

/-! ## Scheme and authority -/

/-- The scheme of a URL, and its authority: what follows `://` up to the path, the query or
    the fragment. -/
def urlOrigin (url : Bytes) : Option (Bytes × Bytes) :=
  (find (bytes "://") url).map fun n =>
    (url.take n, (url.drop (n + 3)).takeWhile fun c => c ∉ bytes "/?#")

/-- `scheme "://" authority path` with an optional path. -/
structure BaseUrl (url scheme authority path : Bytes) : Prop where
  eq : url = scheme ++ bytes "://" ++ (authority ++ path)
  scheme_ok : IsScheme scheme
  authority_ok : ∀ c ∈ authority, c ∉ bytes "/?#"
  path_ok : ∀ c ∈ path.head?, c = ch '/'

theorem BaseUrl.origin {url scheme authority path : Bytes}
    (h : BaseUrl url scheme authority path) : urlOrigin url = some (scheme, authority) := by
  have hdrop : (scheme ++ bytes "://" ++ (authority ++ path)).drop (scheme.length + 3) =
      authority ++ path := by
    have hlength : scheme.length + 3 = (scheme ++ bytes "://").length := by
      rw [List.length_append]
      rfl
    rw [hlength, List.drop_left]
  have hpath : path.takeWhile (fun c => c ∉ bytes "/?#") = [] := by
    cases hcases : path with
    | nil => rfl
    | cons c rest =>
      have hc : c = ch '/' := h.path_ok c (by rw [hcases]; rfl)
      rw [hc]
      rfl
  rw [h.eq, urlOrigin, find_scheme h.scheme_ok, Option.map_some, hdrop, List.append_assoc,
    List.take_left, List.takeWhile_append_of_pos
      fun c hc => decide_eq_true (h.authority_ok c hc), hpath, List.append_nil]

/-- A base URL with a path behind it is one with the same scheme and authority. -/
theorem BaseUrl.append {url scheme authority path suffix : Bytes}
    (h : BaseUrl url scheme authority path) (hsuffix : suffix.head? = some (ch '/')) :
    BaseUrl (url ++ suffix) scheme authority (path ++ suffix) where
  eq := by
    rw [h.eq]
    simp only [List.append_assoc]
  scheme_ok := h.scheme_ok
  authority_ok := h.authority_ok
  path_ok := by
    intro c hc
    cases hcases : path with
    | nil =>
      rw [hcases, List.nil_append, hsuffix] at hc
      exact (Option.some.inj hc).symm
    | cons d rest =>
      rw [hcases] at hc
      exact h.path_ok c (by rw [hcases]; exact hc)

/-- So is one that has a path, with any text behind it. -/
theorem BaseUrl.append_text {url scheme authority path : Bytes}
    (h : BaseUrl url scheme authority path) (hpath : path ≠ []) (text : Bytes) :
    BaseUrl (url ++ text) scheme authority (path ++ text) where
  eq := by
    rw [h.eq]
    simp only [List.append_assoc]
  scheme_ok := h.scheme_ok
  authority_ok := h.authority_ok
  path_ok := by
    rw [List.head?_append_of_ne_nil _ hpath]
    exact h.path_ok

/-- A URL with scheme and authority is absolute. -/
theorem BaseUrl.absolute {url scheme authority path : Bytes}
    (h : BaseUrl url scheme authority path) : isAbsoluteUrl url = true :=
  (isAbsoluteUrl_iff url).mpr ⟨scheme, authority ++ path, h.eq, h.scheme_ok⟩

end NceiCpp.Http
