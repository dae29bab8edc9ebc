import NceiCpp.Api.CdoClient
import NceiCpp.Lib.DotSegments

/-!
# The ids in the paths of the single-entity methods

libcurl removes the `.` and `..` segments of a URL's path before it sends a request. The
encoder leaves dots as they are, so an id that consists of dots can become such a segment.

* `removeDots_single`: the path that is sent, for an id that is no dot segment.
* `path_id_addresses_iff`: the ids for which the path addresses the entity they name.
-/

namespace NceiCpp.Api

open Interaction DotSegments NceiCpp.Core

/-- `path` behind `base` addresses the entity `id` of a collection, dot segments removed. -/
def Addresses (base : List Bytes) (col : Collection) (id path : Bytes) : Prop :=
  ∃ segment, removeDotSegments (ch '/') (ch '.') (DotSegments.path (ch '/') base ++ path) =
      DotSegments.path (ch '/') base ++ col.path ++ ch '/' :: segment ∧
    segment ≠ [] ∧ ch '/' ∉ segment ∧ percentDecode segment = id

/-- The segments of a base URL's path hold no dot segment. -/
def PlainBase (base : List Bytes) : Prop := ∀ segment ∈ base, Plain (ch '/') (ch '.') segment

theorem slash_ne_dot : ch '/' ≠ ch '.' := by decide

theorem runs_getSingle {T : Type} {generic : Bytes → Option Json} {read : Bytes → Except Bytes T}
    {col : Collection} {id : Bytes} {t : List Exchange} {result : Result T}
    (h : (getSingle generic read col id).Runs t result) :
    ∃ r, t = [(col.path ++ ch '/' :: encode id, r)] := by
  obtain ⟨r, t', rfl, rfl, -⟩ := Program.runs_perform_bind.mp h
  exact ⟨r, rfl⟩

/-! ## Removing dot segments -/

/-- The path of a collection is one segment. -/
theorem exists_segment (col : Collection) :
    ∃ name, col.path = ch '/' :: name ∧ Plain (ch '/') (ch '.') name := by
  refine ⟨col.path.tail, ?_, ?_⟩
  · cases col <;> rfl
  · cases col <;> exact ⟨by decide, by decide, by decide⟩

section

variable {base : List Bytes} (hbase : PlainBase base) (col : Collection)
include hbase

/-- Everything in front of the id is moved as it is. -/
theorem removeDots_base {rest : Bytes} (hrest : ∀ c ∈ rest.head?, c = ch '/') :
    removeDotSegments (ch '/') (ch '.') (DotSegments.path (ch '/') base ++ (col.path ++ rest)) =
      removeDots (ch '/') (ch '.') (DotSegments.path (ch '/') base ++ col.path) rest := by
  obtain ⟨name, hpath, hname⟩ := exists_segment col
  have hhead : ∀ c ∈ (col.path ++ rest).head?, c = ch '/' := by
    rw [hpath]
    simp
  rw [removeDotSegments, removeDots_segments slash_ne_dot hbase hhead, List.nil_append, hpath,
    removeDots_segment slash_ne_dot hname hrest]

theorem removeDots_single {segment : Bytes} (hsegment : Plain (ch '/') (ch '.') segment) :
    removeDotSegments (ch '/') (ch '.')
        (DotSegments.path (ch '/') base ++ (col.path ++ ch '/' :: segment)) =
      DotSegments.path (ch '/') base ++ col.path ++ ch '/' :: segment := by
  rw [removeDots_base hbase col (by simp), DotSegments.removeDots_single slash_ne_dot hsegment]

/-- A dot takes the segment away, and two dots the collection as well. -/
theorem removeDots_dot_ids :
    removeDotSegments (ch '/') (ch '.')
        (DotSegments.path (ch '/') base ++ (col.path ++ ch '/' :: bytes ".")) =
      DotSegments.path (ch '/') base ++ col.path ++ [ch '/'] ∧
    removeDotSegments (ch '/') (ch '.')
        (DotSegments.path (ch '/') base ++ (col.path ++ ch '/' :: bytes "..")) =
      DotSegments.path (ch '/') base ++ [ch '/'] := by
  obtain ⟨name, hpath, hname⟩ := exists_segment col
  constructor
  · rw [removeDots_base hbase col (by simp)]
    exact removeDots_dot slash_ne_dot _
  · rw [removeDots_base hbase col (by simp)]
    show removeDots (ch '/') (ch '.') _ [ch '/', ch '.', ch '.'] = _
    rw [removeDots_dots slash_ne_dot, hpath, removeLast_append hname.noSlash]

/-- **Path ids.** The path of a request for one entity addresses that entity exactly when
    its id is neither empty nor a dot segment. -/
theorem path_id_addresses_iff {T : Type} {generic : Bytes → Option Json}
    {read : Bytes → Except Bytes T} {id : Bytes} {t : List Exchange} {result : Result T}
    (hrun : (getSingle generic read col id).Runs t result) {path : Bytes}
    (hpath : path ∈ t.map Prod.fst) :
    Addresses base col id path ↔ id ≠ [] ∧ id ≠ bytes "." ∧ id ≠ bytes ".." := by
  obtain ⟨r, rfl⟩ := runs_getSingle hrun
  rw [List.map_singleton, List.mem_singleton] at hpath
  subst hpath
  have hslash : ch '/' ∉ encode id := not_mem_encode (by decide) (by decide)
  constructor
  · rintro ⟨segment, hremoved, hne, -, hdecode⟩
    obtain ⟨honce, htwice⟩ := removeDots_dot_ids hbase col
    refine ⟨?_, ?_, ?_⟩
    · rintro rfl
      have hempty := removeDots_single hbase col ⟨List.not_mem_nil, by simp, by simp⟩
      have h := hempty.symm.trans hremoved
      exact hne (List.cons.inj (List.append_cancel_left h)).2.symm
    · rintro rfl
      have h := honce.symm.trans hremoved
      exact hne (List.cons.inj (List.append_cancel_left h)).2.symm
    · rintro rfl
      have h := congrArg List.length (htwice.symm.trans hremoved)
      have hlength : col.path.length ≠ 0 := by cases col <;> decide
      simp only [List.length_append, List.length_cons, List.length_nil] at h
      omega
  · rintro ⟨hne, hdot, hdots⟩
    have hplain : Plain (ch '/') (ch '.') (encode id) := by
      refine ⟨hslash, fun h => hdot ?_, fun h => hdots ?_⟩
      · rw [← percentDecode_encode id, h]
        rfl
      · rw [← percentDecode_encode id, h]
        rfl
    refine ⟨encode id, removeDots_single hbase col hplain, fun h => hne ?_, hslash,
      percentDecode_encode id⟩
    rw [← percentDecode_encode id, h]
    rfl

end

/-- The entity of an ordinary id, behind a base with two segments. -/
theorem path_id_addresses_station :
    Addresses [bytes "api", bytes "v2"] .stations (bytes "GHCND:1")
      (bytes "/stations/GHCND%3A1") := by
  have hbase : PlainBase [bytes "api", bytes "v2"] := by
    intro segment hsegment
    rcases List.mem_pair.mp hsegment with rfl | rfl <;> exact ⟨by decide, by decide, by decide⟩
  have hrun : (getSingle (fun _ => none) (fun _ => .ok ()) .stations (bytes "GHCND:1")).Runs
      [(bytes "/stations/GHCND%3A1", .error stuckError)] (.error stuckError) :=
    ⟨_, [], rfl, rfl, rfl⟩
  exact (path_id_addresses_iff hbase .stations hrun (by decide)).mpr (by decide)

/-- The id `..` turns the request for a station into one for the root of the API. -/
theorem path_id_climbs :
    (getSingle (fun _ => none) (fun _ => .ok ()) .stations (bytes "..")).Runs
        [(bytes "/stations/..", .error stuckError)] (.error stuckError) ∧
      removeDotSegments (ch '/') (ch '.') (bytes "/stations/..") = bytes "/" ∧
      ¬Addresses [] .stations (bytes "..") (bytes "/stations/..") := by
  have hremoved : removeDotSegments (ch '/') (ch '.') (bytes "/stations/..") = bytes "/" :=
    (@removeDots_dot_ids [] (by simp [PlainBase]) .stations).2
  refine ⟨⟨_, [], rfl, rfl, rfl⟩, hremoved, ?_⟩
  rintro ⟨segment, h, -⟩
  have hlength := congrArg List.length (hremoved.symm.trans h)
  simp [DotSegments.path, Collection.path, bytes] at hlength

end NceiCpp.Api
