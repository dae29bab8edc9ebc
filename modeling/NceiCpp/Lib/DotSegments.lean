import Mathlib.Data.List.DropRight
import Mathlib.Data.List.Infix

/-!
# Removing dot segments from a path

The algorithm `remove_dot_segments` of RFC 3986, section 5.2.4, over any alphabet: it moves
segments from an input to an output buffer, skips `.` segments and lets `..` segments take
back the segment before them.

* `removeDots_segments`: a path without dot segments is moved as it is.
* `removeDots_single`: as is a segment that is the whole input.
* `removeDots_dot`, `removeDots_dots`: what a dot segment at the end does.
-/

namespace DotSegments

variable {α : Type*} [DecidableEq α] (slash dot : α)

/-- The output buffer without its last segment and the slash in front of it. -/
def removeLast (output : List α) : List α := (output.rdropWhile (· ≠ slash)).dropLast

/-- The loop of the algorithm (steps 2A to 2E), from its two buffers. -/
def removeDots (output : List α) (input : List α) : List α :=
  match input with
  | [] => output
  | c :: rest =>
    if [dot, dot, slash] <+: c :: rest then removeDots output (rest.drop 2)
    else if [dot, slash] <+: c :: rest then removeDots output (rest.drop 1)
    else if [slash, dot, slash] <+: c :: rest then removeDots output (rest.drop 1)
    else if _h : c :: rest = [slash, dot] then removeDots output [slash]
    else if [slash, dot, dot, slash] <+: c :: rest then
      removeDots (removeLast slash output) (rest.drop 2)
    else if _h : c :: rest = [slash, dot, dot] then
      removeDots (removeLast slash output) [slash]
    else if c :: rest = [dot] ∨ c :: rest = [dot, dot] then output
    else
      removeDots (output ++ c :: rest.takeWhile (· ≠ slash)) (rest.dropWhile (· ≠ slash))
termination_by input.length
decreasing_by
  all_goals try (rw [List.length_drop, List.length_cons]; omega)
  · rw [_h]
    simp
  · rw [_h]
    simp
  · exact Nat.lt_succ_of_le (List.dropWhile_sublist _).length_le

def removeDotSegments (input : List α) : List α := removeDots slash dot [] input

/-- The path of some segments. -/
def path (segments : List (List α)) : List α := segments.flatMap (slash :: ·)

/-- A segment that is neither `.` nor `..`. -/
structure Plain (segment : List α) : Prop where
  noSlash : slash ∉ segment
  notDot : segment ≠ [dot]
  notDots : segment ≠ [dot, dot]

/-! ## One segment -/

section

variable {slash dot} {segment rest : List α}

theorem takeWhile_segment (hsegment : slash ∉ segment) (hrest : ∀ c ∈ rest.head?, c = slash) :
    (segment ++ rest).takeWhile (· ≠ slash) = segment := by
  rw [List.takeWhile_append_of_pos (by
    intro c hc
    rw [decide_eq_true_eq]
    rintro rfl
    exact hsegment hc)]
  cases rest with
  | nil => simp
  | cons c rest => simp [hrest c rfl]

theorem dropWhile_segment (hsegment : slash ∉ segment) (hrest : ∀ c ∈ rest.head?, c = slash) :
    (segment ++ rest).dropWhile (· ≠ slash) = rest := by
  have h := List.takeWhile_append_dropWhile (p := (· ≠ slash)) (l := segment ++ rest)
  rw [takeWhile_segment hsegment hrest] at h
  exact List.append_cancel_left h

/-- A text in front of a slash is the segment in front of that slash. -/
theorem segment_unique {t : List α} (hsegment : slash ∉ segment)
    (hrest : ∀ c ∈ rest.head?, c = slash) (ht : slash ∉ t) (h : t ++ [slash] <+: segment ++ rest) :
    t = segment := by
  obtain ⟨u, hu⟩ := h
  rw [List.append_assoc] at hu
  rw [← takeWhile_segment hsegment hrest, ← hu, takeWhile_segment ht (by simp)]

/-- A slash-free text and a slash in front of a path: no step of the algorithm but the last
    one applies. -/
theorem removeDots_segment (hne : slash ≠ dot) (hsegment : Plain slash dot segment)
    (hrest : ∀ c ∈ rest.head?, c = slash) (output : List α) :
    removeDots slash dot output (slash :: segment ++ rest) =
      removeDots slash dot (output ++ slash :: segment) rest := by
  have hstart : ∀ l, ¬dot :: l <+: slash :: (segment ++ rest) := by
    intro l h
    exact hne (List.cons_prefix_cons.mp h).1.symm
  have hnext : ∀ t, slash ∉ t → slash :: (t ++ [slash]) <+: slash :: (segment ++ rest) →
      segment = t := by
    intro t ht h
    exact (segment_unique hsegment.noSlash hrest ht (List.cons_prefix_cons.mp h).2).symm
  have hwhole : ∀ t, slash ∉ t → slash :: (segment ++ rest) = slash :: t → segment = t := by
    intro t ht h
    rw [← takeWhile_segment hsegment.noSlash hrest, (List.cons.inj h).2,
      List.takeWhile_eq_self_iff]
    intro c hc
    rw [decide_eq_true_eq]
    rintro rfl
    exact ht hc
  have hdot : slash ∉ [dot] := by simpa using hne
  have hdots : slash ∉ [dot, dot] := by simpa using hne
  have hB : ¬[slash, dot, slash] <+: slash :: (segment ++ rest) := fun h =>
    hsegment.notDot (hnext [dot] hdot h)
  have hC : ¬[slash, dot, dot, slash] <+: slash :: (segment ++ rest) := fun h =>
    hsegment.notDots (hnext [dot, dot] hdots h)
  rw [List.cons_append, removeDots, if_neg (hstart _), if_neg (hstart _), if_neg hB,
    dif_neg fun h => hsegment.notDot (hwhole [dot] hdot h), if_neg hC,
    dif_neg fun h => hsegment.notDots (hwhole [dot, dot] hdots h), if_neg,
    takeWhile_segment hsegment.noSlash hrest, dropWhile_segment hsegment.noSlash hrest]
  rintro (h | h) <;> exact hne (List.cons.inj h).1

/-! ## Paths -/

omit [DecidableEq α] in
theorem head?_path (segments : List (List α)) : ∀ c ∈ (path slash segments).head?, c = slash := by
  intro c hc
  cases segments with
  | nil => simp [path] at hc
  | cons segment segments => simpa [path] using hc.symm

theorem removeDots_segments (hne : slash ≠ dot) {segments : List (List α)}
    (hsegments : ∀ segment ∈ segments, Plain slash dot segment)
    (hrest : ∀ c ∈ rest.head?, c = slash) (output : List α) :
    removeDots slash dot output (path slash segments ++ rest) =
      removeDots slash dot (output ++ path slash segments) rest := by
  induction segments generalizing output with
  | nil => simp [path]
  | cons segment segments ih =>
    obtain ⟨hsegment, hsegments⟩ := List.forall_mem_cons.mp hsegments
    have hhead : ∀ c ∈ (path slash segments ++ rest).head?, c = slash := by
      intro c hc
      rw [List.head?_append] at hc
      rcases Option.or_eq_some_iff.mp hc with h | ⟨-, h⟩
      · exact head?_path segments c h
      · exact hrest c h
    have hcons : path slash (segment :: segments) = slash :: segment ++ path slash segments := by
      simp [path]
    rw [hcons, List.append_assoc, removeDots_segment hne hsegment hhead, ih hsegments,
      List.append_assoc]

theorem removeDots_single (hne : slash ≠ dot) (hsegment : Plain slash dot segment)
    (output : List α) :
    removeDots slash dot output (slash :: segment) = output ++ slash :: segment := by
  have hnil : ∀ c ∈ ([] : List α).head?, c = slash := by simp
  have h := removeDots_segment hne hsegment hnil output
  rwa [List.append_nil, removeDots] at h

theorem removeDots_slash (hne : slash ≠ dot) (output : List α) :
    removeDots slash dot output [slash] = output ++ [slash] := by
  exact removeDots_single hne ⟨by simp, by simp, by simp⟩ output

theorem removeDots_dot (hne : slash ≠ dot) (output : List α) :
    removeDots slash dot output [slash, dot] = output ++ [slash] := by
  rw [removeDots, if_neg, if_neg, if_neg, dif_pos rfl, removeDots_slash hne]
  all_goals simp [hne, hne.symm]

theorem removeDots_dots (hne : slash ≠ dot) (output : List α) :
    removeDots slash dot output [slash, dot, dot] = removeLast slash output ++ [slash] := by
  rw [removeDots, if_neg, if_neg, if_neg, dif_neg, if_neg, dif_pos rfl, removeDots_slash hne]
  all_goals simp [hne, hne.symm]

theorem removeLast_append (hsegment : slash ∉ segment) (output : List α) :
    removeLast slash (output ++ slash :: segment) = output := by
  have hdrop : (output ++ slash :: segment).rdropWhile (· ≠ slash) = output ++ [slash] := by
    rw [List.rdropWhile, List.reverse_append, List.reverse_cons, List.append_assoc,
      dropWhile_segment (by simpa using hsegment) (by simp)]
    simp
  rw [removeLast, hdrop, List.dropLast_concat]

end

end DotSegments
