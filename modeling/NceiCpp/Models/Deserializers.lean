import NceiCpp.Models.ClimateFeeds
import NceiCpp.Models.Pagination

/-!
# What a deserializer does with its output

Every deserializer takes the object it fills by reference.

* `Atomic`: on an error the object is as it was, otherwise it depends on the body alone.
* `deserializers_atomic`: all deserializers are atomic.
-/

namespace NceiCpp.Models

open NceiCpp.Core

/-- Either the call fails with an error that depends on the body alone and leaves the output
    as it was, or it stores a value that depends on the body alone. -/
def Atomic {α : Type} (deserialize : Bytes → α → Result Unit × α) : Prop :=
  ∀ body, (∃ e, ∀ out, deserialize body out = (.error e, out)) ∨
    ∃ v, ∀ out, deserialize body out = (.ok (), v)

/-- A check of what was parsed, in front of the assignment. -/
theorem atomic_ite {α : Type} (c : Prop) [Decidable c] (e : Error) (v : α) :
    (∃ e', ∀ out : α,
        (if c then (.error e, out) else (.ok (), v) : Result Unit × α) = (.error e', out)) ∨
      ∃ v', ∀ out : α,
        (if c then (.error e, out) else (.ok (), v) : Result Unit × α) = (.ok (), v') := by
  by_cases hc : c
  · exact .inl ⟨e, fun out => if_pos hc⟩
  · exact .inr ⟨v, fun out => if_neg hc⟩

theorem atomic_cagSeries (glaze : GlazeGeneric) : Atomic (deserializeCagSeries glaze) := by
  intro body
  unfold deserializeCagSeries
  cases glaze.read body with
  | error text => exact .inl ⟨_, fun out => rfl⟩
  | ok root =>
    cases root with
    | object members =>
      dsimp only
      cases findMember members (bytes "data") with
      | none => exact .inl ⟨_, fun out => rfl⟩
      | some value =>
        cases value with
        | object data => exact atomic_ite _ _ _
        | _ => exact .inl ⟨_, fun out => rfl⟩
    | _ => exact .inl ⟨_, fun out => rfl⟩

theorem atomic_gistempCsv : Atomic deserializeGistempCsv := by
  intro body
  exact atomic_ite _ _ _

theorem atomic_nsidcSeaIceCsv (monthly : Bool) :
    Atomic fun body out => deserializeNsidcSeaIceCsv body monthly out := by
  intro body
  show (∃ e, ∀ out, deserializeNsidcSeaIceCsv body monthly out = (.error e, out)) ∨
    ∃ v, ∀ out, deserializeNsidcSeaIceCsv body monthly out = (.ok (), v)
  unfold deserializeNsidcSeaIceCsv
  cases parse .comma body with
  | nil => exact .inl ⟨_, fun out => rfl⟩
  | cons header rows =>
    dsimp only
    by_cases hheader : (seaIceColumns monthly header).year < 0 ∨
        (seaIceColumns monthly header).extent < 0
    · simp only [if_pos hheader]
      exact .inl ⟨_, fun out => rfl⟩
    · simp only [if_neg hheader]
      exact atomic_ite _ _ _

theorem atomic_dataPointCollection (glaze : GlazeGeneric) :
    Atomic (deserializeDataPointCollection glaze) := by
  intro body
  unfold deserializeDataPointCollection
  cases glaze.read body with
  | error text => exact .inl ⟨_, fun out => rfl⟩
  | ok root =>
    cases root with
    | array items => exact .inr ⟨_, fun out => rfl⟩
    | object members => exact .inr ⟨_, fun out => rfl⟩
    | _ => exact .inl ⟨_, fun out => rfl⟩

theorem atomic_cdoList {T : Type} (read : ListReader T) : Atomic (deserializeCdoListImpl read) := by
  intro body
  unfold deserializeCdoListImpl
  cases read body with
  | error ec => exact .inl ⟨_, fun out => rfl⟩
  | ok members => exact .inr ⟨_, fun out => rfl⟩

/-- **Deserializers are atomic and history-free.** -/
theorem deserializers_atomic (glaze : GlazeGeneric) {T : Type} (read : ListReader T) :
    Atomic (deserializeCagSeries glaze) ∧ Atomic deserializeGistempCsv ∧
      (∀ monthly, Atomic fun body out => deserializeNsidcSeaIceCsv body monthly out) ∧
      Atomic (deserializeDataPointCollection glaze) ∧ Atomic (deserializeCdoListImpl read) :=
  ⟨atomic_cagSeries glaze, atomic_gistempCsv, atomic_nsidcSeaIceCsv,
    atomic_dataPointCollection glaze, atomic_cdoList read⟩

end NceiCpp.Models
