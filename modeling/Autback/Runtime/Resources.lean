import Autback.Control.Model
import Mathlib.Data.List.Sort

/-!
# Sets of Docker resources

The set operations of `internal/operation/cleanup/resources.go`: what an operation owns is what an inventory shows and
its baseline does not.
-/

namespace Autback

inductive ResourceKind
  | service
  | container
  | network
  | volume
  deriving DecidableEq

def ResourceKind.text : ResourceKind → String
  | service => "service"
  | container => "container"
  | network => "network"
  | volume => "volume"

structure Resource where
  kind : ResourceKind
  id : String
  creator : Op
  deriving DecidableEq

def distinctValues (values : List String) : List String :=
  values.foldl (fun result value => if value = "" ∨ value ∈ result then result else result ++ [value]) []

def uniqueSorted (values : List String) : List String := (distinctValues values).insertionSort (· ≤ ·)

def normalize (r : ResourceSet) : ResourceSet :=
  ⟨uniqueSorted r.services, uniqueSorted r.containers, uniqueSorted r.networks, uniqueSorted r.volumes⟩

def subtract (current baseline : List String) : List String :=
  current.filter fun id => decide (id ∉ baseline) && decide (id ≠ "")

def difference (current baseline : ResourceSet) : ResourceSet :=
  normalize ⟨subtract current.services baseline.services, subtract current.containers baseline.containers,
    subtract current.networks baseline.networks, subtract current.volumes baseline.volumes⟩

def ResourceSet.ofKind (r : ResourceSet) : ResourceKind → List String
  | .service => r.services
  | .container => r.containers
  | .network => r.networks
  | .volume => r.volumes

theorem mem_distinctValues {id : String} {values : List String} :
    id ∈ distinctValues values ↔ id ∈ values ∧ id ≠ "" := by
  have hfold : ∀ (values result : List String),
      id ∈ values.foldl (fun result value => if value = "" ∨ value ∈ result then result else result ++ [value]) result ↔
        id ∈ result ∨ id ∈ values ∧ id ≠ "" := by
    intro values
    induction values with
    | nil => simp
    | cons value values ih =>
      intro result
      rw [List.foldl_cons, ih]
      split <;> grind
  rw [distinctValues, hfold]
  simp

theorem mem_uniqueSorted {id : String} {values : List String} :
    id ∈ uniqueSorted values ↔ id ∈ values ∧ id ≠ "" := by
  rw [uniqueSorted, List.mem_insertionSort, mem_distinctValues]

theorem mem_difference {current baseline : ResourceSet} {kind : ResourceKind} {id : String} :
    id ∈ (difference current baseline).ofKind kind ↔ id ∈ current.ofKind kind ∧ id ∉ baseline.ofKind kind ∧ id ≠ "" := by
  cases kind <;>
    simp only [difference, normalize, subtract, ResourceSet.ofKind, mem_uniqueSorted, List.mem_filter, Bool.and_eq_true,
      decide_eq_true_eq] <;> tauto

theorem ResourceSet.empty_iff {r : ResourceSet} : r.empty = true ↔ ∀ kind, r.ofKind kind = [] := by
  simp only [ResourceSet.empty, Bool.and_eq_true, List.isEmpty_iff]
  constructor
  · rintro ⟨⟨⟨hs, hc⟩, hn⟩, hv⟩ kind
    cases kind <;> assumption
  intro h
  exact ⟨⟨⟨h .service, h .container⟩, h .network⟩, h .volume⟩

/-- What a removal by id names: a volume by the part of its id before its creation time, anything else by its id. -/
def resourceName (kind : ResourceKind) (id : String) : String :=
  match kind with
  | .volume => String.ofList (id.toList.takeWhile (· ≠ Char.ofNat 0))
  | _ => id

end Autback
