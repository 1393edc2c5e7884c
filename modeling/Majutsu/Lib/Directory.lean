import Mathlib.Algebra.Order.BigOperators.Group.Finset
import Mathlib.Data.Finmap

/-!
# Directories

A directory is a finite map from names to files. Mathlib's `Finmap` supplies
the map; this file adds the reading of a changed directory at an arbitrary
name and the weight of a directory, which is a sum over its files.
-/

abbrev Directory (κ ν : Type) : Type := Finmap (fun _ : κ => ν)

namespace Directory

variable {κ ν : Type} [DecidableEq κ]

theorem lookup_insert_ite (d : Directory κ ν) (k j : κ) (v : ν) :
    (d.insert k v).lookup j = if j = k then some v else d.lookup j := by
  by_cases h : j = k
  · subst h
    simp
  · simp [h, Finmap.lookup_insert_of_ne]

theorem lookup_erase_ite (d : Directory κ ν) (k j : κ) :
    (d.erase k).lookup j = if j = k then none else d.lookup j := by
  by_cases h : j = k
  · subst h
    simp
  · simp [h, Finmap.lookup_erase_ne]

theorem mem_keys_iff (d : Directory κ ν) (k : κ) : k ∈ d.keys ↔ ∃ v, d.lookup k = some v := by
  rw [Finmap.mem_keys, Finmap.mem_iff]

/-- The weight of one name; a missing file weighs nothing. -/
def weightAt (weight : ν → Nat) (d : Directory κ ν) (k : κ) : Nat :=
  (d.lookup k).elim 0 weight

def total (weight : ν → Nat) (d : Directory κ ν) : Nat :=
  ∑ k ∈ d.keys, weightAt weight d k

theorem total_erase (weight : ν → Nat) (d : Directory κ ν) (k : κ) :
    total weight (d.erase k) + weightAt weight d k = total weight d := by
  have others : ∀ j ∈ d.keys.erase k, weightAt weight (d.erase k) j = weightAt weight d j := by
    intro j hj
    simp [weightAt, Finset.ne_of_mem_erase hj]
  have rest : total weight (d.erase k) = ∑ j ∈ d.keys.erase k, weightAt weight d j := by
    rw [total, Finmap.keys_erase]
    exact Finset.sum_congr rfl others
  rw [rest]
  by_cases h : k ∈ d.keys
  · exact Finset.sum_erase_add _ _ h
  · have hk : d.lookup k = none := Finmap.lookup_eq_none.mpr (fun hm => h (Finmap.mem_keys.mpr hm))
    simp [weightAt, hk, total, Finset.erase_eq_of_notMem h]

theorem total_insert (weight : ν → Nat) (d : Directory κ ν) (k : κ) (v : ν) :
    total weight (d.insert k v) + weightAt weight d k = total weight d + weight v := by
  have same : (d.insert k v).erase k = d.erase k := by
    apply Finmap.ext_lookup
    intro j
    simp only [lookup_erase_ite, lookup_insert_ite]
    split <;> rfl
  have inserted := total_erase weight (d.insert k v) k
  have erased := total_erase weight d k
  have new : weightAt weight (d.insert k v) k = weight v := by simp [weightAt]
  rw [same, new] at inserted
  omega

def Within (d e : Directory κ ν) : Prop := ∀ k v, d.lookup k = some v → e.lookup k = some v

theorem Within.total_le {d e : Directory κ ν} (within : Within d e) (weight : ν → Nat) :
    total weight d ≤ total weight e := by
  have names : d.keys ⊆ e.keys := by
    intro k hk
    obtain ⟨v, found⟩ := (mem_keys_iff d k).mp hk
    exact (mem_keys_iff e k).mpr ⟨v, within k v found⟩
  have same : total weight d = ∑ k ∈ d.keys, weightAt weight e k := by
    refine Finset.sum_congr rfl (fun k hk => ?_)
    obtain ⟨v, found⟩ := (mem_keys_iff d k).mp hk
    rw [weightAt, weightAt, found, within k v found]
  rw [same]
  exact Finset.sum_le_sum_of_subset names

end Directory
