import SealedVault.Store

/-!
This module contains the entries and the sizes of stores. Main statements: `get?_eq_some_iff`, so a
lookup finds exactly the entries, `size_erase` and `size_insert`, so a size changes only as far as
the key was there before, and `Alike.insert`, so sizes and keys do not depend on the texts.
-/

namespace SealedVault.Store

variable (store : Store)

theorem contains_iff {key : String} :
    store.contains key = true ↔ key ∈ store.entries.map Prod.fst := by
  unfold contains get?
  rw [List.lookup_isSome_iff]
  simp

theorem get?_eq_some_iff {key text : String} :
    store.get? key = some text ↔ (key, text) ∈ store.entries := by
  unfold get?
  rw [List.lookup_eq_some_iff]
  constructor
  · rintro ⟨before, behind, heq, -⟩
    rw [heq]
    exact List.mem_append_right _ List.mem_cons_self
  · intro hmem
    obtain ⟨before, behind, heq⟩ := List.append_of_mem hmem
    refine ⟨before, behind, heq, ?_⟩
    have hdistinct := store.distinct
    rw [heq, List.map_append, List.map_cons, List.nodup_append] at hdistinct
    intro entry hentry
    have := hdistinct.2.2 entry.1 (List.mem_map_of_mem hentry) key List.mem_cons_self
    simpa using this.symm

theorem length_filter_ne {entries : List (String × String)} (key : String)
    (h : (entries.map Prod.fst).Nodup) :
    (entries.filter (·.1 ≠ key)).length + (if key ∈ entries.map Prod.fst then 1 else 0) =
      entries.length := by
  induction entries with
  | nil => rfl
  | cons entry rest ih =>
    rw [List.map_cons, List.nodup_cons] at h
    obtain ⟨hfresh, hrest⟩ := h
    specialize ih hrest
    simp only [ne_eq] at ih ⊢
    by_cases hkey : entry.1 = key
    · -- the key occurs once, so that nothing goes from the rest
      rw [hkey] at hfresh
      simp only [hfresh, if_false] at ih
      simp only [List.filter_cons, List.map_cons, hkey, not_true_eq_false, decide_false,
        Bool.false_eq_true, if_false, List.mem_cons, true_or, if_true, List.length_cons]
      omega
    · have : key ≠ entry.1 := fun h => hkey h.symm
      simp only [List.filter_cons, List.map_cons, hkey, not_false_eq_true, decide_true,
        if_true, List.mem_cons, this, false_or, List.length_cons]
      omega

theorem size_erase (key : String) :
    (store.erase key).size + (if store.contains key then 1 else 0) = store.size := by
  simp only [contains_iff]
  exact length_filter_ne key store.distinct

theorem size_insert (key value : String) :
    (store.insert key value).size = (store.erase key).size + 1 := by
  rfl

theorem contains_erase (key other : String) :
    (store.erase key).contains other = if other = key then false else store.contains other := by
  unfold contains
  rw [get?_erase]
  split
  · rfl
  · rfl

theorem contains_insert (key value other : String) :
    (store.insert key value).contains other =
      if other = key then true else store.contains other := by
  unfold contains
  rw [get?_insert]
  split
  · rfl
  · rfl

/-- Two stores that differ in nothing but the texts under their keys. -/
structure Alike (store other : Store) : Prop where
  size_eq : store.size = other.size
  contains_eq : ∀ key, store.contains key = other.contains key

namespace Alike

variable {store other : Store}

theorem refl (store : Store) : Alike store store where
  size_eq := rfl
  contains_eq _ := rfl

theorem erase (h : Alike store other) (key : String) :
    Alike (store.erase key) (other.erase key) where
  size_eq := by
    have hstore := store.size_erase key
    have hother := other.size_erase key
    rw [h.contains_eq key] at hstore
    have := h.size_eq
    omega
  contains_eq name := by rw [contains_erase, contains_erase, h.contains_eq name]

theorem insert (h : Alike store other) (key value text : String) :
    Alike (store.insert key value) (other.insert key text) where
  size_eq := by rw [size_insert, size_insert, (h.erase key).size_eq]
  contains_eq name := by rw [contains_insert, contains_insert, h.contains_eq name]

end Alike

end SealedVault.Store
