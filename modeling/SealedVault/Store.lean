/-!
This module contains the store that programs work on: text under distinct text keys. Main
statements: `get?_insert` and `get?_erase`, which say what each operation does to every key.
-/

namespace SealedVault

structure Store where
  entries : List (String × String)
  distinct : (entries.map Prod.fst).Nodup

namespace Store

def empty : Store :=
  ⟨[], List.nodup_nil⟩

def size (store : Store) : Nat :=
  store.entries.length

def isEmpty (store : Store) : Bool :=
  store.entries.isEmpty

/-- The text under a key. -/
def get? (store : Store) (key : String) : Option String :=
  store.entries.lookup key

def contains (store : Store) (key : String) : Bool :=
  (store.get? key).isSome

/-- Removes a key and its text, if it is there. -/
def erase (store : Store) (key : String) : Store where
  entries := store.entries.filter (·.1 ≠ key)
  distinct := store.distinct.sublist (List.filter_sublist.map _)

/-- Puts a text under a key, in place of the one that was there. -/
def insert (store : Store) (key value : String) : Store where
  entries := (key, value) :: (store.erase key).entries
  distinct := by
    refine List.nodup_cons.2 ⟨?_, (store.erase key).distinct⟩
    simp [erase]

instance : EmptyCollection Store := ⟨empty⟩

@[simp]
theorem get?_empty (key : String) : empty.get? key = none := by
  rfl

theorem get?_erase (store : Store) (key other : String) :
    (store.erase key).get? other = if other = key then none else store.get? other := by
  obtain ⟨entries, distinct⟩ := store
  simp only [get?, erase]
  clear distinct
  induction entries with
  | nil => simp
  | cons entry rest ih =>
    obtain ⟨k, v⟩ := entry
    by_cases hk : k = key
    · subst hk
      simp only [List.filter_cons, ne_eq, not_true_eq_false, decide_false, Bool.false_eq_true,
        if_false, ih, List.lookup_cons]
      by_cases ho : other = k
      · simp [ho]
      · simp [ho, beq_eq_false_iff_ne.2 ho]
    · simp only [List.filter_cons, ne_eq, hk, not_false_eq_true, decide_true, if_true,
        List.lookup_cons, ih]
      by_cases ho : other = k
      · subst ho; simp [hk]
      · have : (other == k) = false := by simpa using ho
        simp [this]

theorem get?_insert (store : Store) (key value other : String) :
    (store.insert key value).get? other = if other = key then some value else store.get? other := by
  by_cases h : other = key
  · simp [get?, insert, h]
  · have : (other == key) = false := by simpa using h
    have he := store.get?_erase key other
    simp only [get?, h, if_false] at he
    simp only [get?, insert, List.lookup_cons, this, he, h, if_false]

end Store

end SealedVault
