/-!
# Maps kept in key order

* `Keyed β` : entries under keys, each key once, in ascending order of the keys (by code point);
* `Keyed.find?`, `Keyed.insert`, `Keyed.erase`, `Keyed.ofList`;
* `find?_insert`, `find?_erase` : what a look-up sees after each change.
-/

namespace StackParser

/-- Entries in strictly ascending key order. -/
def KeysAscend {β : Type} (entries : List (String × β)) : Prop := entries.Pairwise fun a b => a.1 < b.1

/-- Entries under pairwise different keys. -/
structure Keyed (β : Type) where
  entries : List (String × β)
  ascend : KeysAscend entries

namespace Keyed

variable {β : Type}

def empty : Keyed β := ⟨[], List.Pairwise.nil⟩

instance : Inhabited (Keyed β) := ⟨empty⟩

def find? (m : Keyed β) (key : String) : Option β := m.entries.lookup key

def keys (m : Keyed β) : List String := m.entries.map Prod.fst

/-- Puts an entry at its place in ascending entries, instead of the one with the same key if there is one. -/
def insertEntry (key : String) (v : β) : List (String × β) → List (String × β)
  | [] => [(key, v)]
  | (k, w) :: rest =>
    if key < k then (key, v) :: (k, w) :: rest
    else if key = k then (key, v) :: rest
    else (k, w) :: insertEntry key v rest

theorem mem_insertEntry {key : String} {v : β} {entries : List (String × β)} {e : String × β}
    (h : e ∈ insertEntry key v entries) : e = (key, v) ∨ e ∈ entries := by
  induction entries with
  | nil => simpa [insertEntry] using h
  | cons a rest ih =>
    simp only [insertEntry] at h
    split at h
    · simpa using h
    · split at h
      · rcases List.mem_cons.1 h with h | h
        · exact .inl h
        · exact .inr (List.mem_cons_of_mem _ h)
      · rcases List.mem_cons.1 h with h | h
        · exact .inr (h ▸ List.mem_cons_self)
        · exact (ih h).imp_right (List.mem_cons_of_mem _)

theorem keysAscend_insertEntry (key : String) (v : β) {entries : List (String × β)}
    (h : KeysAscend entries) : KeysAscend (insertEntry key v entries) := by
  induction entries with
  | nil => exact List.pairwise_singleton _ _
  | cons a rest ih =>
    obtain ⟨ha, hr⟩ := List.pairwise_cons.1 h
    simp only [insertEntry]
    split
    · rename_i hlt
      refine List.pairwise_cons.2 ⟨fun e he => ?_, h⟩
      rcases List.mem_cons.1 he with he | he
      · exact he ▸ hlt
      · exact String.lt_trans hlt (ha e he)
    · split
      · rename_i heq
        exact List.pairwise_cons.2 ⟨fun e he => heq ▸ ha e he, hr⟩
      · rename_i hlt hne
        refine List.pairwise_cons.2 ⟨fun e he => ?_, ih hr⟩
        rcases mem_insertEntry he with he | he
        · subst he
          rcases String.le_total key a.1 with hle | hle
          · exact absurd (String.le_antisymm hle (String.not_lt.1 hlt)) hne
          · exact String.not_le.1 fun hle' => hne (String.le_antisymm hle' hle)
        · exact ha e he

def insert (m : Keyed β) (key : String) (v : β) : Keyed β :=
  ⟨insertEntry key v m.entries, keysAscend_insertEntry key v m.ascend⟩

def erase (m : Keyed β) (key : String) : Keyed β :=
  ⟨m.entries.filter fun e => e.1 != key, m.ascend.filter _⟩

/-- The map of these pairs; of two pairs with one key the later holds. -/
def ofList (pairs : List (String × β)) : Keyed β :=
  pairs.foldl (fun m e => m.insert e.1 e.2) empty

/-! ## Looking up after a change -/

@[simp] theorem find?_empty (key : String) : (empty : Keyed β).find? key = none := rfl

theorem lookup_cons (key k : String) (w : β) (rest : List (String × β)) :
    List.lookup key ((k, w) :: rest) = if key = k then some w else rest.lookup key := by
  by_cases h : key = k
  · simp [h]
  · rw [List.lookup_cons, beq_eq_false_iff_ne.2 h, if_neg h]

theorem lookup_insertEntry (key key' : String) (v : β) (entries : List (String × β)) :
    (insertEntry key v entries).lookup key' = if key' = key then some v else entries.lookup key' := by
  induction entries with
  | nil => simp [insertEntry, lookup_cons]
  | cons a rest ih =>
    obtain ⟨k, w⟩ := a
    simp only [insertEntry]
    split
    · exact lookup_cons ..
    · split
      · rename_i h
        subst h
        rw [lookup_cons, lookup_cons]
        split <;> rfl
      · rename_i hne
        rw [lookup_cons, lookup_cons, ih]
        by_cases h : key' = k
        · subst h
          simp [Ne.symm hne]
        · simp [h]

@[simp] theorem find?_insert (m : Keyed β) (key key' : String) (v : β) :
    (m.insert key v).find? key' = if key' = key then some v else m.find? key' :=
  lookup_insertEntry key key' v m.entries

@[simp] theorem find?_erase (m : Keyed β) (key key' : String) :
    (m.erase key).find? key' = if key' = key then none else m.find? key' := by
  obtain ⟨entries, ascend⟩ := m
  simp only [erase, find?]
  clear ascend
  induction entries with
  | nil => simp
  | cons a rest ih =>
    obtain ⟨k, w⟩ := a
    rw [List.filter_cons, lookup_cons]
    by_cases hk : k = key
    · subst hk
      simp only [bne_self_eq_false, Bool.false_eq_true, if_false, ih]
      split <;> rfl
    · simp only [bne_iff_ne, ne_eq, hk, not_false_eq_true, if_true, lookup_cons, ih]
      by_cases h : key' = k
      · subst h
        simp [hk]
      · simp [h]

/-! ## Entries -/

theorem mem_iff_lookup {entries : List (String × β)} (h : KeysAscend entries) (key : String) (v : β) :
    (key, v) ∈ entries ↔ entries.lookup key = some v := by
  induction entries with
  | nil => simp
  | cons a rest ih =>
    obtain ⟨ha, hrest⟩ := List.pairwise_cons.1 h
    obtain ⟨k, w⟩ := a
    rw [List.mem_cons, ih hrest, lookup_cons]
    by_cases hkey : key = k
    · subst hkey
      have hnone : rest.lookup key ≠ some v := fun hv => String.lt_irrefl _ (ha (key, v) ((ih hrest).2 hv))
      simp [hnone, eq_comm]
    · simp [hkey]

theorem mem_entries_iff (m : Keyed β) (key : String) (v : β) : (key, v) ∈ m.entries ↔ m.find? key = some v :=
  mem_iff_lookup m.ascend key v

theorem nodup_entries (m : Keyed β) : m.entries.Nodup := by
  refine m.ascend.imp ?_
  rintro a b hlt rfl
  exact String.lt_irrefl _ hlt

end Keyed

end StackParser
