/-!
# Dictionaries

Property bags, query parameters and result rows are all finite maps from names to something, and
every one of them is observed in increasing order of name. So order is part of the representation:
a dictionary *is* the list of its entries, strictly increasing in name. Two dictionaries with the
same entries are then equal, and printing one needs no sorting.

The operations are written on plain lists of entries first (`Entries`), because the maps nested
inside a value are such lists, and bundled with the order proof afterwards (`Dict`).

## Main definitions

* `Entries.insert`, `Entries.lookup`, `Entries.erase`, `Entries.ofPairs`: the operations on lists.
* `Dict`: a list of entries together with the proof that its names increase strictly.

## Main results

* `Entries.lookup_insert_self`, `Entries.lookup_insert_of_ne`: read after write.
* `Entries.lookup_erase_self`, `Entries.lookup_erase_of_ne`: read after removal.
-/

namespace GraphMapping

variable {α β : Type}

/-! ### Entry lists -/

namespace Entries

/-- The names of the entries, in order. -/
def names (entries : List (String × α)) : List String :=
  entries.map Prod.fst

/-- The names increase strictly, so no name occurs twice. -/
def Sorted (entries : List (String × α)) : Prop :=
  (names entries).Pairwise (· < ·)

instance (entries : List (String × α)) : Decidable (Sorted entries) :=
  inferInstanceAs (Decidable ((names entries).Pairwise (· < ·)))

/-- The value stored under `name`. -/
def lookup (name : String) : List (String × α) → Option α
  | [] => none
  | (k, v) :: rest => if k = name then some v else lookup name rest

/-- Store `value` under `name`, in its place in the order; an earlier value is replaced. -/
def insert (name : String) (value : α) : List (String × α) → List (String × α)
  | [] => [(name, value)]
  | (k, v) :: rest =>
    if name < k then (name, value) :: (k, v) :: rest
    else if name = k then (name, value) :: rest
    else (k, v) :: insert name value rest

/-- Drop the entry of `name`. -/
def erase (name : String) (entries : List (String × α)) : List (String × α) :=
  entries.filter fun entry => entry.1 ≠ name

/-- The entries of a list of pairs in which a later pair replaces an earlier one of its name. -/
def ofPairs (pairs : List (String × α)) : List (String × α) :=
  pairs.foldl (fun entries pair => insert pair.1 pair.2 entries) []

theorem names_insert_subset {name : String} {value : α} {entries : List (String × α)} {k : String}
    (h : k ∈ names (insert name value entries)) : k = name ∨ k ∈ names entries := by
  induction entries with
  | nil => simpa [insert, names] using h
  | cons entry rest ih =>
    obtain ⟨n, v⟩ := entry
    simp only [insert] at h
    split at h
    · simpa [names] using h
    · split at h
      · rename_i heq
        simp only [names, List.map_cons, List.mem_cons] at h ⊢
        rcases h with h | h
        · exact .inl h
        · exact .inr (.inr h)
      · simp only [names, List.map_cons, List.mem_cons] at h ⊢
        rcases h with h | h
        · exact .inr (.inl h)
        · rcases ih h with h | h
          · exact .inl h
          · exact .inr (.inr h)

theorem Sorted.insert {entries : List (String × α)} (h : Sorted entries) (name : String)
    (value : α) : Sorted (Entries.insert name value entries) := by
  induction entries with
  | nil => simp [Sorted, Entries.insert, names]
  | cons entry rest ih =>
    obtain ⟨k, v⟩ := entry
    have hrest : Sorted rest := (List.pairwise_cons.mp h).2
    have hlt : ∀ n ∈ names rest, k < n := (List.pairwise_cons.mp h).1
    simp only [Entries.insert]
    split
    · rename_i hk
      refine List.pairwise_cons.mpr ⟨fun n hn => ?_, h⟩
      rcases List.mem_cons.mp hn with rfl | hn
      · exact hk
      · exact String.lt_trans hk (hlt n hn)
    · rename_i hk
      split
      · rename_i heq
        subst heq
        exact List.pairwise_cons.mpr ⟨hlt, hrest⟩
      · rename_i hne
        refine List.pairwise_cons.mpr ⟨fun n hn => ?_, ih hrest⟩
        rcases names_insert_subset hn with rfl | hn
        · exact String.not_le.mp fun hle =>
            hne (String.le_antisymm hle (String.not_lt.mp hk))
        · exact hlt n hn

theorem Sorted.filter {entries : List (String × α)} (h : Sorted entries)
    (p : String × α → Bool) : Sorted (entries.filter p) :=
  List.Pairwise.sublist (List.Sublist.map _ List.filter_sublist) h

theorem Sorted.mapVal {entries : List (String × α)} (h : Sorted entries) (f : String → α → β) :
    Sorted (entries.map fun entry => (entry.1, f entry.1 entry.2)) := by
  have : names (entries.map fun entry => (entry.1, f entry.1 entry.2)) = names entries := by
    simp [names, Function.comp_def]
  simpa [Sorted, this] using h

private theorem sorted_foldl_insert (pairs : List (String × α)) :
    ∀ entries : List (String × α), Sorted entries →
      Sorted (pairs.foldl (fun es pair => Entries.insert pair.1 pair.2 es) entries) := by
  induction pairs with
  | nil => exact fun _ h => h
  | cons pair rest ih => exact fun entries h => ih _ (h.insert pair.1 pair.2)

theorem sorted_ofPairs (pairs : List (String × α)) : Sorted (ofPairs pairs) :=
  sorted_foldl_insert pairs [] List.Pairwise.nil

@[simp] theorem lookup_insert_self (name : String) (value : α) (entries : List (String × α)) :
    lookup name (insert name value entries) = some value := by
  induction entries with
  | nil => simp [insert, lookup]
  | cons entry rest ih =>
    obtain ⟨k, v⟩ := entry
    simp only [insert]
    split
    · simp [lookup]
    · split
      · simp [lookup]
      · rename_i hne
        simp [lookup, Ne.symm hne, ih]

theorem lookup_insert_of_ne {name other : String} (h : other ≠ name) (value : α)
    (entries : List (String × α)) :
    lookup other (insert name value entries) = lookup other entries := by
  induction entries with
  | nil => simp [insert, lookup, h.symm]
  | cons entry rest ih =>
    obtain ⟨k, v⟩ := entry
    simp only [insert]
    split
    · simp [lookup, h.symm]
    · split
      · rename_i heq
        subst heq
        simp [lookup, h.symm]
      · simp [lookup, ih]

@[simp] theorem lookup_erase_self (name : String) (entries : List (String × α)) :
    lookup name (erase name entries) = none := by
  induction entries with
  | nil => rfl
  | cons entry rest ih =>
    obtain ⟨k, v⟩ := entry
    by_cases hk : k = name
    · simpa [erase, hk] using ih
    · simpa [erase, hk, lookup] using ih

theorem lookup_erase_of_ne {name other : String} (h : other ≠ name)
    (entries : List (String × α)) : lookup other (erase name entries) = lookup other entries := by
  induction entries with
  | nil => rfl
  | cons entry rest ih =>
    obtain ⟨k, v⟩ := entry
    by_cases hk : k = name
    · simpa [erase, hk, lookup, h.symm] using ih
    · by_cases ho : k = other
      · subst ho
        simp [erase, hk, lookup]
      · simpa [erase, hk, lookup, ho] using ih

end Entries

/-! ### Dictionaries -/

/-- A finite map from names to values, kept as its entries in strictly increasing order of name. -/
structure Dict (α : Type) where
  /-- The entries, first name first. -/
  entries : List (String × α)
  sorted : Entries.Sorted entries := by decide

namespace Dict

@[ext] theorem ext {d e : Dict α} (h : d.entries = e.entries) : d = e := by
  cases d; cases e; simp_all

instance [BEq α] : BEq (Dict α) where
  beq d e := d.entries == e.entries

instance [DecidableEq α] : DecidableEq (Dict α) := fun d e =>
  decidable_of_iff (d.entries = e.entries) ⟨Dict.ext, congrArg Dict.entries⟩

/-- The dictionary without entries. -/
def empty : Dict α := ⟨[], List.Pairwise.nil⟩

instance : EmptyCollection (Dict α) := ⟨empty⟩

instance : Inhabited (Dict α) := ⟨empty⟩

/-- The value stored under `name`. -/
def get? (d : Dict α) (name : String) : Option α := Entries.lookup name d.entries

/-- Whether something is stored under `name`. -/
def contains (d : Dict α) (name : String) : Bool := (d.get? name).isSome

/-- Store `value` under `name`, replacing an earlier value. -/
def insert (d : Dict α) (name : String) (value : α) : Dict α :=
  ⟨Entries.insert name value d.entries, d.sorted.insert name value⟩

/-- Drop the entry of `name`, if there is one. -/
def erase (d : Dict α) (name : String) : Dict α :=
  ⟨Entries.erase name d.entries, d.sorted.filter _⟩

/-- Apply `f` to every value. -/
def map (f : String → α → β) (d : Dict α) : Dict β :=
  ⟨d.entries.map fun entry => (entry.1, f entry.1 entry.2), d.sorted.mapVal f⟩

/-- Keep the entries that satisfy `p`. -/
def filter (p : String → α → Bool) (d : Dict α) : Dict α :=
  ⟨d.entries.filter fun entry => p entry.1 entry.2, d.sorted.filter _⟩

/-- The names, in increasing order. -/
def names (d : Dict α) : List String := Entries.names d.entries

/-- The entries, in increasing order of name. -/
def toList (d : Dict α) : List (String × α) := d.entries

/-- The dictionary of a list of pairs in which a later pair replaces an earlier one. -/
def ofList (pairs : List (String × α)) : Dict α :=
  ⟨Entries.ofPairs pairs, Entries.sorted_ofPairs pairs⟩

/-- Whether there is no entry. -/
def isEmpty (d : Dict α) : Bool := d.entries.isEmpty

/-- The number of entries. -/
def size (d : Dict α) : Nat := d.entries.length

@[simp] theorem get?_insert_self (d : Dict α) (name : String) (value : α) :
    (d.insert name value).get? name = some value :=
  Entries.lookup_insert_self name value d.entries

theorem get?_insert_of_ne (d : Dict α) {name other : String} (h : other ≠ name) (value : α) :
    (d.insert name value).get? other = d.get? other :=
  Entries.lookup_insert_of_ne h value d.entries

@[simp] theorem get?_erase_self (d : Dict α) (name : String) : (d.erase name).get? name = none :=
  Entries.lookup_erase_self name d.entries

theorem get?_erase_of_ne (d : Dict α) {name other : String} (h : other ≠ name) :
    (d.erase name).get? other = d.get? other :=
  Entries.lookup_erase_of_ne h d.entries

end Dict

end GraphMapping
