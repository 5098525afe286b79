import Mathlib.Data.List.Nodup
import GraphMapping.Dict

/-!
# Entries of dictionaries

A dictionary is compared with the list of pairs that it was made from: reading a name is membership
in the list of entries, and storing pairs under new names adds exactly these pairs. The second is
how the parameters of a statement are shown to be complete.

## Main definitions

* `Dict.insertAll`: store pairs in order.

## Main results

* `Dict.get?_eq_some_iff`: reading is membership.
* `Dict.toList_insertAll_perm`: nothing is replaced when the names are new and distinct.
* `Dict.get?_map`, `Dict.get?_filter`: reading after a change of all values, and after a selection.
* `Dict.ext_get?`: dictionaries that read the same are equal.
-/

namespace GraphMapping

variable {α β : Type}

namespace Entries

theorem Sorted.nodup_names {entries : List (String × α)} (h : Sorted entries) :
    (entries.map Prod.fst).Nodup := by
  refine List.Pairwise.imp ?_ h
  rintro a b hlt rfl
  exact String.lt_irrefl a hlt

theorem mem_of_lookup {entries : List (String × α)} {name : String} {value : α}
    (h : lookup name entries = some value) : (name, value) ∈ entries := by
  induction entries with
  | nil => cases h
  | cons entry rest ih =>
    obtain ⟨k, v⟩ := entry
    rw [lookup] at h
    split at h
    · rename_i hk
      rw [← hk, ← Option.some.inj h]
      exact List.mem_cons_self ..
    · exact List.mem_cons_of_mem _ (ih h)

/-- Reading a name is membership, because no name occurs twice. -/
theorem lookup_eq_some_iff {entries : List (String × α)} (h : (entries.map Prod.fst).Nodup)
    {name : String} {value : α} : lookup name entries = some value ↔ (name, value) ∈ entries := by
  refine ⟨mem_of_lookup, fun hmem => ?_⟩
  induction entries with
  | nil => cases hmem
  | cons entry rest ih =>
    obtain ⟨hfresh, hrest⟩ := List.nodup_cons.mp h
    rcases List.mem_cons.mp hmem with rfl | hmem
    · exact if_pos rfl
    · have hne : entry.1 ≠ name := fun heq => hfresh (heq ▸ List.mem_map_of_mem hmem)
      rw [lookup, if_neg hne]
      exact ih hrest hmem

/-- The order of the entries does not matter for reading, as long as no name occurs twice. Of two
entries of one name the first would be read, and this depends on the order. -/
theorem lookup_perm {entries entries' : List (String × α)} (h : entries'.Perm entries)
    (hnodup : (entries.map Prod.fst).Nodup) (name : String) :
    lookup name entries' = lookup name entries := by
  have hnodup' : (entries'.map Prod.fst).Nodup := (h.map Prod.fst).nodup_iff.mpr hnodup
  refine Option.ext fun value => ?_
  rw [lookup_eq_some_iff hnodup, lookup_eq_some_iff hnodup', h.mem_iff]

theorem lookup_eq_none_iff {entries : List (String × α)} {name : String} :
    lookup name entries = none ↔ name ∉ names entries := by
  induction entries with
  | nil => simp [lookup, names]
  | cons entry rest ih =>
    obtain ⟨k, v⟩ := entry
    rw [lookup]
    split
    · rename_i hk
      simp [names, hk]
    · rename_i hk
      rw [ih]
      simp [names, Ne.symm hk]

theorem lookup_append (name : String) (entries entries' : List (String × α)) :
    lookup name (entries ++ entries') = (lookup name entries).or (lookup name entries') := by
  induction entries with
  | nil => rfl
  | cons entry rest ih =>
    rw [List.cons_append, lookup, lookup]
    split
    · rfl
    · exact ih

/-- What is read after storing pairs is the last value of the name. -/
theorem lookup_insertAll (name : String) (pairs entries : List (String × α)) :
    lookup name (pairs.foldl (fun es pair => insert pair.1 pair.2 es) entries) =
      (lookup name pairs.reverse).or (lookup name entries) := by
  induction pairs generalizing entries with
  | nil => rfl
  | cons pair rest ih =>
    have hone : lookup name (insert pair.1 pair.2 entries) =
        (lookup name [pair]).or (lookup name entries) := by
      by_cases hname : pair.1 = name
      · subst hname
        simp [lookup]
      · rw [lookup_insert_of_ne (Ne.symm hname), lookup, if_neg hname]
        rfl
    rw [List.foldl_cons, ih, hone, List.reverse_cons, lookup_append, Option.or_assoc]

theorem isSome_lookup_insertAll {pairs : List (String × α)} {name : String}
    (entries : List (String × α)) :
    (lookup name (pairs.foldl (fun es pair => insert pair.1 pair.2 es) entries)).isSome ↔
      (lookup name entries).isSome ∨ name ∈ pairs.map Prod.fst := by
  have hpairs : (lookup name pairs.reverse).isSome ↔ name ∈ pairs.map Prod.fst := by
    rw [Option.isSome_iff_ne_none, Ne, lookup_eq_none_iff, not_not, names, List.map_reverse,
      List.mem_reverse]
  rw [lookup_insertAll, Option.isSome_or, Bool.or_eq_true, hpairs, or_comm]

/-- What is read after storing pairs was there before or is one of the pairs. -/
theorem mem_of_lookup_insertAll {pairs entries : List (String × α)} {name : String} {value : α}
    (h : lookup name (pairs.foldl (fun es pair => insert pair.1 pair.2 es) entries) = some value) :
    lookup name entries = some value ∨ (name, value) ∈ pairs := by
  rw [lookup_insertAll, Option.or_eq_some_iff] at h
  rcases h with hmem | ⟨-, hearlier⟩
  · exact .inr (List.mem_reverse.mp (mem_of_lookup hmem))
  · exact .inl hearlier

/-- Leaving out the pairs of some names does not change what is read under the others. -/
theorem lookup_insertAll_filter {keep : String → Bool} {name : String} (hname : keep name = true)
    {pairs entries entries' : List (String × α)} (h : lookup name entries' = lookup name entries) :
    lookup name ((pairs.filter fun pair => keep pair.1).foldl
        (fun es pair => insert pair.1 pair.2 es) entries') =
      lookup name (pairs.foldl (fun es pair => insert pair.1 pair.2 es) entries) := by
  induction pairs generalizing entries entries' with
  | nil => exact h
  | cons pair rest ih =>
    rw [List.filter_cons, List.foldl_cons]
    by_cases hpair : pair.1 = name
    · rw [hpair, if_pos hname, List.foldl_cons, hpair]
      exact ih (by rw [lookup_insert_self, lookup_insert_self])
    · have hinsert := lookup_insert_of_ne (Ne.symm hpair) pair.2
      split
      · exact ih (by rw [hinsert, hinsert, h])
      · exact ih (h.trans (hinsert entries).symm)

theorem perm_insert {name : String} {value : α} {entries : List (String × α)}
    (h : ∀ entry ∈ entries, entry.1 ≠ name) :
    (insert name value entries).Perm ((name, value) :: entries) := by
  induction entries with
  | nil => exact .refl _
  | cons entry rest ih =>
    obtain ⟨k, v⟩ := entry
    have hk : name ≠ k := (h (k, v) (List.mem_cons_self ..)).symm
    rw [insert]
    split
    · exact .refl _
    · have hrest := ih fun entry hentry => h entry (List.mem_cons_of_mem _ hentry)
      exact (hrest.cons (k, v)).trans (.swap ..)

/-- Which names there are after storing does not depend on the values. -/
theorem names_insert_congr {entries : List (String × α)} {entries' : List (String × β)}
    (h : names entries' = names entries) (name : String) (value : α) (value' : β) :
    names (insert name value' entries') = names (insert name value entries) := by
  induction entries generalizing entries' with
  | nil =>
    obtain rfl := List.map_eq_nil_iff.mp h
    rfl
  | cons entry rest ih =>
    cases entries' with
    | nil => cases h
    | cons entry' rest' =>
      obtain ⟨k, v⟩ := entry
      obtain ⟨k', v'⟩ := entry'
      obtain ⟨hk, hrest⟩ := List.cons.inj h
      obtain rfl : k' = k := hk
      rw [insert, insert]
      split
      · exact congrArg (name :: k' :: ·) hrest
      · split
        · exact congrArg (name :: ·) hrest
        · exact congrArg (k' :: ·) (ih hrest)

end Entries

namespace Dict

variable {d e : Dict α} {name : String} {value : α}

theorem get?_eq_some_iff : d.get? name = some value ↔ (name, value) ∈ d.toList :=
  Entries.lookup_eq_some_iff d.sorted.nodup_names

theorem nodup_names (d : Dict α) : (d.toList.map Prod.fst).Nodup := d.sorted.nodup_names

theorem isSome_get?_ofList {pairs : List (String × α)} :
    ((ofList pairs).get? name).isSome ↔ name ∈ pairs.map Prod.fst := by
  refine (Entries.isSome_lookup_insertAll []).trans ?_
  simp only [Entries.lookup, Option.isSome_none, Bool.false_eq_true, false_or]

/-- A later pair replaces an earlier one of its name. -/
theorem get?_ofList (pairs : List (String × α)) (name : String) :
    (ofList pairs).get? name = Entries.lookup name pairs.reverse := by
  have hlast := Entries.lookup_insertAll name pairs []
  rwa [Entries.lookup, Option.or_none] at hlast

theorem mem_of_get?_ofList {pairs : List (String × α)} (h : (ofList pairs).get? name = some value) :
    (name, value) ∈ pairs :=
  (Entries.mem_of_lookup_insertAll h).resolve_left nofun

theorem get?_ofList_filter (keep : String → Bool) (pairs : List (String × α)) (name : String) :
    (ofList (pairs.filter fun pair => keep pair.1)).get? name =
      if keep name then (ofList pairs).get? name else none := by
  split
  · rename_i hname
    exact Entries.lookup_insertAll_filter hname rfl
  · rename_i hname
    rw [← Option.not_isSome_iff_eq_none, isSome_get?_ofList]
    intro hmem
    obtain ⟨pair, hpair, rfl⟩ := List.mem_map.mp hmem
    exact hname (List.mem_filter.mp hpair).2

theorem isEmpty_iff : d.isEmpty = true ↔ ∀ name, d.contains name = false := by
  rw [isEmpty, List.isEmpty_iff]
  constructor
  · intro hnil name
    rw [contains, get?, hnil]
    rfl
  · intro hnone
    refine List.eq_nil_iff_forall_not_mem.mpr fun entry hentry => ?_
    have hget : d.get? entry.1 = some entry.2 := get?_eq_some_iff.mpr hentry
    have hcontains := hnone entry.1
    rw [contains, hget] at hcontains
    cases hcontains

theorem mem_names_iff : name ∈ d.names ↔ (d.get? name).isSome := by
  rw [← not_iff_not, Bool.not_eq_true, Option.isSome_eq_false_iff, Option.isNone_iff_eq_none]
  exact Entries.lookup_eq_none_iff.symm

theorem ext_get? (h : ∀ name, d.get? name = e.get? name) : d = e := by
  have hmem : ∀ entry : String × α, entry ∈ d.toList ↔ entry ∈ e.toList := by
    rintro ⟨name, value⟩
    rw [← get?_eq_some_iff, ← get?_eq_some_iff, h]
  have hperm : d.toList.Perm e.toList :=
    (List.perm_ext_iff_of_nodup (List.Nodup.of_map _ d.nodup_names)
      (List.Nodup.of_map _ e.nodup_names)).mpr hmem
  have hasymm : ∀ a b : String × α, a.1 < b.1 → b.1 < a.1 → a = b := fun a b hab hba =>
    absurd (String.lt_trans hab hba) (String.lt_irrefl a.1)
  exact Dict.ext (hperm.eq_of_pairwise (fun a b _ _ => hasymm a b)
    (List.pairwise_map.mp d.sorted) (List.pairwise_map.mp e.sorted))

/-- Storing the entries of a dictionary gives the dictionary, in whatever order they come. -/
theorem ofList_of_perm {pairs : List (String × α)} (h : pairs.Perm d.toList) : ofList pairs = d := by
  refine ext_get? fun name => ?_
  rw [get?_ofList]
  exact Entries.lookup_perm (pairs.reverse_perm.trans h) d.nodup_names name

theorem ofList_toList (d : Dict α) : ofList d.toList = d := ofList_of_perm (.refl _)

/-- Sorted entries come out as they were, in whatever order they are given. -/
theorem ofPairs_of_perm {pairs entries : List (String × α)} (h : pairs.Perm entries)
    (hsorted : Entries.Sorted entries) : Entries.ofPairs pairs = entries := by
  have hdict : ofList pairs = ⟨entries, hsorted⟩ := ofList_of_perm h
  exact congrArg Dict.entries hdict

theorem get?_map (f : String → α → β) : (d.map f).get? name = (d.get? name).map (f name) := by
  refine Option.ext fun value => ?_
  rw [get?_eq_some_iff, Option.map_eq_some_iff]
  constructor
  · intro hmem
    obtain ⟨⟨k, v⟩, hentry, heq⟩ := List.mem_map.mp hmem
    obtain ⟨rfl, rfl⟩ := Prod.mk.inj heq
    exact ⟨v, get?_eq_some_iff.mpr hentry, rfl⟩
  · rintro ⟨v, hv, rfl⟩
    exact List.mem_map.mpr ⟨(name, v), get?_eq_some_iff.mp hv, rfl⟩

theorem get?_filter (p : String → α → Bool) :
    (d.filter p).get? name = (d.get? name).filter (p name) := by
  refine Option.ext fun value => ?_
  rw [get?_eq_some_iff, Option.filter_eq_some_iff, get?_eq_some_iff]
  exact List.mem_filter

theorem names_insert_congr {d' : Dict β} (h : d'.names = d.names) (name : String) (value : α)
    (value' : β) : (d'.insert name value').names = (d.insert name value).names :=
  Entries.names_insert_congr h name value value'

@[simp] theorem toList_empty : (empty : Dict α).toList = [] := rfl

/-- Store pairs in order. -/
def insertAll (d : Dict α) (pairs : List (String × α)) : Dict α :=
  pairs.foldl (fun d pair => d.insert pair.1 pair.2) d

theorem insertAll_append (d : Dict α) (pairs pairs' : List (String × α)) :
    d.insertAll (pairs ++ pairs') = (d.insertAll pairs).insertAll pairs' :=
  List.foldl_append

/-- Pairs under new and distinct names are added, and nothing is replaced. The entries stay sorted
by name, so the new ones come to stand between the old ones: hence a permutation and not an append.
-/
theorem toList_insertAll_perm {pairs : List (String × α)} (hnodup : (pairs.map Prod.fst).Nodup)
    (hnew : ∀ pair ∈ pairs, ∀ entry ∈ d.toList, entry.1 ≠ pair.1) :
    (d.insertAll pairs).toList.Perm (d.toList ++ pairs) := by
  induction pairs generalizing d with
  | nil => rw [List.append_nil]; exact .refl _
  | cons pair rest ih =>
    obtain ⟨hfresh, hrest⟩ := List.nodup_cons.mp hnodup
    have hpair : (d.insert pair.1 pair.2).toList.Perm (pair :: d.toList) :=
      Entries.perm_insert (hnew pair (List.mem_cons_self ..))
    have hstep : ((d.insert pair.1 pair.2).insertAll rest).toList.Perm
        ((d.insert pair.1 pair.2).toList ++ rest) := by
      refine ih hrest fun other hother entry hentry => ?_
      rcases List.mem_cons.mp (hpair.mem_iff.mp hentry) with rfl | hentry
      · intro heq
        exact hfresh (heq ▸ List.mem_map_of_mem hother)
      · exact hnew other (List.mem_cons_of_mem _ hother) entry hentry
    exact hstep.trans ((hpair.append_right rest).trans List.perm_middle.symm)

end Dict

end GraphMapping
