import Mathlib.Tactic.ByContra
import Stencil.Dict

/-!
Tables through look-up. A table is determined by what each name is bound to and
by the order of its names; here is what binding, and binding in turn the pairs of
a list, does to look-ups.
-/

namespace Stencil.Dict

universe u v

variable {α : Type u} {κ : Type v}

theorem lookup_cons_eq [BEq κ] [LawfulBEq κ] [DecidableEq κ] (key name : κ) (value : α)
    (rest : List (κ × α)) :
    ((key, value) :: rest).lookup name = if name = key then some value else rest.lookup name := by
  rw [List.lookup_cons]
  by_cases hname : name = key
  · simp [hname]
  · simp [hname, beq_eq_false_iff_ne.mpr hname]

theorem lookup_put (key : String) (value : α) (entries : List (String × α)) (name : String) :
    (put key value entries).lookup name =
      if name = key then some value else entries.lookup name := by
  induction entries with
  | nil => rw [put, lookup_cons_eq]
  | cons entry rest ih =>
    obtain ⟨k, v⟩ := entry
    by_cases hk : k = key
    · subst hk
      simp only [put, if_true, lookup_cons_eq]
      split <;> rfl
    · simp only [put, hk, if_false, lookup_cons_eq, ih]
      by_cases hname : name = k
      · subst hname
        simp [hk]
      · simp [hname]

/-- After a binding, its key leads to the new value and every other key where it led. -/
theorem get?_insert (d : Dict α) (key : String) (value : α) (name : String) :
    (d.insert key value).get? name = if name = key then some value else d.get? name :=
  lookup_put key value d.entries name

/-- The names are distinct, so an entry is found under its name. -/
theorem mem_toList_iff (d : Dict α) (name : String) (value : α) :
    (name, value) ∈ d.toList ↔ d.get? name = some value := by
  obtain ⟨entries, hnodup⟩ := d
  change (name, value) ∈ entries ↔ entries.lookup name = some value
  induction entries with
  | nil => simp
  | cons entry rest ih =>
    obtain ⟨k, v⟩ := entry
    obtain ⟨hk, hrest⟩ := List.nodup_cons.mp hnodup
    rw [lookup_cons_eq, List.mem_cons, ih hrest]
    by_cases hname : name = k
    · subst hname
      have hnone : rest.lookup name ≠ some value := fun hfound =>
        hk (List.mem_map.mpr ⟨(name, value), (ih hrest).mpr hfound, rfl⟩)
      simp only [Prod.mk.injEq, true_and, hnone, or_false, if_true, Option.some.injEq]
      exact eq_comm
    · simp [hname]

theorem get?_erase_eq_some_iff (d : Dict α) (key name : String) (value : α) :
    (d.erase key).get? name = some value ↔ name ≠ key ∧ d.get? name = some value := by
  rw [← mem_toList_iff, ← mem_toList_iff]
  change (name, value) ∈ d.entries.filter (fun entry => entry.1 != key) ↔ _
  rw [List.mem_filter, bne_iff_ne, and_comm]
  rfl

/-- After a removal its key leads nowhere, and every other one where it led. -/
theorem get?_erase (d : Dict α) (key name : String) :
    (d.erase key).get? name = if name = key then none else d.get? name := by
  apply Option.ext
  intro value
  rw [get?_erase_eq_some_iff]
  by_cases hname : name = key
  · simp [hname]
  · simp [hname]

theorem mem_keys_iff (d : Dict α) (name : String) :
    name ∈ d.keys ↔ ∃ value, d.get? name = some value := by
  simp only [← mem_toList_iff]
  constructor
  · intro hname
    obtain ⟨⟨k, value⟩, hentry, rfl⟩ := List.mem_map.mp hname
    exact ⟨value, hentry⟩
  · rintro ⟨value, hentry⟩
    exact List.mem_map.mpr ⟨(name, value), hentry, rfl⟩

/-- No name is bound twice. -/
theorem nodup_keys (d : Dict α) : d.keys.Nodup := d.keys_nodup

theorem length_keys (d : Dict α) : d.keys.length = d.size := List.length_map _

/-- The names are distinct, so a table without a name less cannot lack a name of
another table of its size. -/
theorem mem_keys_iff_of_subset {d e : Dict α} (hsize : d.size = e.size)
    (hsub : ∀ name, name ∈ d.keys → name ∈ e.keys) (name : String) :
    name ∈ d.keys ↔ name ∈ e.keys := by
  refine ⟨hsub name, ?_⟩
  intro hname
  by_contra habsent
  have hlength : (name :: d.keys).length ≤ e.keys.length := by
    apply List.Nodup.length_le_of_subset (List.nodup_cons.mpr ⟨habsent, d.keys_nodup⟩)
    exact List.cons_subset.mpr ⟨hname, hsub⟩
  rw [List.length_cons, length_keys, length_keys] at hlength
  omega

theorem size_eq_of_mem_keys_iff {d e : Dict α} (h : ∀ name, name ∈ d.keys ↔ name ∈ e.keys) :
    d.size = e.size := by
  rw [← length_keys, ← length_keys]
  apply Nat.le_antisymm
  · exact d.keys_nodup.length_le_of_subset fun name => (h name).mp
  · exact e.keys_nodup.length_le_of_subset fun name => (h name).mpr

theorem put_of_notMem {key : String} {entries : List (String × α)}
    (h : key ∉ entries.map Prod.fst) (value : α) :
    put key value entries = entries ++ [(key, value)] := by
  induction entries with
  | nil => rfl
  | cons entry rest ih =>
    obtain ⟨k, v⟩ := entry
    rw [List.map_cons, List.mem_cons, not_or] at h
    rw [put, if_neg (fun hk : k = key => h.1 hk.symm), ih h.2, List.cons_append]

/-- A name that is bound for the first time comes after the others. -/
theorem keys_prefix_insert (d : Dict α) (key : String) (value : α) :
    d.keys <+: (d.insert key value).keys := by
  unfold keys insert
  rw [keys_put]
  split
  · exact List.prefix_rfl
  · exact List.prefix_append _ _

/-- Names that are there keep their places when more are bound. -/
theorem keys_prefix_insertAll (d : Dict α) (pairs : List (String × α)) :
    d.keys <+: (d.insertAll pairs).keys := by
  induction pairs generalizing d with
  | nil => exact List.prefix_rfl
  | cons pair rest ih => exact (d.keys_prefix_insert pair.1 pair.2).trans (ih _)

/-- Names that are there keep their places. -/
theorem keys_insertAll_of_subset (d : Dict α) {pairs : List (String × α)}
    (h : pairs.map Prod.fst ⊆ d.keys) : (d.insertAll pairs).keys = d.keys := by
  induction pairs generalizing d with
  | nil => rfl
  | cons pair rest ih =>
    obtain ⟨hpair, hrest⟩ := List.cons_subset.mp h
    have hkeys : (d.insert pair.1 pair.2).keys = d.keys := by
      unfold keys insert
      rw [keys_put]
      exact if_pos hpair
    rw [← hkeys] at hrest ⊢
    exact ih _ hrest

theorem get?_insertAll_of_notMem (d : Dict α) {pairs : List (String × α)} {name : String}
    (h : name ∉ pairs.map Prod.fst) : (d.insertAll pairs).get? name = d.get? name := by
  induction pairs generalizing d with
  | nil => rfl
  | cons pair rest ih =>
    rw [List.map_cons, List.mem_cons, not_or] at h
    exact (ih _ h.2).trans (by rw [get?_insert, if_neg h.1])

/-- Among distinct names, each is bound to the value that comes with it. -/
theorem get?_insertAll_of_mem (d : Dict α) {pairs : List (String × α)}
    (hnodup : (pairs.map Prod.fst).Nodup) {name : String} {value : α} (h : (name, value) ∈ pairs) :
    (d.insertAll pairs).get? name = some value := by
  induction pairs generalizing d with
  | nil => cases h
  | cons pair rest ih =>
    obtain ⟨hpair, hrest⟩ := List.nodup_cons.mp hnodup
    rcases List.mem_cons.mp h with rfl | hmem
    · refine (get?_insertAll_of_notMem _ hpair).trans ?_
      rw [get?_insert, if_pos rfl]
    · exact ih _ hrest hmem

/-- New names come last, in their order. -/
theorem toList_insertAll (d : Dict α) {pairs : List (String × α)}
    (h : ((d.toList ++ pairs).map Prod.fst).Nodup) :
    (d.insertAll pairs).toList = d.toList ++ pairs := by
  induction pairs generalizing d with
  | nil => simp [insertAll]
  | cons pair rest ih =>
    obtain ⟨key, value⟩ := pair
    have hkey : key ∉ d.toList.map Prod.fst := by
      rw [List.map_append, List.nodup_append] at h
      intro hmem
      exact h.2.2 key hmem key (by simp) rfl
    have hinsert : (d.insert key value).toList = d.toList ++ [(key, value)] :=
      put_of_notMem hkey value
    have happend : d.toList ++ (key, value) :: rest = (d.insert key value).toList ++ rest := by
      rw [hinsert, List.append_assoc, List.singleton_append]
    rw [happend] at h ⊢
    exact ih (d.insert key value) h

/-- Binding distinct names in turn keeps their order. -/
theorem toList_ofList {pairs : List (String × α)} (h : (pairs.map Prod.fst).Nodup) :
    (ofList pairs).toList = pairs :=
  toList_insertAll empty h

theorem toList_ofList_zip {names : List String} (h : names.Nodup) {values : List α}
    (hlength : values.length = names.length) :
    (ofList (names.zip values)).toList = names.zip values := by
  apply toList_ofList
  rwa [List.map_fst_zip (Nat.le_of_eq hlength.symm)]

/-- A table made of names and values has the names in their order. -/
theorem keys_ofList_zip {names : List String} (h : names.Nodup) {values : List α}
    (hlength : values.length = names.length) : (ofList (names.zip values)).keys = names := by
  change (ofList (names.zip values)).toList.map Prod.fst = names
  rw [toList_ofList_zip h hlength, List.map_fst_zip (Nat.le_of_eq hlength.symm)]

theorem values_ofList_zip {names : List String} (h : names.Nodup) {values : List α}
    (hlength : values.length = names.length) : (ofList (names.zip values)).values = values := by
  change (ofList (names.zip values)).toList.map Prod.snd = values
  rw [toList_ofList_zip h hlength, List.map_snd_zip (Nat.le_of_eq hlength)]

theorem length_values (d : Dict α) : d.values.length = d.keys.length := by
  rw [values, keys, List.length_map, List.length_map]

/-- A table is its names and its values in order. -/
theorem get?_eq_some_iff (d : Dict α) (name : String) (value : α) :
    d.get? name = some value ↔ ∃ i : Nat, d.keys[i]? = some name ∧ d.values[i]? = some value := by
  rw [← mem_toList_iff, List.mem_iff_getElem?]
  simp only [keys, values, toList, List.getElem?_map, Option.map_eq_some_iff]
  constructor
  · rintro ⟨i, hi⟩
    exact ⟨i, ⟨(name, value), hi, rfl⟩, ⟨(name, value), hi, rfl⟩⟩
  · rintro ⟨i, ⟨⟨k, v⟩, hi, rfl⟩, ⟨entry, hi', rfl⟩⟩
    cases hi.symm.trans hi'
    exact ⟨i, hi⟩

/-- In tables with the same names in the same order, a name stands at one place. -/
theorem exists_values_getElem? {d e : Dict α} (hkeys : d.keys = e.keys) {name : String} {x y : α}
    (hd : d.get? name = some x) (he : e.get? name = some y) :
    ∃ i : Nat, d.values[i]? = some x ∧ e.values[i]? = some y := by
  obtain ⟨i, hi, hx⟩ := (get?_eq_some_iff d name x).mp hd
  obtain ⟨j, hj, hy⟩ := (get?_eq_some_iff e name y).mp he
  have hij : i = j := by
    apply (List.getElem?_inj (List.getElem?_eq_some_iff.mp hi).1 d.nodup_keys).mp
    rw [hi, hkeys, hj]
  exact ⟨i, hx, hij ▸ hy⟩

end Stencil.Dict
