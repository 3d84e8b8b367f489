import Mathlib.Data.List.Basic
import Stencil.Proofs.Dict

/-!
Tables laid out as names beside a map. The names stand in the order in which they
were bound, and the map, which knows no order, holds the values. The two halves are
changed by separate steps, so a name could stand in one of them only; the entries are
listed by the names, and a name that the map lacked would be passed over. A layout
that serves as a table is in step with it: it has the names of the table in their
order, and its map finds what the table finds.
-/

namespace Stencil

universe u

structure IndexedTable (α : Type u) where
  names : List String
  map : Std.HashMap String α

namespace IndexedTable

variable {α : Type u}

def empty : IndexedTable α := ⟨[], ∅⟩

def get? (t : IndexedTable α) (name : String) : Option α := t.map[name]?

def contains (t : IndexedTable α) (name : String) : Bool := t.map.contains name

def insert (t : IndexedTable α) (name : String) (value : α) : IndexedTable α :=
  ⟨if t.map.contains name then t.names else t.names ++ [name], t.map.insert name value⟩

def remove (t : IndexedTable α) (name : String) : Option α × IndexedTable α :=
  match t.map[name]? with
  | none => (none, t)
  | some value => (some value, ⟨t.names.filter (· != name), t.map.erase name⟩)

def size (t : IndexedTable α) : Nat := t.names.length

def isEmpty (t : IndexedTable α) : Bool := t.names.isEmpty

def toList (t : IndexedTable α) : List (String × α) :=
  t.names.filterMap fun name => t.map[name]?.map (name, ·)

end IndexedTable

namespace Dict

variable {α : Type u}

/-- A name is written down when it is bound for the first time. -/
theorem keys_insert (d : Dict α) (name : String) (value : α) :
    (d.insert name value).keys = if name ∈ d.keys then d.keys else d.keys ++ [name] :=
  keys_put name value d.entries

/-- The names that are left keep their order. -/
theorem keys_erase (d : Dict α) (name : String) :
    (d.erase name).keys = d.keys.filter (· != name) := by
  have hfilter := List.filter_map (f := Prod.fst) (p := (· != name)) (l := d.entries)
  exact hfilter.symm

/-- The names lead back to the entries. -/
theorem filterMap_keys (d : Dict α) :
    d.keys.filterMap (fun name => (d.get? name).map (name, ·)) = d.toList := by
  have hentry : ∀ entry ∈ d.toList,
      ((fun name => (d.get? name).map (name, ·)) ∘ Prod.fst) entry = some entry := by
    intro entry hmem
    have hfound : d.get? entry.1 = some entry.2 := (mem_toList_iff d entry.1 entry.2).mp hmem
    simp [hfound]
  have hkeys : d.keys = d.toList.map Prod.fst := rfl
  rw [hkeys, List.filterMap_map, List.filterMap_congr hentry]
  exact List.filterMap_some

theorem contains_iff_mem_keys (d : Dict α) (name : String) :
    d.contains name = true ↔ name ∈ d.keys := by
  rw [mem_keys_iff, contains, Option.isSome_iff_exists]

end Dict

namespace IndexedTable

variable {α : Type u}

/-- The layout serves as the table. -/
structure Lays (t : IndexedTable α) (d : Dict α) : Prop where
  names_eq : t.names = d.keys
  get?_eq : ∀ name, t.get? name = d.get? name

theorem lays_empty : Lays (empty : IndexedTable α) .empty := by
  refine ⟨rfl, ?_⟩
  intro name
  simp [get?, empty, Dict.get?, Dict.empty]

namespace Lays

variable {t : IndexedTable α} {d : Dict α}

theorem contains_eq (h : Lays t d) (name : String) : t.contains name = d.contains name := by
  have hfound := h.get?_eq name
  rw [get?] at hfound
  rw [contains, Std.HashMap.contains_eq_isSome_getElem?, hfound, Dict.contains]

/-- The map knows exactly the names. -/
theorem mem_names_iff (h : Lays t d) (name : String) : name ∈ t.names ↔ name ∈ t.map := by
  have hcontains := h.contains_eq name
  rw [contains] at hcontains
  rw [h.names_eq, ← Dict.contains_iff_mem_keys, ← hcontains, Std.HashMap.mem_iff_contains]

theorem nodup_names (h : Lays t d) : t.names.Nodup := by
  rw [h.names_eq]
  exact d.nodup_keys

/-- The layout lists the entries of the table in their order. -/
theorem toList_eq (h : Lays t d) : t.toList = d.toList := by
  have hlookup : (fun name => t.map[name]?.map (name, ·)) =
      fun name => (d.get? name).map (name, ·) := by
    funext name
    have hfound : t.map[name]? = d.get? name := h.get?_eq name
    rw [hfound]
  rw [toList, hlookup, h.names_eq, Dict.filterMap_keys]

/-- No name is passed over when the entries are listed. -/
theorem map_fst_toList (h : Lays t d) : t.toList.map Prod.fst = t.names := by
  rw [h.toList_eq, h.names_eq]
  rfl

/-- A binding in the layout serves as one in the table. -/
theorem insert (h : Lays t d) (name : String) (value : α) :
    Lays (t.insert name value) (d.insert name value) := by
  constructor
  · have hknown := h.contains_eq name
    rw [contains] at hknown
    rw [IndexedTable.insert, Dict.keys_insert, ← h.names_eq]
    by_cases hmem : name ∈ t.names
    · have hcontains : d.contains name = true := by
        rw [Dict.contains_iff_mem_keys, ← h.names_eq]
        exact hmem
      simp [hknown, hcontains, hmem]
    · have hcontains : d.contains name = false := by
        rw [Bool.eq_false_iff, Ne, Dict.contains_iff_mem_keys, ← h.names_eq]
        exact hmem
      simp [hknown, hcontains, hmem]
  · intro wanted
    have hfound := h.get?_eq wanted
    rw [get?] at hfound
    rw [get?, IndexedTable.insert, Dict.get?_insert, Std.HashMap.getElem?_insert, hfound]
    by_cases heq : wanted = name
    · simp [heq]
    · simp [heq, Ne.symm heq]

/-- The value that is handed back is the one that was bound. -/
theorem remove_fst (h : Lays t d) (name : String) : (t.remove name).1 = d.get? name := by
  rw [← h.get?_eq, get?, IndexedTable.remove]
  cases t.map[name]? with
  | none => rfl
  | some value => rfl

/-- A removal in the layout serves as one in the table. A name that was not bound leaves the
layout as it is. -/
theorem remove_snd (h : Lays t d) (name : String) : Lays (t.remove name).2 (d.erase name) := by
  have hfound := h.get?_eq name
  rw [get?] at hfound
  cases hvalue : t.map[name]? with
  | none =>
    have hunbound : d.get? name = none := by rw [← hfound, hvalue]
    have habsent : name ∉ d.keys := by
      rw [Dict.mem_keys_iff]
      rintro ⟨value, hsome⟩
      rw [hunbound] at hsome
      cases hsome
    constructor
    · have hfilter : d.keys.filter (· != name) = d.keys := by
        apply List.filter_eq_self.mpr
        intro key hkey
        have hne : key ≠ name := fun heq => habsent (heq ▸ hkey)
        simpa using hne
      simp only [IndexedTable.remove, hvalue]
      rw [h.names_eq, Dict.keys_erase, hfilter]
    · intro wanted
      simp only [IndexedTable.remove, hvalue]
      rw [h.get?_eq, Dict.get?_erase]
      by_cases heq : wanted = name
      · rw [if_pos heq, heq, hunbound]
      · rw [if_neg heq]
  | some value =>
    constructor
    · simp only [IndexedTable.remove, hvalue]
      rw [h.names_eq, Dict.keys_erase]
    · intro wanted
      have hwanted := h.get?_eq wanted
      rw [get?] at hwanted
      simp only [get?, IndexedTable.remove, hvalue]
      rw [Dict.get?_erase, Std.HashMap.getElem?_erase, hwanted]
      by_cases heq : wanted = name
      · simp [heq]
      · simp [heq, Ne.symm heq]

end Lays

end IndexedTable

end Stencil
