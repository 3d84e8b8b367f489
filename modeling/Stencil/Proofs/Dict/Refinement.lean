import Stencil.Proofs.Dict.History

/-!
Tables and their layouts as names beside a map answer every sequence of requests and
clones as association lists do, and what they list can be read off their histories.
-/

namespace Stencil

universe u

namespace Tables

variable {α : Type u}

def changeTable : Request α → Dict α → Dict α
  | .insert name value, d => d.insert name value
  | .remove name, d => d.erase name
  | .clear, _ => .empty
  | _, d => d

def replyTable : Request α → Dict α → Reply α
  | .insert .., _ | .clear, _ => .done
  | .remove name, d | .get name, d => .found (d.get? name)
  | .contains name, d => .truth (d.contains name)
  | .size, d => .count d.size
  | .isEmpty, d => .truth d.isEmpty
  | .entries, d => .listing d.toList

def changeIndexed : Request α → IndexedTable α → IndexedTable α
  | .insert name value, t => t.insert name value
  | .remove name, t => (t.remove name).2
  | .clear, _ => .empty
  | _, t => t

def replyIndexed : Request α → IndexedTable α → Reply α
  | .insert .., _ | .clear, _ => .done
  | .remove name, t => .found (t.remove name).1
  | .get name, t => .found (t.get? name)
  | .contains name, t => .truth (t.contains name)
  | .size, t => .count t.size
  | .isEmpty, t => .truth t.isEmpty
  | .entries, t => .listing t.toList

theorem lookup_eq_valueIn (pairs : List (String × α)) (name : String) :
    pairs.lookup name = valueIn pairs name := by
  induction pairs with
  | nil => rfl
  | cons pair rest ih =>
    obtain ⟨key, value⟩ := pair
    rw [Dict.lookup_cons_eq, ih, valueIn, valueIn, List.find?_cons]
    by_cases hkey : name = key
    · simp [hkey]
    · simp [hkey, beq_eq_false_iff_ne.mpr (Ne.symm hkey)]

/-- A table answers with the value of the first pair of a name. -/
theorem get?_eq_valueIn (d : Dict α) (name : String) : d.get? name = valueIn d.toList name :=
  lookup_eq_valueIn d.entries name

theorem contains_eq_any (d : Dict α) (name : String) :
    d.contains name = d.toList.any (·.1 == name) := by
  rw [Bool.eq_iff_iff, Dict.contains_iff_mem_keys, any_iff_mem]
  rfl

/-- A name that is bound once has its value replaced where it stands. -/
theorem put_of_mem {name : String} {entries : List (String × α)}
    (hnodup : (entries.map Prod.fst).Nodup) (hname : name ∈ entries.map Prod.fst) (value : α) :
    Dict.put name value entries =
      entries.map fun pair => if pair.1 = name then (name, value) else pair := by
  induction entries with
  | nil => cases hname
  | cons pair rest ih =>
    obtain ⟨key, old⟩ := pair
    obtain ⟨hkey, hrest⟩ := List.nodup_cons.mp hnodup
    by_cases heq : key = name
    · have hlater : (rest.map fun pair => if pair.1 = name then (name, value) else pair) =
          rest.map id := by
        apply List.map_congr_left
        intro pair hpair
        apply if_neg
        intro hname
        apply hkey
        exact List.mem_map.mpr ⟨pair, hpair, hname.trans heq.symm⟩
      rw [Dict.put, if_pos heq, List.map_cons, if_pos heq, hlater, List.map_id, heq]
    · have hmem : name ∈ rest.map Prod.fst := by
        rw [List.map_cons, List.mem_cons] at hname
        exact hname.resolve_left (Ne.symm heq)
      rw [Dict.put, if_neg heq, ih hrest hmem, List.map_cons, if_neg heq]

/-- A request changes the entries of a table as it changes an association list. -/
theorem toList_changeTable (r : Request α) (d : Dict α) :
    (changeTable r d).toList = changePairs r d.toList := by
  cases r with
  | insert name value =>
    rw [changePairs]
    by_cases hname : name ∈ d.toList.map Prod.fst
    · rw [if_pos ((any_iff_mem _ _).mpr hname)]
      exact put_of_mem d.keys_nodup hname value
    · rw [if_neg (mt (any_iff_mem _ _).mp hname)]
      exact Dict.put_of_notMem hname value
  | _ => rfl

/-- A table replies as its entries do. -/
theorem replyTable_eq_replyPairs (r : Request α) (d : Dict α) :
    replyTable r d = replyPairs r d.toList := by
  cases r with
  | remove name => rw [replyTable, replyPairs, get?_eq_valueIn]
  | get name => rw [replyTable, replyPairs, get?_eq_valueIn]
  | contains name => rw [replyTable, replyPairs, contains_eq_any]
  | _ => rfl

/-- A layout serves as the table after any request. -/
theorem lays_change (r : Request α) (t : IndexedTable α) (d : Dict α)
    (h : IndexedTable.Lays t d) : IndexedTable.Lays (changeIndexed r t) (changeTable r d) := by
  cases r with
  | insert name value => exact h.insert name value
  | remove name => exact h.remove_snd name
  | clear => exact IndexedTable.lays_empty
  | _ => exact h

/-- A layout replies as the table does. -/
theorem replyIndexed_eq (r : Request α) (t : IndexedTable α) (d : Dict α)
    (h : IndexedTable.Lays t d) : replyIndexed r t = replyTable r d := by
  cases r with
  | remove name => rw [replyIndexed, replyTable, h.remove_fst]
  | get name => rw [replyIndexed, replyTable, h.get?_eq]
  | contains name => rw [replyIndexed, replyTable, h.contains_eq]
  | size => rw [replyIndexed, replyTable, IndexedTable.size, h.names_eq, Dict.length_keys]
  | isEmpty =>
    rw [replyIndexed, replyTable, IndexedTable.isEmpty, h.names_eq, Dict.keys, List.isEmpty_map,
      Dict.isEmpty]
  | entries => rw [replyIndexed, replyTable, h.toList_eq]
  | _ => rfl

/-- Tables list what their histories leave. -/
theorem lists_run (n : Nat) (commands : List (Command α)) :
    List.Forall₂ (fun d h => Lists h (Dict.toList d))
      (run changeTable (List.replicate n .empty) commands)
      (run (fun r h => h ++ [r]) (List.replicate n []) commands) := by
  apply forall₂_run
  · intro r d h hlists
    rw [toList_changeTable]
    exact hlists.change r
  · apply forall₂_replicate
    exact Lists.nil

/-- Layouts serve as tables that list what the histories leave. -/
theorem lays_run (n : Nat) (commands : List (Command α)) :
    List.Forall₂ (fun t h => ∃ d : Dict α, IndexedTable.Lays t d ∧ Lists h d.toList)
      (run changeIndexed (List.replicate n .empty) commands)
      (run (fun r h => h ++ [r]) (List.replicate n []) commands) := by
  apply forall₂_run
  · rintro r t h ⟨d, hlays, hlists⟩
    refine ⟨changeTable r d, lays_change r t d hlays, ?_⟩
    rw [toList_changeTable]
    exact hlists.change r
  · apply forall₂_replicate
    exact ⟨.empty, IndexedTable.lays_empty, Lists.nil⟩

/-- Any number of empty tables answer all commands as association lists do, and so do
layouts as names beside a map. Afterwards the names of a layout are distinct, they are
the names that its map knows, each is listed once, and the entries are those that the
history of the table leaves; and the same holds of the table. -/
theorem tables_refine_association_lists (n : Nat) (commands : List (Command α)) :
    answers changeTable replyTable (List.replicate n .empty) commands =
        answers changePairs replyPairs (List.replicate n []) commands ∧
      answers changeIndexed replyIndexed (List.replicate n .empty) commands =
        answers changePairs replyPairs (List.replicate n []) commands ∧
      List.Forall₂ (fun d h => d.keys.Nodup ∧ (∀ name, name ∈ d.keys ↔ d.contains name = true) ∧
          d.toList.map Prod.fst = d.keys ∧ Lists h d.toList)
        (run changeTable (List.replicate n .empty) commands)
        (run (fun r h => h ++ [r]) (List.replicate n []) commands) ∧
      List.Forall₂ (fun t h => t.names.Nodup ∧ (∀ name, name ∈ t.names ↔ name ∈ t.map) ∧
          t.toList.map Prod.fst = t.names ∧ Lists h t.toList)
        (run changeIndexed (List.replicate n .empty) commands)
        (run (fun r h => h ++ [r]) (List.replicate n []) commands) := by
  have htables : answers changeTable replyTable (List.replicate n .empty) commands =
      answers changePairs replyPairs (List.replicate n []) commands := by
    have hempty : List.Forall₂ (fun d pairs => Dict.toList d = pairs)
        (List.replicate n (.empty : Dict α)) (List.replicate n []) := by
      apply forall₂_replicate
      rfl
    apply answers_eq _ _ hempty
    · rintro r d _ rfl
      exact toList_changeTable r d
    · rintro r d _ rfl
      exact replyTable_eq_replyPairs r d
  have hlayouts : answers changeIndexed replyIndexed (List.replicate n .empty) commands =
      answers changeTable replyTable (List.replicate n .empty) commands :=
    answers_eq lays_change replyIndexed_eq (forall₂_replicate IndexedTable.lays_empty n) commands
  refine ⟨htables, hlayouts.trans htables, ?_, ?_⟩
  · apply (lists_run n commands).imp
    intro d h hlists
    exact ⟨d.nodup_keys, fun name => (d.contains_iff_mem_keys name).symm, rfl, hlists⟩
  · apply (lays_run n commands).imp
    rintro t h ⟨d, hlays, hlists⟩
    refine ⟨hlays.nodup_names, hlays.mem_names_iff, hlays.map_fst_toList, ?_⟩
    rw [hlays.toList_eq]
    exact hlists

end Tables

end Stencil
