import Mathlib.Data.List.Forall2
import Mathlib.Data.List.Induction
import Stencil.Proofs.Dict.Indexed

/-!
What tables answer, told by their history. Tables are numbered and receive commands:
requests, which one table answers, and clones, which make a further table. Association
lists that take no care of their names say what the answers should be, and the tables
answer every sequence of commands as these do, and so do their layouts as names beside
a map. The history of a table is the requests that it has received, a clone taking over
the history of what it was cloned from. What a table lists is read off its history: a
name stands there if it was inserted and not released since, with the value that was
inserted last, and the names stand in the order in which they were inserted when they
were last absent.
-/

namespace Stencil

universe u v w

namespace Tables

inductive Request (α : Type u)
  | insert (name : String) (value : α)
  | remove (name : String)
  | clear
  | get (name : String)
  | contains (name : String)
  | size
  | isEmpty
  | entries

inductive Reply (α : Type u)
  | done
  | found (value : Option α)
  | truth (holds : Bool)
  | count (n : Nat)
  | listing (entries : List (String × α))

/-- Commands name tables by number. -/
inductive Command (α : Type u)
  | request (table : Nat) (r : Request α)
  | clone (table : Nat)

variable {α : Type u} {τ : Type v} {σ : Type w}

def step (change : Request α → τ → τ) (tables : List τ) : Command α → List τ
  | .request i r => tables.modify i (change r)
  | .clone i => tables ++ tables[i]?.toList

def run (change : Request α → τ → τ) (tables : List τ) (commands : List (Command α)) : List τ :=
  commands.foldl (step change) tables

/-- What a command is answered, if there is a table of its number. -/
def answer (reply : Request α → τ → Reply α) (tables : List τ) : Command α → Option (Reply α)
  | .request i r => tables[i]?.map (reply r)
  | .clone i => tables[i]?.map fun _ => .done

def answers (change : Request α → τ → τ) (reply : Request α → τ → Reply α) :
    List τ → List (Command α) → List (Option (Reply α))
  | _, [] => []
  | tables, c :: rest => answer reply tables c :: answers change reply (step change tables c) rest

section Simulation

variable {R : τ → σ → Prop} {change : Request α → τ → τ} {change' : Request α → σ → σ}
  {tables : List τ} {tables' : List σ}

/-- Tables that go together have the same numbers. -/
theorem getElem?_cases (h : List.Forall₂ R tables tables') (i : Nat) :
    (tables[i]? = none ∧ tables'[i]? = none) ∨
      ∃ t t', tables[i]? = some t ∧ tables'[i]? = some t' ∧ R t t' := by
  induction h generalizing i with
  | nil => exact Or.inl ⟨rfl, rfl⟩
  | cons hhead htail ih =>
    cases i with
    | zero => exact Or.inr ⟨_, _, rfl, rfl, hhead⟩
    | succ i => simpa using ih i

theorem forall₂_modify {f : τ → τ} {g : σ → σ} (hfg : ∀ t t', R t t' → R (f t) (g t'))
    (h : List.Forall₂ R tables tables') (i : Nat) :
    List.Forall₂ R (tables.modify i f) (tables'.modify i g) := by
  induction h generalizing i with
  | nil => simp
  | cons hhead htail ih =>
    cases i with
    | zero => simpa using ⟨hfg _ _ hhead, htail⟩
    | succ i => simpa using ⟨hhead, ih i⟩

/-- A command keeps what every request keeps. -/
theorem forall₂_step (hchange : ∀ r t t', R t t' → R (change r t) (change' r t'))
    (h : List.Forall₂ R tables tables') (c : Command α) :
    List.Forall₂ R (step change tables c) (step change' tables' c) := by
  cases c with
  | request i r => exact forall₂_modify (hchange r) h i
  | clone i =>
    simp only [step]
    apply List.rel_append h
    rcases getElem?_cases h i with ⟨hnone, hnone'⟩ | ⟨t, t', hsome, hsome', hrel⟩
    · rw [hnone, hnone']
      exact .nil
    · rw [hsome, hsome']
      exact .cons hrel .nil

/-- What every request keeps holds of all tables after any commands. -/
theorem forall₂_run (hchange : ∀ r t t', R t t' → R (change r t) (change' r t'))
    (h : List.Forall₂ R tables tables') (commands : List (Command α)) :
    List.Forall₂ R (run change tables commands) (run change' tables' commands) := by
  induction commands generalizing tables tables' with
  | nil => exact h
  | cons c rest ih => exact ih (forall₂_step hchange h c)

theorem answer_eq {reply : Request α → τ → Reply α} {reply' : Request α → σ → Reply α}
    (hreply : ∀ r t t', R t t' → reply r t = reply' r t')
    (h : List.Forall₂ R tables tables') (c : Command α) :
    answer reply tables c = answer reply' tables' c := by
  cases c with
  | request i r =>
    rcases getElem?_cases h i with ⟨hnone, hnone'⟩ | ⟨t, t', hsome, hsome', hrel⟩
    · simp only [answer, hnone, hnone', Option.map_none]
    · simp only [answer, hsome, hsome', Option.map_some, hreply r t t' hrel]
  | clone i =>
    rcases getElem?_cases h i with ⟨hnone, hnone'⟩ | ⟨t, t', hsome, hsome', hrel⟩
    · simp only [answer, hnone, hnone', Option.map_none]
    · simp only [answer, hsome, hsome', Option.map_some]

/-- Tables that are kept alike and reply alike give the same answers to any commands. -/
theorem answers_eq {reply : Request α → τ → Reply α} {reply' : Request α → σ → Reply α}
    (hchange : ∀ r t t', R t t' → R (change r t) (change' r t'))
    (hreply : ∀ r t t', R t t' → reply r t = reply' r t')
    (h : List.Forall₂ R tables tables') (commands : List (Command α)) :
    answers change reply tables commands = answers change' reply' tables' commands := by
  induction commands generalizing tables tables' with
  | nil => rfl
  | cons c rest ih =>
    rw [answers, answers, answer_eq hreply h c, ih (forall₂_step hchange h c)]

theorem forall₂_replicate {t : τ} {t' : σ} (h : R t t') (n : Nat) :
    List.Forall₂ R (List.replicate n t) (List.replicate n t') := by
  induction n with
  | zero => exact .nil
  | succ n ih => exact .cons h ih

end Simulation

/-! Association lists. -/

def valueIn (pairs : List (String × α)) (name : String) : Option α :=
  (pairs.find? (·.1 == name)).map Prod.snd

def changePairs : Request α → List (String × α) → List (String × α)
  | .insert name value, pairs =>
    if pairs.any (·.1 == name) then
      pairs.map fun pair => if pair.1 = name then (name, value) else pair
    else pairs ++ [(name, value)]
  | .remove name, pairs => pairs.filter (·.1 != name)
  | .clear, _ => []
  | _, pairs => pairs

def replyPairs : Request α → List (String × α) → Reply α
  | .insert .., _ | .clear, _ => .done
  | .remove name, pairs | .get name, pairs => .found (valueIn pairs name)
  | .contains name, pairs => .truth (pairs.any (·.1 == name))
  | .size, pairs => .count pairs.length
  | .isEmpty, pairs => .truth pairs.isEmpty
  | .entries, pairs => .listing pairs

theorem any_iff_mem (pairs : List (String × α)) (name : String) :
    pairs.any (·.1 == name) = true ↔ name ∈ pairs.map Prod.fst := by
  rw [List.any_eq_true, List.mem_map]
  simp only [beq_iff_eq]

/-! Histories. -/

namespace Request

def inserts (name : String) : Request α → Bool
  | .insert key _ => key == name
  | _ => false

def releases (name : String) : Request α → Bool
  | .remove key => key == name
  | .clear => true
  | _ => false

end Request

variable {h : List (Request α)} {r : Request α} {name : String} {value : α} {i : Nat}

/-- Whenever the name was inserted, it was released later. -/
def Absent (h : List (Request α)) (name : String) : Prop :=
  ∀ before value after, h = before ++ .insert name value :: after →
    ∃ r ∈ after, r.releases name = true

/-- The value is the last that was inserted under the name, which was not released since. -/
def LastInserted (h : List (Request α)) (name : String) (value : α) : Prop :=
  ∃ before after, h = before ++ .insert name value :: after ∧
    ∀ r ∈ after, r.inserts name = false ∧ r.releases name = false

/-- The request of this number inserted the name when it was last absent. -/
def BoundAt (h : List (Request α)) (name : String) (i : Nat) : Prop :=
  ∃ before value after, h = before ++ .insert name value :: after ∧ before.length = i ∧
    Absent before name ∧ ∀ r ∈ after, r.releases name = false

/-- The entries are those that the history leaves, in the order of their binding. -/
structure Lists (h : List (Request α)) (entries : List (String × α)) : Prop where
  nodup : (entries.map Prod.fst).Nodup
  mem_iff : ∀ name value, (name, value) ∈ entries ↔ LastInserted h name value
  ordered : ∃ places : List Nat, places.Pairwise (· < ·) ∧
    List.Forall₂ (BoundAt h) (entries.map Prod.fst) places

section Concat

theorem concat_eq_append_cons_iff {β : Type u} {items before after : List β} {last x : β} :
    items ++ [last] = before ++ x :: after ↔
      (after = [] ∧ before = items ∧ x = last) ∨
        ∃ after', after = after' ++ [last] ∧ items = before ++ x :: after' := by
  constructor
  · intro heq
    rcases List.eq_nil_or_concat' after with rfl | ⟨init, final, rfl⟩
    · obtain ⟨hitems, hlast⟩ := List.append_inj' heq rfl
      obtain rfl : last = x := by simpa using hlast
      exact Or.inl ⟨rfl, hitems.symm, rfl⟩
    · have hends : items ++ [last] = (before ++ x :: init) ++ [final] := by simpa using heq
      obtain ⟨hitems, hlast⟩ := List.append_inj' hends rfl
      obtain rfl : last = final := by simpa using hlast
      exact Or.inr ⟨init, rfl, hitems⟩
  · rintro (⟨rfl, rfl, rfl⟩ | ⟨after', rfl, rfl⟩)
    · rfl
    · simp

/-- A request inserts a name only in binding it. -/
theorem inserts_eq_true_iff : r.inserts name = true ↔ ∃ value, r = .insert name value := by
  cases r with
  | insert key value => simp [Request.inserts]
  | _ => simp [Request.inserts]

theorem absent_nil : Absent ([] : List (Request α)) name := by
  intro before value after heq
  simp at heq

/-- A name is absent after a request that releases it, or if it was absent before one that does
not insert it. -/
theorem absent_concat :
    Absent (h ++ [r]) name ↔
      r.releases name = true ∨ (r.inserts name = false ∧ Absent h name) := by
  constructor
  · intro habsent
    by_cases hreleases : r.releases name = true
    · exact Or.inl hreleases
    · refine Or.inr ⟨?_, ?_⟩
      · rw [Bool.eq_false_iff]
        intro hinserts
        obtain ⟨value, rfl⟩ := inserts_eq_true_iff.mp hinserts
        obtain ⟨_, hmem, _⟩ := habsent h value [] rfl
        cases hmem
      · intro before value after heq
        obtain ⟨s, hmem, hs⟩ := habsent before value (after ++ [r]) (by simp [heq])
        rcases List.mem_append.mp hmem with hafter | hlast
        · exact ⟨s, hafter, hs⟩
        · rw [List.mem_singleton.mp hlast] at hs
          exact absurd hs hreleases
  · intro hcase before value after heq
    rcases concat_eq_append_cons_iff.mp heq with ⟨rfl, rfl, rfl⟩ | ⟨after', rfl, hbefore⟩
    · simp [Request.inserts, Request.releases] at hcase
    · rcases hcase with hreleases | ⟨-, habsent⟩
      · exact ⟨r, by simp, hreleases⟩
      · obtain ⟨s, hmem, hs⟩ := habsent before value after' hbefore
        exact ⟨s, by simp [hmem], hs⟩

/-- The value inserted last is that of the last request, or the old one if the request is about
other names. -/
theorem lastInserted_concat :
    LastInserted (h ++ [r]) name value ↔ r = .insert name value ∨
      (r.inserts name = false ∧ r.releases name = false ∧ LastInserted h name value) := by
  constructor
  · rintro ⟨before, after, heq, hafter⟩
    rcases concat_eq_append_cons_iff.mp heq with ⟨rfl, rfl, rfl⟩ | ⟨after', rfl, hbefore⟩
    · exact Or.inl rfl
    · have hlast := hafter r (by simp)
      exact Or.inr ⟨hlast.1, hlast.2, before, after', hbefore, fun s hs => hafter s (by simp [hs])⟩
  · rintro (rfl | ⟨hinserts, hreleases, before, after, rfl, hafter⟩)
    · exact ⟨h, [], rfl, by simp⟩
    · refine ⟨before, after ++ [r], by simp, ?_⟩
      intro s hs
      rcases List.mem_append.mp hs with hmem | hlast
      · exact hafter s hmem
      · rw [List.mem_singleton.mp hlast]
        exact ⟨hinserts, hreleases⟩

/-- A name that is there keeps the place at which it was bound; one that was absent is bound by
the last request. -/
theorem boundAt_concat :
    BoundAt (h ++ [r]) name i ↔ (r.releases name = false ∧ BoundAt h name i) ∨
      (r.inserts name = true ∧ Absent h name ∧ i = h.length) := by
  constructor
  · rintro ⟨before, value, after, heq, hlength, habsent, hafter⟩
    rcases concat_eq_append_cons_iff.mp heq with ⟨rfl, rfl, rfl⟩ | ⟨after', rfl, hbefore⟩
    · exact Or.inr ⟨by simp [Request.inserts], habsent, hlength.symm⟩
    · refine Or.inl ⟨hafter r (by simp), before, value, after', hbefore, hlength, habsent, ?_⟩
      exact fun s hs => hafter s (by simp [hs])
  · rintro (⟨hreleases, before, value, after, rfl, hlength, habsent, hafter⟩ |
      ⟨hinserts, habsent, rfl⟩)
    · refine ⟨before, value, after ++ [r], by simp, hlength, habsent, ?_⟩
      intro s hs
      rcases List.mem_append.mp hs with hmem | hlast
      · exact hafter s hmem
      · rwa [List.mem_singleton.mp hlast]
    · obtain ⟨value, rfl⟩ := inserts_eq_true_iff.mp hinserts
      exact ⟨h, value, [], rfl, rfl, habsent, by simp⟩

/-- A name was bound by a request of the history. -/
theorem BoundAt.lt_length (hbound : BoundAt h name i) : i < h.length := by
  obtain ⟨before, value, after, rfl, rfl, -, -⟩ := hbound
  simp

/-- A name is absent when no value was inserted last under it. -/
theorem absent_iff : Absent h name ↔ ∀ value, ¬ LastInserted h name value := by
  induction h using List.reverseRecOn with
  | nil => simp [absent_nil, LastInserted]
  | append_singleton h r ih =>
    rw [absent_concat]
    constructor
    · intro habsent value hlast
      rcases lastInserted_concat.mp hlast with rfl | ⟨-, hreleases, hbefore⟩
      · simp [Request.inserts, Request.releases] at habsent
      · rcases habsent with htrue | ⟨-, habsent⟩
        · rw [hreleases] at htrue
          cases htrue
        · exact ih.mp habsent value hbefore
    · intro hnone
      by_cases hreleases : r.releases name = true
      · exact Or.inl hreleases
      · have hinserts : r.inserts name = false := by
          rw [Bool.eq_false_iff]
          intro hinserts
          obtain ⟨value, hinsert⟩ := inserts_eq_true_iff.mp hinserts
          exact hnone value (lastInserted_concat.mpr (Or.inl hinsert))
        refine Or.inr ⟨hinserts, ih.mpr ?_⟩
        intro value hlast
        apply hnone value
        apply lastInserted_concat.mpr
        exact Or.inr ⟨hinserts, Bool.eq_false_iff.mpr hreleases, hlast⟩

end Concat

namespace Lists

variable {entries : List (String × α)}

theorem nil : Lists ([] : List (Request α)) [] := by
  refine ⟨List.nodup_nil, ?_, [], List.Pairwise.nil, .nil⟩
  intro name value
  simp [LastInserted]

/-- The names that are listed are those that are not absent. -/
theorem mem_names_iff (hlists : Lists h entries) (name : String) :
    name ∈ entries.map Prod.fst ↔ ¬ Absent h name := by
  rw [absent_iff, List.mem_map]
  simp only [not_forall, not_not, ← hlists.mem_iff]
  constructor
  · rintro ⟨⟨key, value⟩, hmem, rfl⟩
    exact ⟨value, hmem⟩
  · rintro ⟨value, hmem⟩
    exact ⟨(name, value), hmem, rfl⟩

/-- Requests that neither insert nor release leave what is listed. -/
theorem keep (hlists : Lists h entries) (hinserts : ∀ name, r.inserts name = false)
    (hreleases : ∀ name, r.releases name = false) : Lists (h ++ [r]) entries := by
  obtain ⟨hnodup, hmem, places, hincreasing, hplaces⟩ := hlists
  refine ⟨hnodup, ?_, places, hincreasing, ?_⟩
  · intro name value
    have hinsert : r ≠ .insert name value := by
      rintro rfl
      simpa [Request.inserts] using hinserts name
    rw [lastInserted_concat, hmem]
    simp [hinsert, hinserts name, hreleases name]
  · apply hplaces.imp
    intro name place hbound
    exact boundAt_concat.mpr (Or.inl ⟨hreleases name, hbound⟩)

theorem places_lt {names : List String} {places : List Nat}
    (hplaces : List.Forall₂ (BoundAt h) names places) : ∀ place ∈ places, place < h.length := by
  induction hplaces with
  | nil => simp
  | cons hhead _ ih =>
    rw [List.forall_mem_cons]
    exact ⟨hhead.lt_length, ih⟩

/-- The name keeps the place at which it was bound; only its value is the new one. -/
theorem insert_present (hlists : Lists h entries) (hpresent : name ∈ entries.map Prod.fst) :
    Lists (h ++ [.insert name value])
      (entries.map fun pair => if pair.1 = name then (name, value) else pair) := by
  obtain ⟨hnodup, hmem, places, hincreasing, hplaces⟩ := hlists
  have hnames : (entries.map fun pair => if pair.1 = name then (name, value) else pair).map
      Prod.fst = entries.map Prod.fst := by
    rw [List.map_map]
    apply List.map_congr_left
    intro pair _
    by_cases heq : pair.1 = name
    · simp [heq]
    · simp [heq]
  refine ⟨hnames ▸ hnodup, ?_, places, hincreasing, ?_⟩
  · intro key found
    rw [lastInserted_concat, ← hmem, List.mem_map]
    by_cases hkey : key = name
    · subst hkey
      simp only [Request.inserts, beq_self_eq_true, Bool.true_eq_false, false_and, or_false]
      constructor
      · rintro ⟨pair, -, heq⟩
        by_cases hpair : pair.1 = key
        · rw [if_pos hpair, Prod.mk.injEq] at heq
          rw [heq.2]
        · rw [if_neg hpair] at heq
          exact absurd (by rw [heq]) hpair
      · intro hinsert
        obtain ⟨pair, hpair, hname⟩ := List.mem_map.mp hpresent
        refine ⟨pair, hpair, ?_⟩
        rw [if_pos hname, Request.insert.inj hinsert |>.2]
    · have hinsert : Request.insert name value ≠ .insert key found := by
        intro hinsert
        exact hkey (Request.insert.inj hinsert).1.symm
      simp only [Request.inserts, beq_eq_false_iff_ne.mpr (Ne.symm hkey), Request.releases,
        hinsert, false_or, true_and]
      constructor
      · rintro ⟨pair, hpair, heq⟩
        by_cases hname : pair.1 = name
        · rw [if_pos hname, Prod.mk.injEq] at heq
          exact absurd heq.1.symm hkey
        · rw [if_neg hname] at heq
          exact heq ▸ hpair
      · intro hpair
        exact ⟨(key, found), hpair, if_neg hkey⟩
  · rw [hnames]
    apply hplaces.imp
    intro key place hbound
    exact boundAt_concat.mpr (Or.inl ⟨rfl, hbound⟩)

/-- An absent name is bound last. -/
theorem insert_absent (hlists : Lists h entries) (hname : name ∉ entries.map Prod.fst) :
    Lists (h ++ [.insert name value]) (entries ++ [(name, value)]) := by
  have habsent : Absent h name := by
    rw [hlists.mem_names_iff, not_not] at hname
    exact hname
  obtain ⟨hnodup, hmem, places, hincreasing, hplaces⟩ := hlists
  refine ⟨?_, ?_, places ++ [h.length], ?_, ?_⟩
  · rw [List.map_append, List.nodup_append]
    refine ⟨hnodup, by simp, ?_⟩
    intro key hkey last hlast heq
    rw [List.map_singleton, List.mem_singleton] at hlast
    rw [heq, hlast] at hkey
    exact hname hkey
  · intro key found
    rw [lastInserted_concat, ← hmem, List.mem_append, List.mem_singleton]
    by_cases hkey : key = name
    · subst hkey
      have hbefore : (key, found) ∉ entries := fun hpair =>
        hname (List.mem_map.mpr ⟨_, hpair, rfl⟩)
      simp only [Prod.mk.injEq, true_and, hbefore, false_or, Request.insert.injEq,
        Request.inserts, beq_self_eq_true, Bool.true_eq_false, false_and, or_false]
      exact eq_comm
    · simp [hkey, Ne.symm hkey, Request.inserts, Request.releases]
  · rw [List.pairwise_append]
    refine ⟨hincreasing, List.pairwise_singleton _ _, ?_⟩
    intro place hplace last hlast
    rw [List.mem_singleton.mp hlast]
    exact places_lt hplaces place hplace
  · rw [List.map_append]
    apply List.rel_append
    · apply hplaces.imp
      intro key place hbound
      exact boundAt_concat.mpr (Or.inl ⟨rfl, hbound⟩)
    · have hbound : BoundAt (h ++ [.insert name value]) name h.length :=
        boundAt_concat.mpr (Or.inr ⟨by simp [Request.inserts], habsent, rfl⟩)
      exact .cons hbound .nil

theorem forall₂_filter {β : Type v} {γ : Type w} {R : β → γ → Prop} {xs : List β} {ys : List γ}
    (p : β → Bool) (h : List.Forall₂ R xs ys) :
    ∃ zs, zs.Sublist ys ∧ List.Forall₂ (fun x z => R x z ∧ p x = true) (xs.filter p) zs := by
  induction h with
  | nil => exact ⟨[], List.Sublist.refl _, .nil⟩
  | @cons x y _ _ hhead _ ih =>
    obtain ⟨zs, hsub, hrel⟩ := ih
    by_cases hx : p x = true
    · refine ⟨y :: zs, hsub.cons_cons y, ?_⟩
      rw [List.filter_cons_of_pos hx]
      exact .cons ⟨hhead, hx⟩ hrel
    · refine ⟨zs, hsub.cons y, ?_⟩
      rwa [List.filter_cons_of_neg hx]

/-- What was bound before and after the removed name keeps its order. -/
theorem remove (hlists : Lists h entries) (name : String) :
    Lists (h ++ [.remove name]) (entries.filter (·.1 != name)) := by
  have hnames : (entries.filter (·.1 != name)).map Prod.fst =
      (entries.map Prod.fst).filter (· != name) := by
    rw [List.filter_map]
    rfl
  obtain ⟨hnodup, hmem, places, hincreasing, hplaces⟩ := hlists
  obtain ⟨places', hsub, hplaces'⟩ := forall₂_filter (· != name) hplaces
  refine ⟨?_, ?_, places', hincreasing.sublist hsub, ?_⟩
  · rw [hnames]
    exact hnodup.filter _
  · intro key found
    rw [lastInserted_concat, ← hmem, List.mem_filter]
    simp only [reduceCtorEq, false_or, Request.inserts, Request.releases, true_and, bne_iff_ne,
      beq_eq_false_iff_ne, ne_comm (a := key), and_comm]
  · rw [hnames]
    apply hplaces'.imp
    rintro key place ⟨hbound, hkey⟩
    have hreleases : (Request.remove name : Request α).releases key = false := by
      rw [Request.releases, beq_eq_false_iff_ne]
      exact (bne_iff_ne.mp hkey).symm
    exact boundAt_concat.mpr (Or.inl ⟨hreleases, hbound⟩)

/-- Nothing is listed after everything has been removed. -/
theorem clear : Lists (h ++ [.clear]) [] := by
  refine ⟨List.nodup_nil, ?_, [], List.Pairwise.nil, .nil⟩
  intro name value
  rw [lastInserted_concat]
  simp [Request.releases]

/-- Association lists list what their history leaves. -/
theorem change (hlists : Lists h entries) (r : Request α) :
    Lists (h ++ [r]) (changePairs r entries) := by
  cases r with
  | insert name value =>
    rw [changePairs]
    by_cases hpresent : name ∈ entries.map Prod.fst
    · rw [if_pos ((any_iff_mem entries name).mpr hpresent)]
      exact hlists.insert_present hpresent
    · rw [if_neg (mt (any_iff_mem entries name).mp hpresent)]
      exact hlists.insert_absent hpresent
  | remove name => exact hlists.remove name
  | clear => exact clear
  | get name => exact hlists.keep (fun _ => rfl) (fun _ => rfl)
  | contains name => exact hlists.keep (fun _ => rfl) (fun _ => rfl)
  | size => exact hlists.keep (fun _ => rfl) (fun _ => rfl)
  | isEmpty => exact hlists.keep (fun _ => rfl) (fun _ => rfl)
  | entries => exact hlists.keep (fun _ => rfl) (fun _ => rfl)

end Lists

end Tables

end Stencil
