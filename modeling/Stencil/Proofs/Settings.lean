import Mathlib.Data.List.Basic
import Stencil.Settings

/-!
The lines of a settings text. What a line gives does not depend on the settings it is
applied to, so a text divides at each of its line ends: its parts are applied one after the
other, and only the numbers of the reported lines depend on what stands before. A setting
ends as the last line says that gives it, and a line that is reported gives none.
-/

namespace Stencil

namespace Text

variable {mark c : Char} {piece cs : List Char}

theorem piecesFrom_mark (mark : Char) (piece rest : List Char) :
    piecesFrom [mark] piece 0 (mark :: rest) = piece.reverse :: piecesFrom [mark] [] 0 rest := by
  simp [piecesFrom]

theorem piecesFrom_of_ne (hc : c ≠ mark) (piece rest : List Char) :
    piecesFrom [mark] piece 0 (c :: rest) = piecesFrom [mark] (c :: piece) 0 rest := by
  simp [piecesFrom, List.isPrefixOf, hc.symm]

/-- A separator of one character ends the pieces before it. -/
theorem piecesFrom_append (mark : Char) (piece cs rest : List Char) :
    piecesFrom [mark] piece 0 (cs ++ mark :: rest) =
      piecesFrom [mark] piece 0 cs ++ piecesFrom [mark] [] 0 rest := by
  induction cs generalizing piece with
  | nil => exact piecesFrom_mark mark piece rest
  | cons c cs ih =>
    rw [List.cons_append]
    by_cases hc : c = mark
    · rw [hc, piecesFrom_mark, piecesFrom_mark, ih, List.cons_append]
    · rw [piecesFrom_of_ne hc, piecesFrom_of_ne hc, ih]

/-- There is one more piece than there are separators. -/
theorem length_piecesFrom (mark : Char) (piece cs : List Char) :
    (piecesFrom [mark] piece 0 cs).length = cs.count mark + 1 := by
  induction cs generalizing piece with
  | nil => rfl
  | cons c cs ih =>
    by_cases hc : c = mark
    · rw [hc, piecesFrom_mark, List.length_cons, ih, List.count_cons_self]
    · rw [piecesFrom_of_ne hc, ih, List.count_cons_of_ne hc]

theorem cutAt?_cons (mark c : Char) (rest : List Char) :
    cutAt? mark (c :: rest) =
      if c = mark then some ([], rest)
      else (cutAt? mark rest).map fun cut => (c :: cut.1, cut.2) := by
  unfold cutAt?
  by_cases hc : c = mark
  · simp [hc]
  · simp only [hc, bne_iff_ne, ne_eq, not_false_eq_true, List.dropWhile_cons_of_pos,
      List.takeWhile_cons_of_pos, if_false]
    cases rest.dropWhile (· != mark) with
    | nil => rfl
    | cons => rfl

/-- A text is divided at its first mark. -/
theorem cutAt?_eq_some_iff {before after : List Char} :
    cutAt? mark cs = some (before, after) ↔ cs = before ++ mark :: after ∧ mark ∉ before := by
  induction cs generalizing before with
  | nil => simp [cutAt?]
  | cons c rest ih =>
    rw [cutAt?_cons]
    by_cases hc : c = mark
    · rw [if_pos hc, hc]
      cases before with
      | nil => simp
      | cons b before =>
        refine iff_of_false (by simp) ?_
        rintro ⟨hcs, hmark⟩
        exact hmark (List.mem_cons.mpr (.inl (List.cons.inj hcs).1))
    · rw [if_neg hc, Option.map_eq_some_iff]
      cases before with
      | nil => simp [hc]
      | cons b before =>
        constructor
        · rintro ⟨⟨start, tail⟩, hcut, heq⟩
          obtain ⟨hstart, rfl⟩ := Prod.mk.inj heq
          obtain ⟨rfl, rfl⟩ := List.cons.inj hstart
          obtain ⟨hrest, hmark⟩ := ih.mp hcut
          refine ⟨by rw [hrest, List.cons_append], ?_⟩
          exact List.not_mem_cons_of_ne_of_not_mem (Ne.symm hc) hmark
        · rintro ⟨hcs, hmark⟩
          obtain ⟨rfl, hrest⟩ := List.cons.inj hcs
          have hbefore : mark ∉ before := fun h => hmark (List.mem_cons_of_mem c h)
          exact ⟨(before, after), ih.mpr ⟨hrest, hbefore⟩, rfl⟩

def lines (s : String) : List String := pieces "\n" s

/-- The lines of two texts that are joined by a line end are those of both. -/
theorem lines_append (s t : String) : lines (s ++ "\n" ++ t) = lines s ++ lines t := by
  rw [lines, pieces, String.toList_append, String.toList_append]
  change (piecesFrom ['\n'] [] 0 (s.toList ++ ['\n'] ++ t.toList)).map String.ofList = _
  rw [List.append_assoc, List.singleton_append, piecesFrom_append, List.map_append]
  rfl

theorem length_lines (s : String) : (lines s).length = s.toList.count '\n' + 1 := by
  rw [lines, pieces, List.length_map]
  exact length_piecesFrom '\n' [] s.toList

end Text

def BadLine.behind (bad : BadLine) (count : Nat) : BadLine :=
  { bad with number := bad.number + count }

namespace Settings

inductive Change
  | library (dir : String)
  | lineEnding (ending : LineEnding)

def change (c : Settings) : Change → Settings
  | .library dir => { c with library := dir }
  | .lineEnding ending => { c with lineEnding := ending }

def IsEntry (line key value : String) : Prop :=
  ∃ before after, (Text.trim line).toList = before ++ '=' :: after ∧ '=' ∉ before ∧
    (Text.trim line).toList.head? ≠ some '#' ∧
    key = Text.trim (String.ofList before) ∧ value = Text.trim (String.ofList after)

/-- A line is valid for a key and gives its setting. -/
inductive Gives (home : Option String) (line : String) : Change → Prop
  | library {value : String} (h : IsEntry line "stdlib" value) :
      Gives home line (.library (expandHome home value))
  | lineEnding {value : String} {ending : LineEnding} (h : IsEntry line "line_encoding" value)
      (hname : LineEnding.ofName value = .ok ending) : Gives home line (.lineEnding ending)

/-- The last line that gives a value decides. If there is none, the old value stays. -/
def Decided {α : Type} (gives : String → α → Prop) (lines : List String) (old final : α) : Prop :=
  (∃ before line after, lines = before ++ line :: after ∧ gives line final ∧
      ∀ later ∈ after, ∀ a, ¬gives later a) ∨
    (∀ line ∈ lines, ∀ a, ¬gives line a) ∧ final = old

/-! One line. -/

section Line

variable {home : Option String} {line key value : String} {before after : List Char}
  {change : Change}

def isSkipped (line : String) : Bool :=
  (Text.trim line).isEmpty || (Text.trim line).toList.head? = some '#'

theorem IsEntry.isSkipped_eq_false (h : IsEntry line key value) : isSkipped line = false := by
  obtain ⟨before, after, hline, -, hcomment, -⟩ := h
  have hempty : (Text.trim line).isEmpty = false := by
    rw [String.isEmpty_eq_false_iff, ne_eq, ← String.toList_inj, hline]
    simp
  simp [isSkipped, hempty, hcomment]

theorem IsEntry.exists_cut (h : IsEntry line key value) :
    ∃ before after, Text.cutAt? '=' (Text.trim line).toList = some (before, after) ∧
      key = Text.trim (String.ofList before) ∧ value = Text.trim (String.ofList after) := by
  obtain ⟨before, after, hline, hbefore, -, hkey, hvalue⟩ := h
  exact ⟨before, after, Text.cutAt?_eq_some_iff.mpr ⟨hline, hbefore⟩, hkey, hvalue⟩

/-- A line is divided in one way. -/
theorem IsEntry.unique {key' value' : String} (h : IsEntry line key value)
    (h' : IsEntry line key' value') : key = key' ∧ value = value' := by
  obtain ⟨before, after, hcut, rfl, rfl⟩ := h.exists_cut
  obtain ⟨before', after', hcut', rfl, rfl⟩ := h'.exists_cut
  obtain ⟨rfl, rfl⟩ := Prod.mk.inj (Option.some.inj (hcut.symm.trans hcut'))
  exact ⟨rfl, rfl⟩

theorem isEntry_of_cut (hskip : isSkipped line = false)
    (hcut : Text.cutAt? '=' (Text.trim line).toList = some (before, after)) :
    IsEntry line (Text.trim (String.ofList before)) (Text.trim (String.ofList after)) := by
  obtain ⟨hline, hbefore⟩ := Text.cutAt?_eq_some_iff.mp hcut
  refine ⟨before, after, hline, hbefore, ?_, rfl, rfl⟩
  simp only [isSkipped, Bool.or_eq_false_iff, decide_eq_false_iff_not] at hskip
  exact hskip.2

theorem Gives.isEntry (h : Gives home line change) : ∃ key value, IsEntry line key value := by
  cases h with
  | library h => exact ⟨_, _, h⟩
  | lineEnding h _ => exact ⟨_, _, h⟩

/-- A line gives one setting. -/
theorem Gives.unique {other : Change} (h : Gives home line change) (h' : Gives home line other) :
    change = other := by
  cases h with
  | library h =>
    cases h' with
    | library h' => rw [(h.unique h').2]
    | lineEnding h' _ => exact absurd (h.unique h').1 (by decide)
  | lineEnding h hname =>
    cases h' with
    | library h' => exact absurd (h.unique h').1 (by decide)
    | lineEnding h' hname' =>
      rw [(h.unique h').2, hname'] at hname
      rw [Except.ok.inj hname]

/-- What follows of a line, whatever the settings are. -/
inductive Effect (home : Option String) (line : String) : Prop
  | change (change : Change) (h : Gives home line change)
      (happly : ∀ c : Settings, c.applyLine home line = .ok (c.change change))
  | nothing (h : ∀ change, ¬Gives home line change)
      (happly : ∀ c : Settings, c.applyLine home line = .ok c)
  | fault (fault : SettingFault) (h : ∀ change, ¬Gives home line change)
      (happly : ∀ c : Settings, c.applyLine home line = .error fault)

theorem applyLine_eq (home : Option String) (line : String) (c : Settings) :
    c.applyLine home line = if isSkipped line then .ok c
      else match Text.cutAt? '=' (Text.trim line).toList with
        | none => .error (.malformed (Text.trim line))
        | some (key, value) =>
          c.setKey home (Text.trim (String.ofList key)) (Text.trim (String.ofList value)) := by
  unfold applyLine isSkipped
  cases hcut : Text.cutAt? '=' (Text.trim line).toList with
  | none => simp only [hcut]
  | some cut => simp only [hcut]

/-- A line that is blank or a comment gives nothing. -/
theorem effect_of_skipped (home : Option String) (hskip : isSkipped line = true) :
    Effect home line := by
  refine .nothing ?_ fun c => ?_
  · intro change h
    obtain ⟨key, value, hentry⟩ := h.isEntry
    rw [hentry.isSkipped_eq_false] at hskip
    cases hskip
  · rw [applyLine_eq, hskip, if_pos rfl]

/-- A line that is divided gives a setting if its key is known and its value is valid. -/
theorem effect_of_entry (hentry : IsEntry line key value)
    (happly : ∀ c : Settings, c.applyLine home line = c.setKey home key value) :
    Effect home line := by
  by_cases hlibrary : key = "stdlib"
  · subst hlibrary
    exact .change _ (.library hentry) happly
  · by_cases hending : key = "line_encoding"
    · subst hending
      cases hname : LineEnding.ofName value with
      | ok ending =>
        refine .change _ (.lineEnding hentry hname) fun c => ?_
        rw [happly, setKey, if_neg hlibrary, if_pos rfl, hname]
        rfl
      | error words =>
        refine .fault (.invalidLineEnding words) ?_ fun c => ?_
        · intro change h
          cases h with
          | library h => exact hlibrary (hentry.unique h).1
          | lineEnding h hok =>
            rw [← (hentry.unique h).2, hname] at hok
            cases hok
        · rw [happly, setKey, if_neg hlibrary, if_pos rfl, hname]
    · refine .fault (.unknownKey key) ?_ fun c => ?_
      · intro change h
        cases h with
        | library h => exact hlibrary (hentry.unique h).1
        | lineEnding h _ => exact hending (hentry.unique h).1
      · rw [happly, setKey, if_neg hlibrary, if_neg hending]

/-- A line gives a setting, or nothing, or it is reported. -/
theorem effect (home : Option String) (line : String) : Effect home line := by
  cases hskip : isSkipped line with
  | true => exact effect_of_skipped home hskip
  | false =>
    cases hcut : Text.cutAt? '=' (Text.trim line).toList with
    | none =>
      refine .fault (.malformed (Text.trim line)) ?_ fun c => ?_
      · intro change h
        obtain ⟨key, value, hentry⟩ := h.isEntry
        obtain ⟨before, after, hsome, -⟩ := hentry.exists_cut
        cases hcut.symm.trans hsome
      · rw [applyLine_eq, hskip, if_neg Bool.false_ne_true, hcut]
    | some cut =>
      obtain ⟨before, after⟩ := cut
      refine effect_of_entry (isEntry_of_cut hskip hcut) fun c => ?_
      rw [applyLine_eq, hskip, if_neg Bool.false_ne_true, hcut]

end Line

/-! All lines. -/

section Lines

variable {home : Option String} {line : String} {c changed : Settings} {fault : SettingFault}
  {number : Nat} {lines rest : List String} {bad : BadLine}

theorem applyLines_cons_ok (h : c.applyLine home line = .ok changed) (number : Nat)
    (rest : List String) :
    c.applyLines home number (line :: rest) = changed.applyLines home (number + 1) rest := by
  rw [applyLines, h]

theorem applyLines_cons_error (h : c.applyLine home line = .error fault) (number : Nat)
    (rest : List String) :
    c.applyLines home number (line :: rest) =
      ((c.applyLines home (number + 1) rest).1,
        ⟨number, fault⟩ :: (c.applyLines home (number + 1) rest).2) := by
  rw [applyLines, h]

/-- Lines are applied one after the other, and numbered on. -/
theorem applyLines_append (home : Option String) (c : Settings) (number : Nat)
    (lines rest : List String) :
    c.applyLines home number (lines ++ rest) =
      (((c.applyLines home number lines).1.applyLines home (number + lines.length) rest).1,
        (c.applyLines home number lines).2 ++
          ((c.applyLines home number lines).1.applyLines home (number + lines.length) rest).2) := by
  induction lines generalizing c number with
  | nil => rfl
  | cons line lines ih =>
    have hlength : number + (line :: lines).length = number + 1 + lines.length := by
      rw [List.length_cons]
      omega
    rw [hlength, List.cons_append]
    cases h : c.applyLine home line with
    | ok changed => rw [applyLines_cons_ok h, applyLines_cons_ok h, ih]
    | error fault =>
      rw [applyLines_cons_error h, applyLines_cons_error h, ih]
      rfl

/-- The number of the first line counts for the reports only. -/
theorem applyLines_add (home : Option String) (c : Settings) (number count : Nat)
    (lines : List String) :
    c.applyLines home (number + count) lines =
      ((c.applyLines home number lines).1,
        (c.applyLines home number lines).2.map (·.behind count)) := by
  induction lines generalizing c number with
  | nil => rfl
  | cons line lines ih =>
    have hnext : number + count + 1 = number + 1 + count := by omega
    cases h : c.applyLine home line with
    | ok changed => rw [applyLines_cons_ok h, applyLines_cons_ok h, hnext, ih]
    | error fault =>
      rw [applyLines_cons_error h, applyLines_cons_error h, hnext, ih]
      rfl

/-- A report is about the line of its number. -/
theorem exists_line_of_mem (h : bad ∈ (c.applyLines home number lines).2) :
    ∃ before line after, lines = before ++ line :: after ∧
      bad.number = number + before.length ∧ (∀ change, ¬Gives home line change) ∧
      ∀ c : Settings, c.applyLine home line = .error bad.fault := by
  induction lines generalizing c number with
  | nil => cases h
  | cons line lines ih =>
    have hlater : ∀ {c : Settings}, bad ∈ (c.applyLines home (number + 1) lines).2 →
        ∃ before later after, line :: lines = before ++ later :: after ∧
          bad.number = number + before.length ∧ (∀ change, ¬Gives home later change) ∧
          ∀ c : Settings, c.applyLine home later = .error bad.fault := by
      intro c hmem
      obtain ⟨before, later, after, rfl, hnumber, hlater⟩ := ih hmem
      refine ⟨line :: before, later, after, rfl, ?_, hlater⟩
      rw [hnumber, List.length_cons]
      omega
    cases effect home line with
    | change change _ happly =>
      rw [applyLines_cons_ok (happly c)] at h
      exact hlater h
    | nothing _ happly =>
      rw [applyLines_cons_ok (happly c)] at h
      exact hlater h
    | fault fault hnone happly =>
      rw [applyLines_cons_error (happly c)] at h
      rcases List.mem_cons.mp h with rfl | h
      · exact ⟨[], line, lines, rfl, rfl, hnone, happly⟩
      · exact hlater h

/-- The reports stand in the order of the lines. -/
theorem pairwise_number (home : Option String) (c : Settings) (number : Nat) (lines : List String) :
    (c.applyLines home number lines).2.Pairwise (·.number < ·.number) := by
  induction lines generalizing c number with
  | nil => exact .nil
  | cons line lines ih =>
    cases h : c.applyLine home line with
    | ok changed =>
      rw [applyLines_cons_ok h]
      exact ih changed (number + 1)
    | error fault =>
      rw [applyLines_cons_error h]
      refine .cons (fun bad hbad => ?_) (ih c (number + 1))
      obtain ⟨before, -, -, -, hnumber, -⟩ := exists_line_of_mem hbad
      change number < bad.number
      omega

theorem appDir_applyLines (home : Option String) (c : Settings) (number : Nat)
    (lines : List String) :
    (c.applyLines home number lines).1.appDir = c.appDir := by
  induction lines generalizing c number with
  | nil => rfl
  | cons line lines ih =>
    cases effect home line with
    | change change _ happly =>
      rw [applyLines_cons_ok (happly c), ih]
      cases change with
      | library dir => rfl
      | lineEnding ending => rfl
    | nothing _ happly => rw [applyLines_cons_ok (happly c), ih]
    | fault fault _ happly =>
      rw [applyLines_cons_error (happly c)]
      exact ih c (number + 1)

section Decided

variable {α : Type} {gives : String → α → Prop} {old middle final : α}

/-- A line that comes first counts if it gives a value and no later line does. -/
theorem Decided.cons (h : Decided gives lines middle final)
    (hline : gives line middle ∨ (∀ a, ¬gives line a) ∧ middle = old) :
    Decided gives (line :: lines) old final := by
  rcases h with ⟨before, last, after, rfl, hlast⟩ | ⟨hnone, rfl⟩
  · exact .inl ⟨line :: before, last, after, rfl, hlast⟩
  · rcases hline with hline | ⟨hline, rfl⟩
    · exact .inl ⟨[], line, lines, rfl, hline, hnone⟩
    · exact .inr ⟨List.forall_mem_cons.mpr ⟨hline, hnone⟩, rfl⟩

/-- One setting through all lines, with the changes that are about it. -/
theorem decided_applyLines (field : Settings → α) (about : α → Change)
    (hchange : ∀ (c : Settings) (change : Change),
      (∃ a, change = about a ∧ field (c.change change) = a) ∨
        (∀ a, change ≠ about a) ∧ field (c.change change) = field c)
    (home : Option String) (c : Settings) (number : Nat) (lines : List String) :
    Decided (fun line a => Gives home line (about a)) lines (field c)
      (field (c.applyLines home number lines).1) := by
  induction lines generalizing c number with
  | nil => exact .inr ⟨nofun, rfl⟩
  | cons line lines ih =>
    cases effect home line with
    | change change hgives happly =>
      rw [applyLines_cons_ok (happly c)]
      refine (ih (c.change change) (number + 1)).cons ?_
      rcases hchange c change with ⟨a, rfl, ha⟩ | ⟨hother, hkeeps⟩
      · rw [ha]
        exact .inl hgives
      · exact .inr ⟨fun a h => hother a (hgives.unique h), hkeeps⟩
    | nothing hnone happly =>
      rw [applyLines_cons_ok (happly c)]
      exact (ih c (number + 1)).cons (.inr ⟨fun a => hnone (about a), rfl⟩)
    | fault fault hnone happly =>
      rw [applyLines_cons_error (happly c)]
      exact (ih c (number + 1)).cons (.inr ⟨fun a => hnone (about a), rfl⟩)

end Decided

end Lines

/-- Two texts that are joined by a line end are applied one after the other. -/
theorem applyText_append (home : Option String) (c : Settings) (s t : String) :
    c.applyText home (s ++ "\n" ++ t) =
      (((c.applyText home s).1.applyText home t).1,
        (c.applyText home s).2 ++
          ((c.applyText home s).1.applyText home t).2.map
            (·.behind (1 + s.toList.count '\n'))) := by
  have hnumber : 1 + (Text.lines s).length = 1 + (1 + s.toList.count '\n') := by
    rw [Text.length_lines, Nat.add_comm (s.toList.count '\n')]
  change c.applyLines home 1 (Text.lines (s ++ "\n" ++ t)) = _
  rw [Text.lines_append, applyLines_append, hnumber, applyLines_add]
  rfl

/-- The lines of a settings text apply on their own. Two texts that are joined by a line end
are applied one after the other, and the reports of the second are counted on from the lines
of the first. Reports come in the order of their lines; a line that is reported gives no
setting and changes none. Each setting ends as the last line says that gives it. -/
theorem lines_apply_on_their_own (home : Option String) (c : Settings) (s t : String) :
    c.applyText home (s ++ "\n" ++ t) =
      (((c.applyText home s).1.applyText home t).1,
        (c.applyText home s).2 ++
          ((c.applyText home s).1.applyText home t).2.map
            (·.behind (1 + s.toList.count '\n'))) ∧
    (c.applyText home s).2.Pairwise (·.number < ·.number) ∧
    (∀ bad ∈ (c.applyText home s).2, ∃ before line after,
      Text.lines s = before ++ line :: after ∧ bad.number = before.length + 1 ∧
      (∀ change, ¬Gives home line change) ∧
      (c.applyLines home 1 (before ++ [line])).1 = (c.applyLines home 1 before).1) ∧
    Decided (fun line dir => Gives home line (.library dir)) (Text.lines s)
      c.library (c.applyText home s).1.library ∧
    Decided (fun line ending => Gives home line (.lineEnding ending)) (Text.lines s)
      c.lineEnding (c.applyText home s).1.lineEnding ∧
    (c.applyText home s).1.appDir = c.appDir := by
  refine ⟨applyText_append home c s t, pairwise_number home c 1 _, ?_, ?_, ?_,
    appDir_applyLines home c 1 _⟩
  · intro bad hbad
    obtain ⟨before, line, after, hlines, hnumber, hnone, hfault⟩ := exists_line_of_mem hbad
    refine ⟨before, line, after, hlines, by omega, hnone, ?_⟩
    rw [applyLines_append, applyLines_cons_error (hfault _)]
    rfl
  · refine decided_applyLines Settings.library .library (fun c change => ?_) home c 1 _
    cases change with
    | library dir => exact .inl ⟨dir, rfl, rfl⟩
    | lineEnding ending => exact .inr ⟨nofun, rfl⟩
  · refine decided_applyLines Settings.lineEnding .lineEnding (fun c change => ?_) home c 1 _
    cases change with
    | library dir => exact .inr ⟨nofun, rfl⟩
    | lineEnding ending => exact .inl ⟨ending, rfl, rfl⟩

namespace Draft

def home : Option String := "/home/ada"

def settings : Settings := .ofHome home

def text : String := "line_encoding = dos\nstdlib = ~/lib = old"

example : (settings.applyText home text).1.library = "/home/ada/lib = old" := by decide +kernel

theorem numbers_reported : (settings.applyText home text).2.map (·.number) = [1] := by
  decide +kernel

theorem reported_line_gives_nothing :
    ∃ bad ∈ (settings.applyText home text).2, bad.number = 1 ∧
      ∃ line, (Text.lines text).head? = some line ∧ ∀ change, ¬Gives home line change := by
  obtain ⟨-, -, hreported, -⟩ := lines_apply_on_their_own home settings text ""
  have hone : 1 ∈ (settings.applyText home text).2.map (·.number) := by
    rw [numbers_reported]
    exact List.mem_singleton_self 1
  obtain ⟨bad, hbad, hnumber⟩ := List.mem_map.mp hone
  obtain ⟨before, line, after, hlines, hplace, hnone, -⟩ := hreported bad hbad
  refine ⟨bad, hbad, hnumber, line, ?_, hnone⟩
  have hbefore : before = [] := List.eq_nil_of_length_eq_zero (by omega)
  rw [hlines, hbefore]
  rfl

end Draft

end Settings

end Stencil
