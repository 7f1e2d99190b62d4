import LineScope.Analysis.DocIndex
import Mathlib.Data.List.Basic

/-!
# Values that are no index

An index is read from a value in two passes: first all entries of all modules are listed, then they
are added one after the other.  Reading ends with a wrong type if the value, a module or an entry
cannot be listed at all, or if the first entry that cannot be added holds a part of a wrong type.
All other faults have a message.
-/

namespace LineScope.DocIndex

open LineScope.Number LineScope.Text

/-! ### Faults -/

/-- Whether an error has a message for the reader. -/
def Error.hasMessage : Error → Bool
  | .wrongValue _ => true
  | _ => false

/-! ### Entries -/

/-- Whether a value can stand for a function. -/
def isKey : Json → Bool
  | .array _ | .object _ => false
  | _ => true

/-- Whether a value cannot be turned into a line: it is neither a number nor a text, or infinite. -/
def lacksLine : Json → Bool
  | .null | .array _ | .object _ | .float (.infinite _) => true
  | _ => false

/-- An entry of three values whose line can be read. -/
def IsAdded (entry : List Json) : Prop :=
  ∃ function arity line number, entry = [function, arity, line] ∧ isKey function = true ∧
    lineOf line = .ok number

/-- An entry of three values, of which the function or the line has a wrong type. -/
def IsMistyped (entry : List Json) : Prop :=
  ∃ function arity line, entry = [function, arity, line] ∧
    (isKey function = false ∨ lacksLine line = true)

theorem lineOf_cases (line : Json) :
    (∃ number, lineOf line = .ok number ∧ lacksLine line = false) ∨
      (∃ error, lineOf line = .error error ∧ lacksLine line = !error.hasMessage) := by
  cases line with
  | null => exact .inr ⟨_, rfl, rfl⟩
  | bool value => exact .inl ⟨_, rfl, rfl⟩
  | int value => exact .inl ⟨_, rfl, rfl⟩
  | float value =>
    cases value with
    | finite negative mantissa exponent => exact .inl ⟨_, rfl, rfl⟩
    | infinite negative => exact .inr ⟨_, rfl, rfl⟩
    | undefined => exact .inr ⟨_, rfl, rfl⟩
  | string value =>
    cases hread : readInt (shownText value) with
    | ok number => exact .inl ⟨number, by rw [lineOf, readNumeral, hread]; rfl, rfl⟩
    | error fault =>
      rcases readInt_error (shownText value) fault hread with rfl | ⟨digits, rfl⟩
      · exact .inr ⟨_, by rw [lineOf, readNumeral, hread]; rfl, rfl⟩
      · exact .inr ⟨_, by rw [lineOf, readNumeral, hread]; rfl, rfl⟩
  | array items => exact .inr ⟨_, rfl, rfl⟩
  | object members => exact .inr ⟨_, rfl, rfl⟩

/-- An entry for a function is added if its line can be read, and else fails like its line. -/
theorem addEntry_of_isKey (index : DocIndex) (module : List CodePoint) (function arity line : Json)
    (h : isKey function = true) :
    ∃ next, index.addEntry module [function, arity, line] =
      (lineOf line).map (next : Int → DocIndex) := by
  cases function with
  | string name =>
    refine ⟨index.add module name, ?_⟩
    dsimp only [addEntry]
    cases lineOf line <;> rfl
  | null | bool _ | int _ | float _ =>
    refine ⟨fun _ => index, ?_⟩
    dsimp only [addEntry]
    cases lineOf line <;> rfl
  | array items => cases h
  | object members => cases h

theorem addEntry_of_not_isKey (index : DocIndex) (module : List CodePoint) (function arity line : Json)
    (h : isKey function = false) :
    index.addEntry module [function, arity, line] = .error .wrongType := by
  cases function with
  | array items => rfl
  | object members => rfl
  | null | bool _ | int _ | float _ | string _ => cases h

/-- An entry that has not three values fails with a message. -/
theorem addEntry_of_length (index : DocIndex) (module : List CodePoint) (entry : List Json)
    (h : entry.length ≠ 3) :
    ∃ message, index.addEntry module entry = .error (.wrongValue message) := by
  unfold addEntry
  split
  · exact absurd rfl h
  · split <;> exact ⟨_, rfl⟩

theorem isMistyped_iff (function arity line : Json) :
    IsMistyped [function, arity, line] ↔ isKey function = false ∨ lacksLine line = true := by
  constructor
  · rintro ⟨_, _, _, hentry, h⟩
    cases hentry
    exact h
  · exact fun h => ⟨_, _, _, rfl, h⟩

theorem isAdded_iff (function arity line : Json) :
    IsAdded [function, arity, line] ↔ isKey function = true ∧ ∃ number, lineOf line = .ok number := by
  constructor
  · rintro ⟨_, _, _, number, hentry, hkey, hline⟩
    cases hentry
    exact ⟨hkey, number, hline⟩
  · exact fun ⟨hkey, number, hline⟩ => ⟨_, _, _, number, rfl, hkey, hline⟩

/-- What adding an entry comes to. -/
inductive Addition (index : DocIndex) (module : List CodePoint) (entry : List Json) : Prop where
  | added (next : DocIndex) (hentry : IsAdded entry)
      (hadd : index.addEntry module entry = .ok next)
  | refused (error : Error) (hentry : ¬ IsAdded entry)
      (hadd : index.addEntry module entry = .error error)
      (herror : IsMistyped entry ↔ error.hasMessage = false)

theorem addition_three (index : DocIndex) (module : List CodePoint) (function arity line : Json) :
    Addition index module [function, arity, line] := by
  cases hkey : isKey function with
  | false =>
    refine .refused .wrongType ?_ (addEntry_of_not_isKey index module _ arity line hkey) ?_
    · simp [isAdded_iff, hkey]
    · simp [isMistyped_iff, hkey, Error.hasMessage]
  | true =>
    obtain ⟨next, hadd⟩ := addEntry_of_isKey index module function arity line hkey
    rcases lineOf_cases line with ⟨number, hline, -⟩ | ⟨error, hline, hlacks⟩
    · rw [hline] at hadd
      exact .added _ ((isAdded_iff _ _ _).mpr ⟨hkey, number, hline⟩) hadd
    · rw [hline] at hadd
      refine .refused error ?_ hadd ?_
      · simp [isAdded_iff, hline]
      · simp [isMistyped_iff, hkey, hlacks]

theorem addition (index : DocIndex) (module : List CodePoint) (entry : List Json) :
    Addition index module entry := by
  by_cases hlength : entry.length = 3
  · obtain ⟨function, arity, line, rfl⟩ := List.length_eq_three.mp hlength
    exact addition_three index module function arity line
  · obtain ⟨message, hadd⟩ := addEntry_of_length index module entry hlength
    refine .refused _ ?_ hadd ?_
    · rintro ⟨function, arity, line, number, rfl, -⟩
      exact hlength rfl
    · constructor
      · rintro ⟨function, arity, line, rfl, -⟩
        exact absurd rfl hlength
      · exact nofun

/-! ### All entries -/

/-- Adds entries that are given with their modules. -/
def addAll (index : DocIndex) (entries : List (List CodePoint × List Json)) : Except Error DocIndex :=
  entries.foldlM (fun index entry => index.addEntry entry.1 entry.2) index

/-- The first entry that is not added, if there is one, holds a part of a wrong type. -/
def FailsMistyped (entries : List (List CodePoint × List Json)) : Prop :=
  ∃ before entry after, entries = before ++ entry :: after ∧
    (∀ earlier ∈ before, IsAdded earlier.2) ∧ IsMistyped entry.2

theorem not_isMistyped_of_isAdded (entry : List Json) (h : IsAdded entry) : ¬ IsMistyped entry := by
  obtain ⟨function, arity, line, number, rfl, hkey, hline⟩ := h
  rw [isMistyped_iff]
  rcases lineOf_cases line with ⟨_, -, hlacks⟩ | ⟨error, herror, -⟩
  · simp [hkey, hlacks]
  · rw [hline] at herror
    cases herror

theorem failsMistyped_cons_of_isAdded (entry : List CodePoint × List Json)
    (entries : List (List CodePoint × List Json)) (h : IsAdded entry.2) :
    FailsMistyped (entry :: entries) ↔ FailsMistyped entries := by
  constructor
  · rintro ⟨before, other, after, hsplit, hbefore, hmistyped⟩
    cases before with
    | nil =>
      cases hsplit
      exact absurd hmistyped (not_isMistyped_of_isAdded _ h)
    | cons first before =>
      cases hsplit
      exact ⟨before, other, after, rfl, (List.forall_mem_cons.mp hbefore).2, hmistyped⟩
  · rintro ⟨before, other, after, rfl, hbefore, hmistyped⟩
    exact ⟨entry :: before, other, after, rfl, List.forall_mem_cons.mpr ⟨h, hbefore⟩, hmistyped⟩

theorem failsMistyped_cons_of_not_isAdded (entry : List CodePoint × List Json)
    (entries : List (List CodePoint × List Json)) (h : ¬ IsAdded entry.2) :
    FailsMistyped (entry :: entries) ↔ IsMistyped entry.2 := by
  constructor
  · rintro ⟨before, other, after, hsplit, hbefore, hmistyped⟩
    cases before with
    | nil =>
      cases hsplit
      exact hmistyped
    | cons first before =>
      cases hsplit
      exact absurd (hbefore entry List.mem_cons_self) h
  · exact fun hmistyped => ⟨[], entry, entries, rfl, nofun, hmistyped⟩

/-- Adding entries fails without a message exactly if the first one that is not added is
mistyped. -/
theorem addAll_error_iff (entries : List (List CodePoint × List Json)) (index : DocIndex) :
    (∃ error, index.addAll entries = .error error ∧ error.hasMessage = false) ↔
      FailsMistyped entries := by
  induction entries generalizing index with
  | nil =>
    constructor
    · rintro ⟨error, herror, -⟩
      cases herror
    · rintro ⟨before, entry, after, hsplit, -⟩
      simp at hsplit
  | cons entry entries ih =>
    have hstep : index.addAll (entry :: entries) =
        index.addEntry entry.1 entry.2 >>= fun next => next.addAll entries := List.foldlM_cons
    cases addition index entry.1 entry.2 with
    | added next hentry hadd =>
      rw [hstep, hadd, failsMistyped_cons_of_isAdded entry entries hentry]
      exact ih next
    | refused error hentry hadd herror =>
      rw [hstep, hadd, failsMistyped_cons_of_not_isAdded entry entries hentry, herror]
      constructor
      · rintro ⟨_, hsame, hmessage⟩
        cases hsame
        exact hmessage
      · exact fun hmessage => ⟨error, rfl, hmessage⟩

/-! ### The whole value -/

/-- Whether a value can be listed. -/
def isListable (value : Json) : Bool := (parts value).isOk

/-- The parts of a value, none if it cannot be listed. -/
def listed (value : Json) : List Json := (parts value).toOption.getD []

/-- Every module can be listed, and so can each of its entries. -/
def IsTabular (members : List (List CodePoint × Json)) : Prop :=
  ∀ member ∈ members, isListable member.2 = true ∧
    ∀ entry ∈ listed member.2, isListable entry = true

/-- The entries of all modules in order, each with the name of its module. -/
def entriesOf (members : List (List CodePoint × Json)) : List (List CodePoint × List Json) :=
  members.flatMap fun member => (listed member.2).map fun entry => (member.1, listed entry)

/-- A value of a form that reading an index does not expect. -/
def IsMisshapen : Json → Prop
  | .object members => ¬ IsTabular members.entries ∨ FailsMistyped (entriesOf members.entries)
  | _ => True

theorem parts_cases (value : Json) :
    (isListable value = true ∧ parts value = .ok (listed value)) ∨
      (isListable value = false ∧ parts value = .error .wrongType) := by
  cases value with
  | array _ | string _ | object _ => exact .inl ⟨rfl, rfl⟩
  | null | bool _ | int _ | float _ => exact .inr ⟨rfl, rfl⟩

/-- Listing several values gives all their parts, or fails if one of them cannot be listed. -/
theorem mapM_parts (values : List Json) :
    (values.mapM parts = .ok (values.map listed) ∧ ∀ value ∈ values, isListable value = true) ∨
      (values.mapM parts = .error .wrongType ∧ ¬ ∀ value ∈ values, isListable value = true) := by
  induction values with
  | nil => exact .inl ⟨rfl, nofun⟩
  | cons value values ih =>
    rw [List.mapM_cons, List.forall_mem_cons]
    rcases parts_cases value with ⟨hlistable, hparts⟩ | ⟨hlistable, hparts⟩
    · rcases ih with ⟨hall, hlistables⟩ | ⟨hall, hlistables⟩
      · exact .inl ⟨by rw [hparts, hall]; rfl, hlistable, hlistables⟩
      · exact .inr ⟨by rw [hparts, hall]; rfl, fun h => hlistables h.2⟩
    · exact .inr ⟨by rw [hparts]; rfl, fun h => by rw [hlistable] at h; cases h.1⟩

/-- The entries of a member that can be listed. -/
def listedMember (member : List CodePoint × Json) :
    List CodePoint × List (List Json) :=
  (member.1, (listed member.2).map listed)

theorem moduleEntries_cases (member : List CodePoint × Json) :
    (moduleEntries member = .ok (listedMember member) ∧ isListable member.2 = true ∧
        ∀ entry ∈ listed member.2, isListable entry = true) ∨
      (moduleEntries member = .error .wrongType ∧ ¬ (isListable member.2 = true ∧
        ∀ entry ∈ listed member.2, isListable entry = true)) := by
  unfold moduleEntries
  rcases parts_cases member.2 with ⟨hlistable, hparts⟩ | ⟨hlistable, hparts⟩
  · rw [hparts]
    rcases mapM_parts (listed member.2) with ⟨hall, hlistables⟩ | ⟨hall, hlistables⟩
    · exact .inl ⟨by dsimp only [bind, Except.bind]; rw [hall]; rfl, hlistable, hlistables⟩
    · exact .inr ⟨by dsimp only [bind, Except.bind]; rw [hall], fun h => hlistables h.2⟩
  · exact .inr ⟨by rw [hparts]; rfl, fun h => by rw [hlistable] at h; cases h.1⟩

theorem mapM_moduleEntries (members : List (List CodePoint × Json)) :
    (members.mapM moduleEntries = .ok (members.map listedMember) ∧ IsTabular members) ∨
      (members.mapM moduleEntries = .error .wrongType ∧ ¬ IsTabular members) := by
  unfold IsTabular
  induction members with
  | nil => exact .inl ⟨rfl, nofun⟩
  | cons member members ih =>
    rw [List.mapM_cons, List.forall_mem_cons]
    rcases moduleEntries_cases member with ⟨hmember, htabular⟩ | ⟨hmember, htabular⟩
    · rcases ih with ⟨hall, htabulars⟩ | ⟨hall, htabulars⟩
      · exact .inl ⟨by rw [hmember, hall]; rfl, htabular, htabulars⟩
      · exact .inr ⟨by rw [hmember, hall]; rfl, fun h => htabulars h.2⟩
    · exact .inr ⟨by rw [hmember]; rfl, fun h => htabular h.1⟩

/-- Adding module by module is adding all entries one after the other. -/
theorem foldlM_addModule (members : List (List CodePoint × Json)) (index : DocIndex) :
    (members.map listedMember).foldlM addModule index = index.addAll (entriesOf members) := by
  induction members generalizing index with
  | nil => rfl
  | cons member members ih =>
    have hentries : entriesOf (member :: members) =
        ((listed member.2).map fun entry => (member.1, listed entry)) ++ entriesOf members := rfl
    rw [List.map_cons, List.foldlM_cons, hentries, addAll, List.foldlM_append]
    congr 1
    · rw [addModule, listedMember, List.foldlM_map, List.foldlM_map]
    · funext next
      exact ih next

/-- Reading an index fails without a message exactly if the value is misshapen. -/
theorem ofJson_error_iff (value : Json) :
    (∃ error, ofJson value = .error error ∧ error.hasMessage = false) ↔ IsMisshapen value := by
  cases value with
  | object members =>
    dsimp only [ofJson, IsMisshapen]
    rcases mapM_moduleEntries members.entries with ⟨hall, htabular⟩ | ⟨hall, htabular⟩
    · have hadd := addAll_error_iff (entriesOf members.entries) empty
      rw [← foldlM_addModule] at hadd
      rw [hall, or_iff_right (not_not_intro htabular)]
      exact hadd
    · rw [hall]
      exact iff_of_true ⟨_, rfl, rfl⟩ (.inl htabular)
  | null | bool _ | int _ | float _ | string _ | array _ =>
    exact iff_of_true ⟨_, rfl, rfl⟩ trivial

end LineScope.DocIndex
