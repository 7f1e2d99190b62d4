import LineScope.Proofs.Grammar.Rule
import Mathlib.Data.List.Basic

/-!
# What a rule reads at a cursor

Where a rule has one way only, or none, what it finds is an equation.  These equations go through all
ways to put rules together, so a rule is followed along a known text token by token.
-/

namespace LineScope.Grammar

/-! ### Cursors behind a text -/

/-- The cursor on the first line behind a text, with the text that is left. -/
def Cursor.behind (front rest : List Char) : Cursor :=
  ⟨front.length, 1, front.getLast?, rest, none⟩

/-- A text that starts with neither a blank nor a comment. -/
def Solid (text : List Char) : Prop := Cursor.ignoredWidth false text = 0

namespace Cursor

theorem advance_behind (front text rest : List Char) (hline : '\n' ∉ text) :
    (behind front (text ++ rest)).advance text.length = behind (front ++ text) rest := by
  induction text generalizing front with
  | nil => simp [advance]
  | cons c text ih =>
    have hc : c ≠ '\n' := fun he => hline (he ▸ List.mem_cons_self)
    have hnext : (behind front (c :: text ++ rest)).next = behind (front ++ [c]) (text ++ rest) := by
      simp [behind, next, hc]
    rw [List.length_cons, advance, hnext, ih _ fun hm => hline (List.mem_cons_of_mem _ hm)]
    simp

theorem skipIgnored_behind (front rest : List Char) (hrest : Solid rest) :
    (behind front rest).skipIgnored = behind front rest := by
  have hwidth : ignoredWidth false (behind front rest).rest = 0 := hrest
  rw [skipIgnored, hwidth]
  rfl

theorem skipIgnored_blank (front rest : List Char) (hrest : Solid rest) :
    (behind front (' ' :: rest)).skipIgnored = behind (front ++ [' ']) rest := by
  have hwidth : ignoredWidth false (behind front (' ' :: rest)).rest = 1 := by
    show ignoredWidth false (' ' :: rest) = 1
    rw [ignoredWidth, if_pos (.inl rfl), show ignoredWidth false rest = 0 from hrest]
  rw [skipIgnored, hwidth]
  exact advance_behind front [' '] rest (by decide)

end Cursor

namespace Rule

variable {α β : Type}

/-- A rule that finds nothing at a cursor. -/
def Idle (rule : Rule α) (c : Cursor) : Prop := (rule c).found = []

/-- A rule that has one way at a cursor. -/
def Reads (rule : Rule α) (c : Cursor) (a : α) (c' : Cursor) : Prop := (rule c).found = [(a, c')]

/-! ### Sequences -/

theorem found_bind (p : Rule α) (f : α → Rule β) (c : Cursor) :
    ((p >>= f) c).found = (p c).found.flatMap fun way => (f way.1 way.2).found := by
  have key : ∀ (ways : List (α × Cursor)) (n : Nat),
      (ways.foldr (fun way rest => (f way.1 way.2).append rest) ⟨n, []⟩).found =
        ways.flatMap fun way => (f way.1 way.2).found := by
    intro ways n
    induction ways with
    | nil => rfl
    | cons way ways ih => exact congrArg ((f way.1 way.2).found ++ ·) ih
  exact key (p c).found (p c).reach

theorem found_map (p : Rule α) (f : α → β) (c : Cursor) :
    ((f <$> p) c).found = (p c).found.map fun way => (f way.1, way.2) := by
  rw [List.map_eq_flatMap]
  exact found_bind p (fun a => pure (f a)) c

section Sequences

variable {p : Rule α} {f : α → Rule β} {c c' c'' : Cursor} {a : α} {b : β}

theorem reads_pure (a : α) (c : Cursor) : Reads (pure a) c a c := rfl

theorem Reads.found_bind (h : Reads p c a c') : ((p >>= f) c).found = (f a c').found := by
  rw [Rule.found_bind, h, List.flatMap_singleton]

theorem Reads.bind (h : Reads p c a c') (hf : Reads (f a) c' b c'') : Reads (p >>= f) c b c'' :=
  h.found_bind.trans hf

theorem Reads.bind_idle (h : Reads p c a c') (hf : Idle (f a) c') : Idle (p >>= f) c :=
  h.found_bind.trans hf

theorem Reads.map (f : α → β) (h : Reads p c a c') : Reads (f <$> p) c (f a) c' := by
  rw [Reads, found_map, h, List.map_singleton]

theorem Idle.bind (h : Idle p c) : Idle (p >>= f) c := by
  rw [Idle, Rule.found_bind, h, List.flatMap_nil]

theorem Idle.map (f : α → β) (h : Idle p c) : Idle (f <$> p) c := h.bind

end Sequences

/-- Where all ways but one end before something that must follow, only that way goes on. -/
theorem found_bind_of_end {p : Rule α} {f : α → Rule β} {c c' : Cursor} {a : α} (n : Nat)
    (hend : (p c).found.filter (fun way => way.2.offset == n) = [(a, c')])
    (hidle : ∀ way ∈ (p c).found, way.2.offset ≠ n → Idle (f way.1) way.2) :
    ((p >>= f) c).found = (f a c').found := by
  have hfilter : ∀ ways : List (α × Cursor),
      (∀ way ∈ ways, way.2.offset ≠ n → Idle (f way.1) way.2) →
      ways.flatMap (fun way => (f way.1 way.2).found) =
        (ways.filter fun way => way.2.offset == n).flatMap fun way => (f way.1 way.2).found := by
    intro ways hways
    induction ways with
    | nil => rfl
    | cons way ways ih =>
      have hrest := ih fun other ho => hways other (List.mem_cons_of_mem _ ho)
      by_cases hn : way.2.offset = n
      · rw [List.flatMap_cons, hrest, List.filter_cons_of_pos (by simpa using hn), List.flatMap_cons]
      · have hway : (f way.1 way.2).found = [] := hways way List.mem_cons_self hn
        rw [List.flatMap_cons, hrest, hway, List.filter_cons_of_neg (by simpa using hn),
          List.nil_append]
  rw [found_bind, hfilter _ hidle, hend, List.flatMap_singleton]

theorem Idle.elim {P : Prop} {p : Rule α} {c : Cursor} {way : α × Cursor} (h : Idle p c)
    (hway : way ∈ (p c).found) : P := by
  rw [h] at hway
  cases hway

theorem Reads.eq_of_mem {p : Rule α} {c c' : Cursor} {a : α} {way : α × Cursor}
    (h : Reads p c a c') (hway : way ∈ (p c).found) : way = (a, c') := by
  rwa [h, List.mem_singleton] at hway

theorem leads_or {A A' : Cursor → Prop} {B : α → Cursor → Prop} {p : Rule α} (h : Leads A B p)
    (h' : Leads A' B p) : Leads (fun c => A c ∨ A' c) B p :=
  fun c hc => hc.elim (h c) (h' c)

/-! ### Choices -/

section Choices

variable {p q : Rule α} {c c' : Cursor} {a : α}

theorem Idle.either (hp : Idle p c) (hq : Idle q c) : Idle (either p q) c := by
  show (p c).found ++ (q c).found = []
  rw [hp, hq, List.append_nil]

theorem Reads.either (hp : Reads p c a c') (hq : Idle q c) : Reads (either p q) c a c' := by
  show (p c).found ++ (q c).found = _
  rw [hp, hq, List.append_nil]

theorem Idle.either_reads (hp : Idle p c) (hq : Reads q c a c') : Reads (Rule.either p q) c a c' := by
  show (p c).found ++ (q c).found = _
  rw [hp, hq, List.nil_append]

theorem found_choice (rules : List (Rule α)) (c : Cursor) :
    (choice rules c).found = rules.flatMap fun rule => (rule c).found := by
  induction rules with
  | nil => rfl
  | cons rule rules ih => exact congrArg ((rule c).found ++ ·) ih

theorem idle_choice (rules : List (Rule α)) (h : ∀ rule ∈ rules, Idle rule c) :
    Idle (choice rules) c := by
  rw [Idle, found_choice, List.flatMap_eq_nil_iff]
  exact h

/-- A choice of which one rule reads and the others are idle. -/
theorem reads_choice (before after : List (Rule α)) (hp : Reads p c a c')
    (hbefore : ∀ rule ∈ before, Idle rule c) (hafter : ∀ rule ∈ after, Idle rule c) :
    Reads (choice (before ++ p :: after)) c a c' := by
  rw [Reads, found_choice, List.flatMap_append, List.flatMap_cons, hp,
    List.flatMap_eq_nil_iff.mpr hbefore, List.flatMap_eq_nil_iff.mpr hafter]
  rfl

theorem found_branch (ways : List (α → Rule β)) (c : Cursor) :
    (branch p ways c).found = ways.flatMap fun way => ((p >>= way) c).found := by
  unfold branch
  dsimp only
  induction ways with
  | nil => rfl
  | cons way ways ih => exact congrArg (((p >>= way) c).found ++ ·) ih

theorem found_optional_getD (p : Rule α) (default : α) (c : Cursor) :
    ((optional p >>= fun found => pure (found.getD default)) c).found =
      (p c).found ++ [(default, c)] := by
  have hoptional : (optional p c).found = (p c).found.map (fun way => (some way.1, way.2)) ++
      [(none, c)] :=
    congrArg (· ++ _) (found_map p some c)
  rw [found_bind, hoptional, List.flatMap_append, List.flatMap_map]
  exact congrArg (· ++ _) (List.flatMap_singleton' _)

theorem Idle.skip (h : Idle p c) : Reads (skip p) c () c :=
  (h.map fun _ => ()).either_reads (reads_pure () c)

theorem reads_loop {step : α → Rule α} (h : Idle (step a) c) : Reads (loop step a) c a c := by
  show (iterate step c.rest.length a c).found = [(a, c)]
  cases c.rest.length with
  | zero => rfl
  | succ n => exact (reads_pure a c).either h.bind

end Choices

/-! ### Preferred ways -/

/-- Of the ways to one position, the first is the preferred one. -/
theorem filter_firstPerEnd (n : Nat) (ways : List (α × Cursor)) :
    (firstPerEnd ways).filter (fun way => way.2.offset == n) =
      (ways.find? fun way => way.2.offset == n).toList := by
  induction ways with
  | nil => rfl
  | cons way ways ih =>
    rw [firstPerEnd, List.find?_cons]
    cases hend : way.2.offset == n with
    | true =>
      have hn : way.2.offset = n := by simpa using hend
      simp [List.filter_filter, hn]
    | false =>
      have hn : way.2.offset ≠ n := by simpa using hend
      have hsame : ∀ other : α × Cursor,
          (other.2.offset == n && other.2.offset != way.2.offset) = (other.2.offset == n) := by
        intro other
        by_cases ho : other.2.offset = n
        · simp [ho, Ne.symm hn]
        · simp [ho]
      simp [hend, List.filter_filter, hsame, ih]

theorem idle_preferred {p : Rule α} {c : Cursor} (h : Idle p c) : Idle (preferred p) c := by
  show firstPerEnd (p c).found = []
  rw [h]
  rfl

theorem reads_preferred {p : Rule α} {c c' : Cursor} {a : α} (h : Reads p c a c') :
    Reads (preferred p) c a c' := by
  show firstPerEnd (p c).found = _
  rw [h]
  rfl

/-! ### Tokens -/

theorem idle_token (terminal : Terminal) (front rest : List Char)
    (h : ∀ before, terminal before rest = none) : Idle (token terminal) (.behind front rest) := by
  have hnone : terminal (Cursor.behind front rest).before (Cursor.behind front rest).rest = none :=
    h _
  rw [Idle, token, hnone]
  rfl

/-- A terminal that matches a text in one line reads it as a token. -/
theorem reads_token (terminal : Terminal) (front text rest : List Char)
    (h : terminal front.getLast? (text ++ rest) = some text.length) (hline : '\n' ∉ text) :
    Reads (token terminal) (.behind front (text ++ rest)) ⟨String.ofList text, 1⟩
      (Cursor.behind (front ++ text) rest).skipIgnored := by
  have hsome : terminal (Cursor.behind front (text ++ rest)).before
      (Cursor.behind front (text ++ rest)).rest = some text.length := h
  rw [Reads, token, hsome]
  dsimp only
  rw [Cursor.advance_behind front text rest hline]
  simp [Cursor.behind]

end Rule

end LineScope.Grammar
