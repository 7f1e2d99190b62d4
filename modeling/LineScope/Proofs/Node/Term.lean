import LineScope.Node.Printed
import Mathlib.Data.List.TakeWhile

/-!
# Terms and where they end

Quoted code is made of words, quoted texts, tuples and lists.  Such a term can be told from what is
written behind it: a text that goes on with a separator or with a closing character begins with at
most one term.
-/

namespace LineScope

/-- A piece of quoted code as it is written. -/
inductive Term where
  | word (letters : List Char)
  | string (value : List Char)
  | charlist (value : List Char)
  | tuple (parts : List Term)
  | list (items : List Term)

namespace Term

/-! ### The text of a term -/

/-- Further texts behind a first one, up to the closing character. -/
def further (close : Char) : List (List Char) → List Char
  | [] => [close]
  | text :: texts => ',' :: ' ' :: (text ++ further close texts)

/-- Texts with separators between them, up to the closing character. -/
def joined (close : Char) : List (List Char) → List Char
  | [] => [close]
  | text :: texts => text ++ further close texts

/-- Texts with separators between them, written one by one. -/
theorem joined_eq (close : Char) (texts : List String) :
    joined close (texts.map String.toList) =
      (String.intercalate ", " texts).toList ++ [close] := by
  cases texts with
  | nil => rfl
  | cons text texts =>
    induction texts generalizing text with
    | nil => simp [joined, further]
    | cons next texts ih =>
      have hnext := ih next
      simp only [List.map_cons, joined] at hnext
      simp [joined, further, String.intercalate_cons_cons, hnext]

mutual

def text : Term → List Char
  | .word letters => letters
  | .string value => '"' :: (value.flatMap escapeQuoted ++ ['"'])
  | .charlist value => '\'' :: (value ++ ['\''])
  | .tuple parts => '{' :: joined '}' (texts parts)
  | .list items => '[' :: joined ']' (texts items)

def texts : List Term → List (List Char)
  | [] => []
  | term :: terms => term.text :: texts terms

end

/-! ### Readable terms -/

/-- A character that a word can hold at any place but, for a quote or a bracket, its first. -/
def isLetter (c : Char) : Bool := c != ',' && c != '{' && c != '}' && c != ']'

/-- A character that a word can start with. -/
def isInitial (c : Char) : Bool := isLetter c && c != '"' && c != '\'' && c != '['

/-- A word: letters, and maybe an empty pair of braces at the end. -/
def IsWord (letters : List Char) : Prop :=
  ∃ initial body braces, letters = initial :: (body ++ braces) ∧ isInitial initial = true ∧
    (∀ c ∈ body, isLetter c = true) ∧ (braces = [] ∨ braces = ['{', '}'])

mutual

def IsReadable : Term → Prop
  | .word letters => IsWord letters
  | .string _ => True
  | .charlist value => '\'' ∉ value
  | .tuple parts => AllReadable parts
  | .list items => AllReadable items

def AllReadable : List Term → Prop
  | [] => True
  | term :: terms => term.IsReadable ∧ AllReadable terms

end

/-- A text that can stand behind a term. -/
def Stops (rest : List Char) : Prop := ∀ c ∈ rest.head?, c = ',' ∨ c = '}' ∨ c = ']'

theorem stops_nil : Stops [] := by simp [Stops]

theorem stops_further (close : Char) (hclose : close = '}' ∨ close = ']')
    (texts : List (List Char)) (rest : List Char) : Stops (further close texts ++ rest) := by
  cases texts <;> simp [Stops, further, hclose]

/-! ### Words and quoted texts -/

theorem not_isLetter_of_stops {rest : List Char} (h : Stops rest) :
    rest.takeWhile isLetter = [] := by
  cases rest with
  | nil => rfl
  | cons c rest =>
    have hc : isLetter c = false := by
      rcases h c rfl with rfl | rfl | rfl <;> rfl
    simp [hc]

theorem takeWhile_isLetter {initial : Char} {body braces rest : List Char}
    (hinitial : isInitial initial = true) (hbody : ∀ c ∈ body, isLetter c = true)
    (hbraces : braces = [] ∨ braces = ['{', '}']) (hrest : Stops rest) :
    (initial :: (body ++ braces) ++ rest).takeWhile isLetter = initial :: body := by
  have hletter : isLetter initial = true := by
    simp only [isInitial, Bool.and_eq_true] at hinitial
    exact hinitial.1.1.1
  have hbehind : (braces ++ rest).takeWhile isLetter = [] := by
    rcases hbraces with rfl | rfl
    · exact not_isLetter_of_stops hrest
    · rfl
  rw [List.cons_append, List.append_assoc, List.takeWhile_cons_of_pos hletter,
    List.takeWhile_append_of_pos hbody, hbehind, List.append_nil]

theorem word_append_inj {a b r s : List Char} (ha : IsWord a) (hb : IsWord b) (hr : Stops r)
    (hs : Stops s) (h : a ++ r = b ++ s) : a = b ∧ r = s := by
  obtain ⟨x, body, braces, rfl, hx, hbody, hbraces⟩ := ha
  obtain ⟨y, body', braces', rfl, hy, hbody', hbraces'⟩ := hb
  have hletters : x :: body = y :: body' := by
    rw [← takeWhile_isLetter hx hbody hbraces hr, h, takeWhile_isLetter hy hbody' hbraces' hs]
  obtain ⟨rfl, rfl⟩ := List.cons.inj hletters
  have hbehind : braces ++ r = braces' ++ s := by simpa using h
  -- a brace tells whether the word goes on, since what stands behind a word has none in front
  rcases hbraces with rfl | rfl <;> rcases hbraces' with rfl | rfl
  · exact ⟨rfl, hbehind⟩
  · have hbrace := hr '{' (by simp [show r = '{' :: '}' :: s from hbehind])
    simp at hbrace
  · have hbrace := hs '{' (by simp [show s = '{' :: '}' :: r from hbehind.symm])
    simp at hbrace
  · exact ⟨rfl, by simpa using hbehind⟩

theorem escapeQuoted_append_inj {c d : Char} {r s : List Char}
    (h : escapeQuoted c ++ r = escapeQuoted d ++ s) : c = d ∧ r = s := by
  unfold escapeQuoted at h
  split at h <;> rename_i hc <;> split at h <;> rename_i hd <;>
    simp only [List.cons_append, List.nil_append, List.cons.injEq] at h
  · exact h.2
  · exact absurd (.inl h.1.symm) hd
  · exact absurd (.inl h.1) hc
  · exact h

theorem string_append_inj {a b r s : List Char}
    (h : a.flatMap escapeQuoted ++ '"' :: r = b.flatMap escapeQuoted ++ '"' :: s) :
    a = b ∧ r = s := by
  have hquote : ∀ c rest tail, '"' :: rest ≠ escapeQuoted c ++ tail := by
    intro c rest tail he
    unfold escapeQuoted at he
    split at he <;> rename_i hc <;>
      simp only [List.cons_append, List.nil_append, List.cons.injEq] at he
    · exact absurd he.1 (by decide)
    · exact hc (.inr he.1.symm)
  induction a generalizing b with
  | nil =>
    cases b with
    | nil => simpa using h
    | cons d b => exact absurd h (by simpa using hquote d r _)
  | cons c a ih =>
    cases b with
    | nil => exact absurd h.symm (by simpa using hquote c s _)
    | cons d b =>
      simp only [List.flatMap_cons, List.append_assoc] at h
      obtain ⟨rfl, hrest⟩ := escapeQuoted_append_inj h
      obtain ⟨rfl, rfl⟩ := ih hrest
      exact ⟨rfl, rfl⟩

theorem charlist_append_inj {a b r s : List Char} (ha : '\'' ∉ a) (hb : '\'' ∉ b)
    (h : a ++ '\'' :: r = b ++ '\'' :: s) : a = b ∧ r = s := by
  induction a generalizing b with
  | nil =>
    cases b with
    | nil => simpa using h
    | cons d b => exact absurd (List.cons.inj h).1 fun he => hb (he ▸ List.mem_cons_self)
  | cons c a ih =>
    cases b with
    | nil => exact absurd (List.cons.inj h).1 fun he => ha (he ▸ List.mem_cons_self)
    | cons d b =>
      obtain ⟨rfl, hrest⟩ := List.cons.inj h
      obtain ⟨rfl, rfl⟩ := ih (fun hc => ha (List.mem_cons_of_mem _ hc))
        (fun hd => hb (List.mem_cons_of_mem _ hd)) hrest
      exact ⟨rfl, rfl⟩

/-! ### The first character -/

/-- What the first character of a term tells about its form. -/
def Opens (c : Char) : Term → Prop
  | .word _ => isInitial c = true
  | .string _ => c = '"'
  | .charlist _ => c = '\''
  | .tuple _ => c = '{'
  | .list _ => c = '['

theorem exists_opens {a : Term} (ha : a.IsReadable) : ∃ c cs, a.text = c :: cs ∧ a.Opens c := by
  cases a with
  | word letters =>
    obtain ⟨initial, body, braces, rfl, hinitial, -⟩ := ha
    exact ⟨initial, body ++ braces, rfl, hinitial⟩
  | string value => exact ⟨_, _, rfl, rfl⟩
  | charlist value => exact ⟨_, _, rfl, rfl⟩
  | tuple parts => exact ⟨_, _, rfl, rfl⟩
  | list items => exact ⟨_, _, rfl, rfl⟩

theorem not_opens_close {a : Term} {close : Char} (hclose : close = '}' ∨ close = ']') :
    ¬ a.Opens close := by
  rcases hclose with rfl | rfl <;> cases a <;> simp [Opens, isInitial, isLetter]

theorem exists_opens_both {a b : Term} {r s : List Char} (ha : a.IsReadable) (hb : b.IsReadable)
    (h : a.text ++ r = b.text ++ s) : ∃ c, a.Opens c ∧ b.Opens c := by
  obtain ⟨c, cs, hc, hopens⟩ := exists_opens ha
  obtain ⟨d, ds, hd, hopens'⟩ := exists_opens hb
  rw [hc, hd, List.cons_append, List.cons_append] at h
  obtain ⟨rfl, -⟩ := List.cons.inj h
  exact ⟨c, hopens, hopens'⟩

/-! ### Rows of terms -/

/-- A term that is found again in any text that starts with it. -/
def IsFound (a : Term) : Prop :=
  ∀ (b : Term) (r s : List Char), b.IsReadable → Stops r → Stops s →
    a.text ++ r = b.text ++ s → a = b ∧ r = s

section Rows

variable {close : Char} (hclose : close = '}' ∨ close = ']') {as bs : List Term} {r s : List Char}

include hclose

theorem further_append_inj (has : ∀ a ∈ as, a.IsFound) (hbs : AllReadable bs)
    (h : further close (texts as) ++ r = further close (texts bs) ++ s) : as = bs ∧ r = s := by
  have hcomma : close ≠ ',' := by
    rcases hclose with rfl | rfl <;> decide
  induction as generalizing bs with
  | nil =>
    cases bs with
    | nil => simpa [further, texts] using h
    | cons b bs => exact absurd (List.cons.inj h).1 hcomma
  | cons a as ih =>
    cases bs with
    | nil => exact absurd (List.cons.inj h).1.symm hcomma
    | cons b bs =>
      have hrow : a.text ++ (further close (texts as) ++ r) =
          b.text ++ (further close (texts bs) ++ s) := by
        simpa [further, texts] using h
      obtain ⟨rfl, hrest⟩ := has a List.mem_cons_self b _ _ hbs.1 (stops_further close hclose _ r)
        (stops_further close hclose _ s) hrow
      obtain ⟨rfl, rfl⟩ := ih (fun x hx => has x (List.mem_cons_of_mem _ hx)) hbs.2 hrest
      exact ⟨rfl, rfl⟩

theorem joined_append_inj (has : ∀ a ∈ as, a.IsFound) (hreadable : AllReadable as)
    (hbs : AllReadable bs) (h : joined close (texts as) ++ r = joined close (texts bs) ++ s) :
    as = bs ∧ r = s := by
  have hopen : ∀ (a : Term) (rest tail : List Char), a.IsReadable →
      close :: rest ≠ a.text ++ tail := by
    intro a rest tail ha he
    obtain ⟨c, cs, hc, hopens⟩ := exists_opens ha
    rw [hc] at he
    obtain ⟨rfl, -⟩ := List.cons.inj he
    exact not_opens_close hclose hopens
  cases as with
  | nil =>
    cases bs with
    | nil => simpa [joined, texts] using h
    | cons b bs => exact absurd h (by simpa [joined, texts] using hopen b _ _ hbs.1)
  | cons a as =>
    cases bs with
    | nil => exact absurd h.symm (by simpa [joined, texts] using hopen a _ _ hreadable.1)
    | cons b bs => exact further_append_inj hclose has hbs (by simpa [further, joined, texts] using h)

end Rows

/-! ### Unique readability -/

mutual

/-- A readable term is found again, whatever stands behind it. -/
theorem isFound : (a : Term) → a.IsReadable → a.IsFound
  | .word letters, ha => by
    intro b r s hb hr hs h
    obtain ⟨c, hc, hopens⟩ := exists_opens_both ha hb h
    cases b with
    | word letters' =>
      obtain ⟨rfl, rfl⟩ := word_append_inj ha hb hr hs h
      exact ⟨rfl, rfl⟩
    | _ => cases hopens; cases hc
  | .string value, ha => by
    intro b r s hb _ _ h
    obtain ⟨c, hc, hopens⟩ := exists_opens_both ha hb h
    cases hc
    cases b with
    | string value' =>
      obtain ⟨rfl, rfl⟩ := string_append_inj (a := value) (b := value') (by simpa [text] using h)
      exact ⟨rfl, rfl⟩
    | _ => cases hopens
  | .charlist value, ha => by
    intro b r s hb _ _ h
    obtain ⟨c, hc, hopens⟩ := exists_opens_both ha hb h
    cases hc
    cases b with
    | charlist value' =>
      obtain ⟨rfl, rfl⟩ := charlist_append_inj ha hb (by simpa [text] using h)
      exact ⟨rfl, rfl⟩
    | _ => cases hopens
  | .tuple parts, ha => by
    intro b r s hb _ _ h
    obtain ⟨c, hc, hopens⟩ := exists_opens_both ha hb h
    cases hc
    cases b with
    | tuple parts' =>
      obtain ⟨rfl, rfl⟩ := joined_append_inj (.inl rfl) (allFound parts ha) ha hb
        (List.cons.inj h).2
      exact ⟨rfl, rfl⟩
    | _ => cases hopens
  | .list items, ha => by
    intro b r s hb _ _ h
    obtain ⟨c, hc, hopens⟩ := exists_opens_both ha hb h
    cases hc
    cases b with
    | list items' =>
      obtain ⟨rfl, rfl⟩ := joined_append_inj (.inr rfl) (allFound items ha) ha hb
        (List.cons.inj h).2
      exact ⟨rfl, rfl⟩
    | _ => cases hopens

theorem allFound : (as : List Term) → AllReadable as → ∀ a ∈ as, a.IsFound
  | [], _ => by simp
  | a :: as, h => by
    intro x hx
    cases hx with
    | head => exact isFound a h.1
    | tail _ hx => exact allFound as h.2 x hx

end

/-- Readable terms with the same text are the same. -/
theorem text_injective {a b : Term} (ha : a.IsReadable) (hb : b.IsReadable)
    (h : a.text = b.text) : a = b :=
  (isFound a ha b [] [] hb stops_nil stops_nil (by rw [h])).1

end Term

end LineScope
