import LineScope.Proofs.Grammar.Opener
import Mathlib.Data.List.Forall2

/-!
# The innermost unclosed block

An opener of a block is unmatched if behind it the words that close a block never outnumber those
that open one.  The scan for unclosed blocks answers with the last unmatched opener.  The position
of a word in the blanked text has an origin in the source, and as many line feeds stand before the
one as before the other, so the line of the answer is the line of the word in the source.
-/

namespace LineScope.Grammar

/-! ### Unmatched openers -/

section Unmatched

variable {α β : Type} (closes : α → Bool)

/-- How many more of some words open a block than close one. -/
def surplus (words : List α) : Int := words.countP (!closes ·) - words.countP closes

/-- A word opens a block that none of the words behind it closes: among those up to any of them, the
ones that close a block do not outnumber the ones that open one. -/
def Unmatched (words : List α) (i : Nat) : Prop :=
  (∃ word, words[i]? = some word ∧ closes word = false) ∧
    ∀ n, ((words.drop (i + 1)).take n).countP closes ≤
      ((words.drop (i + 1)).take n).countP (!closes ·)

/-- The last unmatched opener. -/
def Innermost (words : List α) (i : Nat) : Prop :=
  Unmatched closes words i ∧ ∀ j, Unmatched closes words j → j ≤ i

theorem unmatched_map (f : β → α) (words : List β) (i : Nat) :
    Unmatched closes (words.map f) i ↔ Unmatched (fun word => closes (f word)) words i := by
  simp only [Unmatched, List.getElem?_map, Option.map_eq_some_iff, ← List.map_drop, ← List.map_take,
    List.countP_map, Function.comp_def]
  constructor
  · rintro ⟨⟨_, ⟨word, hword, rfl⟩, hopens⟩, hparts⟩
    exact ⟨⟨word, hword, hopens⟩, hparts⟩
  · rintro ⟨⟨word, hword, hopens⟩, hparts⟩
    exact ⟨⟨_, ⟨word, hword, rfl⟩, hopens⟩, hparts⟩

theorem innermost_map (f : β → α) (words : List β) (i : Nat) :
    Innermost closes (words.map f) i ↔ Innermost (fun word => closes (f word)) words i := by
  simp only [Innermost, unmatched_map]

variable {closes}

theorem Unmatched.lt_length {words : List α} {i : Nat} (h : Unmatched closes words i) :
    i < words.length := by
  obtain ⟨⟨word, hword, -⟩, -⟩ := h
  exact (List.getElem?_eq_some_iff.mp hword).1

theorem surplus_append_singleton (words : List α) (word : α) :
    surplus closes (words ++ [word]) =
      surplus closes words + if closes word = true then -1 else 1 := by
  cases hword : closes word <;> simp [surplus, hword] <;> omega

/-- One more word leaves an earlier opener unmatched as long as it does not close its block. -/
theorem unmatched_append_of_lt (words : List α) (word : α) (i : Nat) (hi : i < words.length) :
    Unmatched closes (words ++ [word]) i ↔
      Unmatched closes words i ∧ 0 ≤ surplus closes (words.drop (i + 1) ++ [word]) := by
  have hdrop : (words ++ [word]).drop (i + 1) = words.drop (i + 1) ++ [word] :=
    List.drop_append_of_le_length hi
  simp only [Unmatched, List.getElem?_append_left hi, hdrop]
  constructor
  · rintro ⟨hword, hparts⟩
    refine ⟨⟨hword, fun n => ?_⟩, ?_⟩
    · have hpart := hparts (min n (words.drop (i + 1)).length)
      rwa [List.take_append_of_le_length (Nat.min_le_right _ _), ← List.take_take,
        List.take_length] at hpart
    · have hall := hparts (words.drop (i + 1) ++ [word]).length
      rw [List.take_length] at hall
      simp only [surplus]
      omega
  · rintro ⟨⟨hword, hparts⟩, hsurplus⟩
    refine ⟨hword, fun n => ?_⟩
    by_cases hn : n ≤ (words.drop (i + 1)).length
    · rw [List.take_append_of_le_length hn]
      exact hparts n
    · rw [List.take_of_length_le (by simp only [List.length_append, List.length_singleton]; omega)]
      simp only [surplus] at hsurplus
      omega

theorem unmatched_last (words : List α) (word : α) (h : closes word = false) :
    Unmatched closes (words ++ [word]) words.length := by
  refine ⟨⟨word, by simp, h⟩, fun n => ?_⟩
  rw [List.drop_of_length_le (by simp)]
  simp

/-- For an unmatched opener, the words behind it never close more blocks than they open. -/
theorem Unmatched.surplus_nonneg {words : List α} {i : Nat} (h : Unmatched closes words i) :
    0 ≤ surplus closes (words.drop (i + 1)) := by
  have hall := h.2 (words.drop (i + 1)).length
  rw [List.take_length] at hall
  simp only [surplus]
  omega

/-- A word that opens a block is unmatched at first and leaves all others as they were. -/
theorem unmatched_append_open (words : List α) (word : α) (h : closes word = false) (i : Nat) :
    Unmatched closes (words ++ [word]) i ↔ i = words.length ∨ Unmatched closes words i := by
  constructor
  · intro hi
    have hlt := hi.lt_length
    simp only [List.length_append, List.length_singleton] at hlt
    by_cases hlast : i = words.length
    · exact .inl hlast
    · exact .inr ((unmatched_append_of_lt words word i (by omega)).mp hi).1
  · rintro (rfl | hi)
    · exact unmatched_last words word h
    · refine (unmatched_append_of_lt words word i hi.lt_length).mpr ⟨hi, ?_⟩
      have hnonneg := hi.surplus_nonneg
      rw [surplus_append_singleton, if_neg (by rw [h]; exact Bool.false_ne_true)]
      omega

/-- A word that closes a block matches an opener behind which all blocks are closed. -/
theorem unmatched_append_close (words : List α) (word : α) (h : closes word = true) (i : Nat) :
    Unmatched closes (words ++ [word]) i ↔
      Unmatched closes words i ∧ 0 < surplus closes (words.drop (i + 1)) := by
  by_cases hi : i < words.length
  · rw [unmatched_append_of_lt words word i hi, surplus_append_singleton, if_pos h]
    exact and_congr_right fun _ => by omega
  · constructor
    · intro hunmatched
      have hlt := hunmatched.lt_length
      simp only [List.length_append, List.length_singleton] at hlt
      obtain rfl : i = words.length := by omega
      obtain ⟨⟨other, hother, hopens⟩, -⟩ := hunmatched
      obtain rfl : word = other := by simpa using hother
      rw [h] at hopens
      cases hopens
    · rintro ⟨hunmatched, -⟩
      exact absurd hunmatched.lt_length hi

end Unmatched

/-! ### The stack of open blocks -/

/-- Whether a word closes a block. -/
def BlockWord.closes : BlockWord → Bool
  | .open_ _ _ => false
  | .close => true

/-- The open blocks behind some words, with the indices of the words that open them, innermost
first. -/
structure Tracks (words : List BlockWord) (indices : List Nat) : Prop where
  entries : List.Forall₂ (fun entry i => words[i]? = some (.open_ entry.1 entry.2))
    (openBlocks words) indices
  descending : indices.Pairwise (· > ·)
  /-- The words behind an open block open one block for each that lies further inside. -/
  unmatched : ∀ k i : Nat, indices[k]? = some i →
    Unmatched BlockWord.closes words i ∧ surplus BlockWord.closes (words.drop (i + 1)) = k
  complete : ∀ i, Unmatched BlockWord.closes words i → i ∈ indices

theorem entries_append {words : List BlockWord} {entries : List (String × Nat)}
    {indices : List Nat} (word : BlockWord)
    (h : List.Forall₂ (fun entry i => words[i]? = some (.open_ entry.1 entry.2)) entries indices) :
    List.Forall₂ (fun entry i => (words ++ [word])[i]? = some (.open_ entry.1 entry.2))
      entries indices := by
  refine List.Forall₂.imp (fun entry i hentry => ?_) h
  rw [List.getElem?_append_left (List.getElem?_eq_some_iff.mp hentry).1]
  exact hentry

theorem surplus_drop_append {words : List BlockWord} (word : BlockWord) {i : Nat}
    (h : i < words.length) :
    surplus BlockWord.closes ((words ++ [word]).drop (i + 1)) =
      surplus BlockWord.closes (words.drop (i + 1)) + if word.closes = true then -1 else 1 := by
  rw [List.drop_append_of_le_length h, surplus_append_singleton]

theorem Tracks.open_ {words : List BlockWord} {indices : List Nat} (h : Tracks words indices)
    (word : String) (line : Nat) :
    Tracks (words ++ [.open_ word line]) (words.length :: indices) where
  entries := by
    rw [openBlocks_open]
    exact .cons (by simp) (entries_append _ h.entries)
  descending := by
    refine List.pairwise_cons.mpr ⟨fun i hi => ?_, h.descending⟩
    obtain ⟨k, hk⟩ := List.mem_iff_getElem?.mp hi
    exact (h.unmatched k i hk).1.lt_length
  unmatched := by
    intro k i hi
    cases k with
    | zero =>
      obtain rfl : words.length = i := by simpa using hi
      refine ⟨unmatched_last words _ rfl, ?_⟩
      rw [List.drop_of_length_le (by simp)]
      rfl
    | succ k =>
      obtain ⟨hunmatched, hsurplus⟩ := h.unmatched k i hi
      refine ⟨(unmatched_append_open words _ rfl i).mpr (.inr hunmatched), ?_⟩
      rw [surplus_drop_append _ hunmatched.lt_length, hsurplus]
      rfl
  complete := by
    intro i hi
    rcases (unmatched_append_open words (.open_ word line) rfl i).mp hi with rfl | hi
    · exact List.mem_cons_self
    · exact List.mem_cons_of_mem _ (h.complete i hi)

theorem Tracks.close {words : List BlockWord} {indices : List Nat} (h : Tracks words indices) :
    Tracks (words ++ [.close]) (indices.drop 1) where
  entries := by
    rw [openBlocks_close]
    exact entries_append _ (List.forall₂_drop 1 h.entries)
  descending := h.descending.drop
  unmatched := by
    intro k i hi
    rw [List.getElem?_drop] at hi
    obtain ⟨hunmatched, hsurplus⟩ := h.unmatched (1 + k) i hi
    refine ⟨(unmatched_append_close words .close rfl i).mpr ⟨hunmatched, by omega⟩, ?_⟩
    have hcloses : BlockWord.close.closes = true := rfl
    rw [surplus_drop_append _ hunmatched.lt_length, hsurplus, if_pos hcloses]
    omega
  complete := by
    intro i hi
    obtain ⟨hunmatched, hpos⟩ := (unmatched_append_close words .close rfl i).mp hi
    obtain ⟨k, hk⟩ := List.mem_iff_getElem?.mp (h.complete i hunmatched)
    -- the innermost open block has no surplus behind it, so this one lies further outside
    cases k with
    | zero =>
      have hsurplus := (h.unmatched 0 i hk).2
      omega
    | succ k =>
      refine List.mem_iff_getElem?.mpr ⟨k, ?_⟩
      rw [List.getElem?_drop, Nat.add_comm]
      exact hk

/-- The open blocks are those of the unmatched openers. -/
theorem exists_tracks (words : List BlockWord) : ∃ indices, Tracks words indices := by
  induction words using List.reverseRecOn with
  | nil =>
    refine ⟨[], .nil, .nil, nofun, fun i hi => ?_⟩
    exact absurd hi.lt_length (Nat.not_lt_zero i)
  | append_singleton words word ih =>
    obtain ⟨indices, h⟩ := ih
    cases word with
    | open_ word line => exact ⟨_, h.open_ word line⟩
    | close => exact ⟨_, h.close⟩

theorem openBlocks_eq_nil_iff (words : List BlockWord) :
    openBlocks words = [] ↔ ∀ i, ¬ Unmatched BlockWord.closes words i := by
  obtain ⟨indices, h⟩ := exists_tracks words
  constructor
  · intro hnil i hi
    have hentries := h.entries
    rw [hnil, List.forall₂_nil_left_iff] at hentries
    have hmem := h.complete i hi
    rw [hentries] at hmem
    cases hmem
  · intro hnone
    cases hindices : indices with
    | nil =>
      have hentries := h.entries
      rwa [hindices, List.forall₂_nil_right_iff] at hentries
    | cons i others =>
      exact absurd (h.unmatched 0 i (by rw [hindices]; rfl)).1 (hnone i)

theorem head?_openBlocks_iff (words : List BlockWord) (word : String) (line : Nat) :
    (openBlocks words).head? = some (word, line) ↔
      ∃ i, words[i]? = some (.open_ word line) ∧ Innermost BlockWord.closes words i := by
  obtain ⟨indices, h⟩ := exists_tracks words
  have hentries := h.entries
  cases hindices : indices with
  | nil =>
    rw [hindices, List.forall₂_nil_right_iff] at hentries
    rw [hentries]
    constructor
    · exact nofun
    · rintro ⟨i, -, hi, -⟩
      have hmem := h.complete i hi
      rw [hindices] at hmem
      cases hmem
  | cons top others =>
    rw [hindices, List.forall₂_cons_right_iff] at hentries
    obtain ⟨entry, entries, hentry, -, hopen⟩ := hentries
    have htop : Unmatched BlockWord.closes words top :=
      (h.unmatched 0 top (by rw [hindices]; rfl)).1
    have hlast : ∀ j, Unmatched BlockWord.closes words j → j ≤ top := by
      intro j hj
      have hmem := h.complete j hj
      have hdescending := h.descending
      rw [hindices] at hmem hdescending
      rcases List.mem_cons.mp hmem with rfl | hmem
      · exact Nat.le_refl _
      · exact Nat.le_of_lt ((List.pairwise_cons.mp hdescending).1 j hmem)
    rw [hopen, List.head?_cons, Option.some.injEq]
    constructor
    · rintro rfl
      exact ⟨top, hentry, htop, hlast⟩
    · rintro ⟨i, hi, hunmatched, hmax⟩
      obtain rfl : i = top := Nat.le_antisymm (hlast i hunmatched) (hmax top htop)
      rw [hi] at hentry
      cases hentry
      rfl

/-! ### Words and their positions -/

/-- The words of blocks in a text, each with its position. -/
def blockSites (code : List Char) : List (String × Nat) :=
  (List.range code.length).filterMap fun position =>
    (blockWordAt? (code.take position).getLast? (code.drop position)).map (·, position)

/-- Whether the word at a site closes a block. -/
def siteCloses (site : String × Nat) : Bool := site.1 == "end"

/-- The word of a block at a site of a text. -/
def blockWordOf (code : List Char) (site : String × Nat) : BlockWord :=
  if site.1 = "end" then .close else .open_ site.1 ((code.take site.2).count '\n' + 1)

theorem closes_blockWordOf (code : List Char) (site : String × Nat) :
    (blockWordOf code site).closes = siteCloses site := by
  unfold blockWordOf siteCloses
  split
  · rename_i hend
    rw [hend]
    rfl
  · rename_i hend
    exact (beq_eq_false_iff_ne.mpr hend).symm

theorem blockWords_behind (front cs : List Char) :
    blockWords front.getLast? (front.count '\n' + 1) cs =
      ((List.range' front.length cs.length).filterMap fun position =>
        (blockWordAt? ((front ++ cs).take position).getLast? ((front ++ cs).drop position)).map
          (·, position)).map (blockWordOf (front ++ cs)) := by
  induction cs generalizing front with
  | nil => rfl
  | cons c cs ih =>
    have hrest := ih (front ++ [c])
    have hcount : (front ++ [c]).count '\n' + 1 =
        if c = '\n' then front.count '\n' + 1 + 1 else front.count '\n' + 1 := by
      by_cases hc : c = '\n' <;> simp [List.count_append, hc]
    rw [List.getLast?_concat, hcount, List.length_append, List.length_singleton, List.append_assoc,
      List.singleton_append] at hrest
    rw [blockWords, hrest, List.length_cons, List.range'_succ, List.filterMap_cons,
      List.take_left' rfl, List.drop_left' rfl]
    cases blockWordAt? front.getLast? (c :: cs) with
    | none => rfl
    | some word =>
      simp only [Option.map_some, List.map_cons, blockWordOf, List.take_left' rfl]

/-- The scan meets the words of blocks at their sites. -/
theorem blockWords_eq_sites (code : List Char) :
    blockWords none 1 code = (blockSites code).map (blockWordOf code) := by
  have h := blockWords_behind [] code
  rw [List.nil_append] at h
  rw [blockSites, List.range_eq_range']
  exact h

/-! ### Origins -/

/-- The positions of the characters that blanking keeps; the first `hidden` characters belong to a
stretch that is not code, of which only the line feeds are kept. -/
def keptPositions : (hidden : Nat) → List Char → List Nat
  | _, [] => []
  | hidden + 1, c :: cs =>
    let rest := (keptPositions hidden cs).map (· + 1)
    if c = '\n' then 0 :: rest else rest
  | 0, c :: cs =>
    match nonCodeWidth (c :: cs) with
    | none => 0 :: (keptPositions 0 cs).map (· + 1)
    | some width =>
      let rest := (keptPositions (width - 1) cs).map (· + 1)
      if c = '\n' then 0 :: rest else rest

/-- The blanked text consists of the characters at the kept positions. -/
theorem getElem?_keptPositions (hidden : Nat) (cs : List Char) :
    (keptPositions hidden cs).map (cs[·]?) = (blankNonCode hidden cs).map some := by
  fun_induction blankNonCode hidden cs with
  | case1 => simp [keptPositions]
  | case2 hidden cs ih => simp [keptPositions, ← ih]
  | case3 hidden c cs hc ih => simp [keptPositions, hc, ← ih]
  | case4 c cs hwidth ih => simp [keptPositions, hwidth, ← ih]
  | case5 cs width hwidth ih => simp [keptPositions, hwidth, ← ih]
  | case6 c cs width hwidth hc ih => simp [keptPositions, hwidth, hc, ← ih]

theorem pairwise_map_succ (positions : List Nat) (h : positions.Pairwise (· < ·)) :
    (positions.map (· + 1)).Pairwise (· < ·) ∧
      (0 :: positions.map (· + 1)).Pairwise (· < ·) := by
  have hrest : (positions.map (· + 1)).Pairwise (· < ·) :=
    List.pairwise_map.mpr (h.imp fun hlt => Nat.succ_lt_succ hlt)
  refine ⟨hrest, List.pairwise_cons.mpr ⟨fun position hp => ?_, hrest⟩⟩
  obtain ⟨before, -, rfl⟩ := List.mem_map.mp hp
  exact Nat.succ_pos before

/-- Blanking keeps the order of characters. -/
theorem pairwise_keptPositions (hidden : Nat) (cs : List Char) :
    (keptPositions hidden cs).Pairwise (· < ·) := by
  fun_induction keptPositions hidden cs with
  | case1 => exact .nil
  | case2 hidden cs rest ih => exact (pairwise_map_succ _ ih).2
  | case3 hidden c cs rest hc ih => exact (pairwise_map_succ _ ih).1
  | case4 c cs hwidth ih => exact (pairwise_map_succ _ ih).2
  | case5 cs width hwidth rest ih => exact (pairwise_map_succ _ ih).2
  | case6 c cs width hwidth rest hc ih => exact (pairwise_map_succ _ ih).1

section Counts

variable (c : Char) (cs code : List Char) (positions : List Nat)
  (h : ∀ position origin, positions[position]? = some origin →
    (cs.take origin).count '\n' = (code.take position).count '\n')

include h

theorem count_behind_kept (position origin : Nat)
    (hat : (0 :: positions.map (· + 1))[position]? = some origin) :
    ((c :: cs).take origin).count '\n' = ((c :: code).take position).count '\n' := by
  cases position with
  | zero =>
    obtain rfl : 0 = origin := by simpa using hat
    rfl
  | succ position =>
    rw [List.getElem?_cons_succ, List.getElem?_map] at hat
    obtain ⟨before, hbefore, rfl⟩ := Option.map_eq_some_iff.mp hat
    rw [List.take_succ_cons, List.take_succ_cons, List.count_cons, List.count_cons,
      h position before hbefore]

theorem count_behind_hidden (hc : c ≠ '\n') (position origin : Nat)
    (hat : (positions.map (· + 1))[position]? = some origin) :
    ((c :: cs).take origin).count '\n' = (code.take position).count '\n' := by
  rw [List.getElem?_map] at hat
  obtain ⟨before, hbefore, rfl⟩ := Option.map_eq_some_iff.mp hat
  rw [List.take_succ_cons, List.count_cons_of_ne hc, h position before hbefore]

end Counts

/-- As many line feeds stand before a kept character in the source as in the blanked text. -/
theorem count_before_kept (hidden : Nat) (cs : List Char) (position origin : Nat)
    (hat : (keptPositions hidden cs)[position]? = some origin) :
    (cs.take origin).count '\n' = ((blankNonCode hidden cs).take position).count '\n' := by
  fun_induction blankNonCode hidden cs generalizing position origin with
  | case1 => simp [keptPositions] at hat
  | case2 hidden cs ih =>
    simp only [keptPositions, if_true] at hat
    exact count_behind_kept _ cs _ _ ih position origin hat
  | case3 hidden c cs hc ih =>
    simp only [keptPositions, if_neg hc] at hat
    exact count_behind_hidden c cs _ _ ih hc position origin hat
  | case4 c cs hwidth ih =>
    simp only [keptPositions, hwidth] at hat
    exact count_behind_kept c cs _ _ ih position origin hat
  | case5 cs width hwidth ih =>
    simp only [keptPositions, hwidth, if_true] at hat
    exact count_behind_kept _ cs _ _ ih position origin hat
  | case6 c cs width hwidth hc ih =>
    simp only [keptPositions, hwidth, if_neg hc] at hat
    exact count_behind_hidden c cs _ _ ih hc position origin hat

/-- Every position of the blanked text has an origin. -/
theorem exists_origin (cs : List Char) (position : Nat)
    (h : position < (blankNonCode 0 cs).length) :
    ∃ origin, (keptPositions 0 cs)[position]? = some origin := by
  have hlength := congrArg List.length (getElem?_keptPositions 0 cs)
  simp only [List.length_map] at hlength
  exact ⟨_, List.getElem?_eq_getElem (hlength ▸ h)⟩

/-! ### The innermost unclosed block -/

theorem lt_length_of_mem_blockSites (code : List Char) (site : String × Nat)
    (h : site ∈ blockSites code) : site.2 < code.length := by
  obtain ⟨position, hposition, hsite⟩ := List.mem_filterMap.mp h
  obtain ⟨word, -, rfl⟩ := Option.map_eq_some_iff.mp hsite
  exact List.mem_range.mp hposition

theorem innermost_sites_iff (code : List Char) (i : Nat) :
    Innermost BlockWord.closes ((blockSites code).map (blockWordOf code)) i ↔
      Innermost siteCloses (blockSites code) i := by
  rw [innermost_map]
  simp only [closes_blockWordOf]

/-- The word of an innermost unclosed block with its line, by its site in the blanked text. -/
theorem unclosedOpener_eq_some_iff (source : List Char) (word : String) (line : Nat) :
    unclosedOpener source = some (word, line) ↔
      ∃ i position, (blockSites (blankNonCode 0 source))[i]? = some (word, position) ∧
        Innermost siteCloses (blockSites (blankNonCode 0 source)) i ∧
        line = ((blankNonCode 0 source).take position).count '\n' + 1 := by
  rw [unclosedOpener, head?_openBlocks_iff]
  simp only [blockWords_eq_sites, innermost_sites_iff, List.getElem?_map]
  constructor
  · rintro ⟨i, hword, hinnermost⟩
    obtain ⟨⟨name, position⟩, hsite, hopen⟩ := Option.map_eq_some_iff.mp hword
    unfold blockWordOf at hopen
    split at hopen
    · cases hopen
    · cases hopen
      exact ⟨i, position, hsite, hinnermost, rfl⟩
  · rintro ⟨i, position, hsite, hinnermost, rfl⟩
    refine ⟨i, ?_, hinnermost⟩
    obtain ⟨⟨site, hsame, hopens⟩, -⟩ := hinnermost.1
    obtain rfl := Option.some.inj (hsite.symm.trans hsame)
    rw [hsite, Option.map_some, blockWordOf, if_neg (beq_eq_false_iff_ne.mp hopens)]

/-- No unclosed block is found exactly if no opener is unmatched.  Otherwise the answer is the word
of the last unmatched opener, with the line on which its first character stands in the source. -/
theorem unclosedOpener_innermost (source : List Char) :
    ((keptPositions 0 source).Pairwise (· < ·) ∧
      (keptPositions 0 source).map (source[·]?) = (blankNonCode 0 source).map some) ∧
    (unclosedOpener source = none ↔
      ∀ i, ¬ Unmatched siteCloses (blockSites (blankNonCode 0 source)) i) ∧
    ∀ word line, unclosedOpener source = some (word, line) ↔
      ∃ i position origin, (blockSites (blankNonCode 0 source))[i]? = some (word, position) ∧
        Innermost siteCloses (blockSites (blankNonCode 0 source)) i ∧
        (keptPositions 0 source)[position]? = some origin ∧
        line = (source.take origin).count '\n' + 1 := by
  refine ⟨⟨pairwise_keptPositions 0 source, getElem?_keptPositions 0 source⟩, ?_, ?_⟩
  · rw [unclosedOpener, List.head?_eq_none_iff, openBlocks_eq_nil_iff, blockWords_eq_sites]
    simp only [unmatched_map, closes_blockWordOf]
  · intro word line
    rw [unclosedOpener_eq_some_iff]
    constructor
    · rintro ⟨i, position, hsite, hinnermost, rfl⟩
      obtain ⟨origin, horigin⟩ := exists_origin source position
        (lt_length_of_mem_blockSites _ _ (List.mem_of_getElem? hsite))
      exact ⟨i, position, origin, hsite, hinnermost, horigin,
        by rw [count_before_kept 0 source position origin horigin]⟩
    · rintro ⟨i, position, origin, hsite, hinnermost, horigin, rfl⟩
      exact ⟨i, position, hsite, hinnermost,
        by rw [count_before_kept 0 source position origin horigin]⟩

/-- An opener may be put together from what is left around a text. -/
example : unclosedOpener "\"do\" fn\nend\n d\"x\"o".toList = some ("do", 3) := by decide +kernel

end LineScope.Grammar
