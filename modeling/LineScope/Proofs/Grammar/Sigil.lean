import LineScope.Grammar.Decode
import LineScope.Proofs.Grammar.Enclosing

/-!
# Parts of sigils

The end of a sigil token is found from the left, as the first closing delimiter that is not escaped,
and its content is split off from the right, at the last one.  Behind the closing delimiter only
letters follow, so the two are the same.
-/

namespace LineScope.Grammar

open Terminal

/-! ### Delimiters -/

/-- The opening and closing delimiters of sigils. -/
def sigilPairs : List (List Char × List Char) :=
  [(threeOf '"', threeOf '"'), (threeOf '\'', threeOf '\'')] ++
    sigilDelimiters.map fun d => ([d.1], [d.2.1])

/-- A text between delimiters.  A closing delimiter stands in it only if it is a single character, and
behind a backslash. -/
structure Delimited (opening content close : List Char) : Prop where
  pair : (opening, close) ∈ sigilPairs
  closed : ∀ x y, content = x ++ (close ++ y) → close.length = 1 ∧ x.getLast? = some '\\'

/-- A sigil in parts. -/
structure SigilParts (text : List Char) (letter : Char)
    (opening content close modifiers : List Char) : Prop extends
    Delimited opening content close where
  text : text = '~' :: letter :: (opening ++ (content ++ (close ++ modifiers)))
  letter : letter.isAlpha = true
  modifiers : ∀ c ∈ modifiers, c.isAlpha = true

theorem sigilPairs_marks : ∀ p ∈ sigilPairs, p.1.length = p.2.length ∧ '\n' ∉ p.1 ∧ p.2 ≠ [] ∧
    ∀ c ∈ p.2, c ≠ '(' ∧ isNameChar c = false ∧ c.isAlpha = false := by
  intro p hp
  simp only [sigilPairs, sigilDelimiters, List.map_cons, List.map_nil, List.cons_append,
    List.nil_append, List.mem_cons, List.not_mem_nil, or_false] at hp
  rcases hp with rfl | rfl | rfl | rfl | rfl | rfl | rfl | rfl | rfl | rfl <;>
    simp only [threeOf, List.forall_mem_cons, List.not_mem_nil, false_implies, implies_true] <;>
    decide

theorem sigilPairs_inv (opening close : List Char) (h : (opening, close) ∈ sigilPairs) :
    (∃ mark, (mark = '"' ∨ mark = '\'') ∧ opening = threeOf mark ∧ close = threeOf mark) ∨
      ∃ d ∈ sigilDelimiters, opening = [d.1] ∧ close = [d.2.1] := by
  rcases List.mem_append.mp h with h | h
  · rcases List.mem_cons.mp h with h | h
    · cases h
      exact .inl ⟨'"', .inl rfl, rfl, rfl⟩
    · cases List.mem_singleton.mp h
      exact .inl ⟨'\'', .inr rfl, rfl, rfl⟩
  · obtain ⟨d, hd, hpair⟩ := List.mem_map.mp h
    cases hpair
    exact .inr ⟨d, hd, rfl, rfl⟩

theorem sigilDelimiters_cases : ∀ d ∈ sigilDelimiters, d.2.1 ≠ '\\' ∧
    Decode.closer d.1 = d.2.1 ∧ ((d.1 = '"' ∨ d.1 = '\'') → d.2.1 = d.1) := by
  intro d hd
  simp only [sigilDelimiters, List.mem_cons, List.not_mem_nil, or_false] at hd
  rcases hd with rfl | rfl | rfl | rfl | rfl | rfl | rfl | rfl <;> decide

/-! ### From the left -/

namespace Terminal

theorem delimited_of_heredocWidth (mark : Char) (hmark : mark = '"' ∨ mark = '\'')
    (cs : List Char) (w : Nat) (h : heredocWidth mark cs = some w) :
    ∃ opening content close rest, cs = opening ++ (content ++ (close ++ rest)) ∧
      w = (opening ++ (content ++ close)).length ∧ Delimited opening content close := by
  obtain ⟨content, rest, hcs, hw, hinfix⟩ := heredocWidth_split mark cs w h
  refine ⟨threeOf mark, content, threeOf mark, rest, hcs, ?_, ?_, fun x y hsplit => ?_⟩
  · simp only [hw, threeOf, List.length_append, List.length_cons, List.length_nil]
    omega
  · rcases hmark with rfl | rfl <;> decide
  · exact absurd ⟨x, y, by rw [hsplit, List.append_assoc]⟩ hinfix

theorem delimited_of_sigilBodyWidth (cs : List Char) (w : Nat) (h : sigilBodyWidth cs = some w) :
    ∃ opening content close rest, cs = opening ++ (content ++ (close ++ rest)) ∧
      w = (opening ++ (content ++ close)).length ∧ Delimited opening content close := by
  obtain ⟨⟨opening, close, plain⟩, hd, hwidth⟩ := List.exists_of_findSome?_eq_some h
  have hslash : close ≠ '\\' := (sigilDelimiters_cases _ hd).1
  dsimp only at hwidth
  split at hwidth
  · cases hwidth
  · rename_i c rest
    split at hwidth
    · rename_i hc
      obtain ⟨inner, hinner, rfl⟩ := Option.map_eq_some_iff.mp hwidth
      obtain ⟨content, behind, rfl, rfl, hguarded⟩ :=
        closingWidth_split close plain inLine hslash rest inner hinner
      refine ⟨[opening], content, [close], behind, by rw [hc]; rfl, ?_, ?_, fun x y hsplit => ?_⟩
      · simp only [List.length_append, List.length_cons, List.length_nil]
        omega
      · exact List.mem_append_right _ (List.mem_map.mpr ⟨_, hd, rfl⟩)
      · exact ⟨rfl, hguarded x y hsplit⟩
    · cases hwidth

/-- What a sigil terminal takes is a sigil, whatever follows. -/
theorem take_sigil (before : Option Char) (cs : List Char) (w : Nat) (h : sigil before cs = some w) :
    ∃ letter opening content close modifiers,
      SigilParts (cs.take w) letter opening content close modifiers := by
  unfold sigil sigilWidth at h
  split at h
  · rename_i letter cs
    split at h
    · rename_i hletter
      obtain ⟨width, hwidth, rfl⟩ := Option.map_eq_some_iff.mp h
      obtain ⟨opening, content, close, rest, rfl, rfl, hdelimited⟩ :
          ∃ opening content close rest, cs = opening ++ (content ++ (close ++ rest)) ∧
            width = (opening ++ (content ++ close)).length ∧ Delimited opening content close := by
        simp only [Option.or_eq_some_iff] at hwidth
        rcases hwidth with hwidth | ⟨-, hwidth | ⟨-, hwidth⟩⟩
        · exact delimited_of_heredocWidth '"' (.inl rfl) cs width hwidth
        · exact delimited_of_heredocWidth '\'' (.inr rfl) cs width hwidth
        · exact delimited_of_sigilBodyWidth cs width hwidth
      have hsplit : opening ++ (content ++ (close ++ rest)) =
          opening ++ (content ++ close) ++ rest := by
        simp only [List.append_assoc]
      rw [hsplit, List.drop_left, List.take_succ_cons, List.take_succ_cons, List.take_length_add_append,
        take_runWidth]
      refine ⟨letter, opening, content, close, rest.takeWhile Char.isAlpha, hdelimited, ?_, hletter,
        fun c hc => List.mem_takeWhile_imp hc⟩
      simp only [List.append_assoc]
    · cases h
  · cases h

end Terminal

section Parts

variable {text : List Char} {letter : Char} {opening content close modifiers : List Char}
  (h : SigilParts text letter opening content close modifiers)

include h

theorem SigilParts.letter_ne_newline : letter ≠ '\n' :=
  fun he => absurd (he ▸ h.letter) (by decide)

theorem SigilParts.newline_notMem : '\n' ∉ opening := (sigilPairs_marks _ h.pair).2.1

theorem SigilParts.paren_notMem : '(' ∉ close ++ modifiers := by
  rw [List.mem_append, not_or]
  refine ⟨fun hmem => ?_, fun hmem => absurd (h.modifiers _ hmem) (by decide)⟩
  exact ((sigilPairs_marks _ h.pair).2.2.2 _ hmem).1 rfl

/-- Three quotes behind the letter are the opening delimiter. -/
theorem SigilParts.three (mark : Char) (hmark : mark = '"' ∨ mark = '\'')
    (hthree : threeOf mark <+: opening ++ (content ++ (close ++ modifiers))) :
    opening = threeOf mark ∧ close = threeOf mark := by
  obtain ⟨tail, htail⟩ := hthree
  rcases sigilPairs_inv opening close h.pair with ⟨other, -, rfl, rfl⟩ | ⟨d, hd, rfl, rfl⟩
  · obtain rfl : mark = other := (List.cons.inj htail).1
    exact ⟨rfl, rfl⟩
  · -- a single quote would be closed by the second one, and the third one is no letter
    exfalso
    obtain ⟨hopening, hrest⟩ := List.cons.inj htail
    have hclose : d.2.1 = mark := by
      rw [(sigilDelimiters_cases d hd).2.2 (hopening ▸ hmark), hopening]
    rw [hclose] at hrest
    cases hcontent : content with
    | nil =>
      rw [hcontent] at hrest
      have hmods : mark :: tail = modifiers := (List.cons.inj hrest).2
      have hletter := h.modifiers mark (hmods ▸ List.mem_cons_self)
      rcases hmark with rfl | rfl
      · exact absurd hletter (by decide)
      · exact absurd hletter (by decide)
    | cons c content =>
      rw [hcontent] at hrest
      obtain ⟨hc, -⟩ := List.cons.inj hrest
      have hfirst : c :: content = [] ++ ([d.2.1] ++ content) := by rw [hclose, hc]; rfl
      cases (h.closed [] content (hcontent.trans hfirst)).2

end Parts

theorem Terminal.enclosing_sigil : Enclosing Terminal.sigil := by
  refine enclosing_of_head Terminal.sigil '~' (by decide) (by decide) (fun before cs w hw => ?_)
    fun before cs w hw _ => ?_
  · obtain ⟨letter, opening, content, close, modifiers, hparts⟩ := take_sigil before cs w hw
    rw [hparts.text, List.head?_cons]
  · obtain ⟨letter, opening, content, close, modifiers, hparts⟩ := take_sigil before cs w hw
    obtain ⟨-, -, hne, hmarks⟩ := sigilPairs_marks _ hparts.pair
    obtain ⟨c, rest, rfl⟩ := List.exists_cons_of_ne_nil hne
    refine ⟨'~' :: letter :: (opening ++ content), c, rest ++ modifiers, ?_,
      (hmarks c List.mem_cons_self).2.1, hparts.paren_notMem⟩
    rw [hparts.text]
    simp

/-! ### From the right -/

namespace Decode

/-- Behind a single delimiter, the closing one is single too. -/
theorem sigilCloser_cons (opening : Char) (text : List Char)
    (h : ∀ mark, mark = '"' ∨ mark = '\'' → ¬ threeOf mark <+: opening :: text) :
    sigilCloser (opening :: text) = some [closer opening] := by
  unfold sigilCloser
  split
  · rename_i rest he
    exact absurd ⟨rest, he.symm⟩ (h '"' (.inl rfl))
  · rename_i rest he
    exact absurd ⟨rest, he.symm⟩ (h '\'' (.inr rfl))
  · rename_i he
    obtain ⟨rfl, rfl⟩ := List.cons.inj he
    rfl
  · rename_i he
    cases he

theorem exists_lastIndexOf? (part cs : List Char) (k : Nat) (hk : k ≤ cs.length)
    (h : part <+: cs.drop k) : ∃ i, lastIndexOf? part cs = some i ∧ k ≤ i := by
  induction cs generalizing k with
  | nil =>
    rw [List.drop_nil, List.prefix_nil] at h
    exact ⟨0, by rw [h]; rfl, hk⟩
  | cons c cs ih =>
    cases k with
    | zero =>
      rw [lastIndexOf?]
      split
      · rename_i i hi
        exact ⟨i + 1, rfl, Nat.zero_le _⟩
      · exact ⟨0, if_pos (List.isPrefixOf_iff_prefix.mpr h), Nat.le_refl _⟩
    | succ k =>
      obtain ⟨i, hi, hle⟩ := ih k (by simpa using hk) h
      exact ⟨i + 1, by rw [lastIndexOf?, hi], by omega⟩

theorem prefix_of_lastIndexOf? (part cs : List Char) (i : Nat) (h : lastIndexOf? part cs = some i) :
    part <+: cs.drop i := by
  induction cs generalizing i with
  | nil =>
    rw [lastIndexOf?] at h
    split at h
    · rename_i hempty
      rw [List.isEmpty_iff.mp hempty]
      exact List.nil_prefix
    · cases h
  | cons c cs ih =>
    rw [lastIndexOf?] at h
    split at h
    · rename_i j hj
      cases h
      exact ih j hj
    · split at h
      · rename_i hthree
        cases h
        exact List.isPrefixOf_iff_prefix.mp hthree
      · cases h

/-- An occurrence is the last one if none of its characters comes behind it. -/
theorem lastIndexOf?_append (part front behind : List Char) (hpart : part ≠ [])
    (h : ∀ c ∈ part, c ∉ behind) :
    lastIndexOf? part (front ++ (part ++ behind)) = some front.length := by
  have hhere : part <+: (front ++ (part ++ behind)).drop front.length := by
    rw [List.drop_left]
    exact List.prefix_append _ _
  obtain ⟨i, hi, hle⟩ := exists_lastIndexOf? part _ front.length (by simp) hhere
  obtain ⟨tail, htail⟩ := prefix_of_lastIndexOf? part _ i hi
  obtain ⟨j, rfl⟩ := Nat.exists_eq_add_of_le hle
  rw [List.drop_append, List.drop_of_length_le hle, List.nil_append, Nat.add_sub_cancel_left] at htail
  cases j with
  | zero => exact hi
  | succ j =>
    -- the last character of a later occurrence stands behind
    exfalso
    have hpos : 0 < part.length := List.length_pos_iff.mpr hpart
    have hlast : (part ++ tail)[part.length - 1]? =
        ((part ++ behind).drop (j + 1))[part.length - 1]? := by rw [htail]
    rw [List.getElem?_append_left (by omega), List.getElem?_drop,
      List.getElem?_append_right (by omega), List.getElem?_eq_getElem (by omega)] at hlast
    exact h _ (List.getElem_mem _) (List.mem_of_getElem? hlast.symm)

end Decode

theorem SigilParts.closer {text : List Char} {letter : Char}
    {opening content close modifiers : List Char}
    (h : SigilParts text letter opening content close modifiers) :
    Decode.sigilCloser (opening ++ (content ++ (close ++ modifiers))) = some close := by
  rcases sigilPairs_inv opening close h.pair with ⟨mark, rfl | rfl, rfl, rfl⟩ | ⟨d, hd, rfl, rfl⟩
  · rfl
  · rfl
  · rw [List.singleton_append, Decode.sigilCloser_cons, (sigilDelimiters_cases d hd).2.1]
    intro mark hmark hthree
    cases (h.three mark hmark hthree).1

theorem SigilParts.sigil_eq {text : String} {letter : Char}
    {opening content close modifiers : List Char}
    (h : SigilParts text.toList letter opening content close modifiers) :
    Decode.sigil text = .ok ⟨letter, String.ofList content, String.ofList modifiers⟩ := by
  obtain ⟨hlength, -, hne, hmarks⟩ := sigilPairs_marks _ h.pair
  have hbehind : ∀ c ∈ close, c ∉ modifiers := by
    intro c hc hmem
    have hletter := h.modifiers c hmem
    rw [(hmarks c hc).2.2] at hletter
    cases hletter
  have hlast := Decode.lastIndexOf?_append close (opening ++ content) modifiers hne hbehind
  rw [List.append_assoc] at hlast
  rw [Decode.sigil, h.text]
  dsimp only
  rw [h.closer]
  dsimp only
  rw [hlast]
  dsimp only at hlength ⊢
  rw [← List.append_assoc, List.take_left, ← hlength, List.drop_left, hlength, ← List.append_assoc,
    ← List.length_append, List.drop_left]

/-- A sigil token is split into its letter, content and modifiers, so that the token is made of them
and of a pair of delimiters, which are three quotes if three quotes stand behind the letter. -/
theorem sigil_token_splits (before : Option Char) (text : String)
    (h : Terminal.sigil before text.toList = some text.toList.length) :
    ∃ found opening close, Decode.sigil text = .ok found ∧
      SigilParts text.toList found.letter opening found.content.toList close
        found.modifiers.toList ∧
      ∀ mark, mark = '"' ∨ mark = '\'' → threeOf mark <+: text.toList.drop 2 →
        opening = threeOf mark ∧ close = threeOf mark := by
  obtain ⟨letter, opening, content, close, modifiers, hparts⟩ :=
    take_sigil before text.toList _ h
  rw [List.take_length] at hparts
  refine ⟨_, opening, close, hparts.sigil_eq, ?_, fun mark hmark hthree => ?_⟩
  · rw [String.toList_ofList, String.toList_ofList]
    exact hparts
  · rw [hparts.text] at hthree
    exact hparts.three mark hmark hthree

theorem sigil_token_splits_escapedCloser :
    Terminal.sigil none "~w(a\\)(b)c".toList = some "~w(a\\)(b)c".toList.length ∧
      Decode.sigil "~w(a\\)(b)c" = .ok ⟨'w', "a\\)(b", "c"⟩ ∧
      ∃ opening close,
        SigilParts "~w(a\\)(b)c".toList 'w' opening "a\\)(b".toList close "c".toList := by
  have htoken : Terminal.sigil none "~w(a\\)(b)c".toList =
      some "~w(a\\)(b)c".toList.length := by
    have hlength : "~w(a\\)(b)c".toList.length = 10 := by decide
    rw [hlength]
    decide +kernel
  have hvalue : (Decode.sigil "~w(a\\)(b)c").toOption = some ⟨'w', "a\\)(b", "c"⟩ := by
    decide +kernel
  obtain ⟨found, opening, close, hfound, hparts, -⟩ := sigil_token_splits none _ htoken
  rw [hfound] at hvalue
  obtain rfl := Option.some.inj hvalue
  exact ⟨htoken, hfound, opening, close, hparts⟩

end LineScope.Grammar
