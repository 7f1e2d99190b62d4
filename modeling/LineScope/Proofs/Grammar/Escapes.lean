import LineScope.Node.Printed
import LineScope.Proofs.Grammar.Decode

/-!
# Escapes

A string in its quoted form is one token, whatever it holds, and the token denotes the string.  The
decoder knows no interpolations: it resolves the escapes in them like all others, so an interpolation
keeps its text exactly if there is no backslash in it.
-/

namespace LineScope.Grammar

open Terminal

/-! ### Quoted strings -/

namespace Terminal

/-- Inside an interpolation the next character counts as one, whether it closes it or not. -/
theorem holeWidth_cons (close c : Char) (cs : List Char) (n : Nat)
    (hclosed : c = '\x7d' → interpolatedWidth close false cs = some n)
    (hhole : ∀ w, interpolatedWidth close true cs = some w → w = n) (w : Nat)
    (hw : interpolatedWidth close true (c :: cs) = some w) : w = n + 1 := by
  rw [interpolatedWidth.eq_2, Option.map_eq_some_iff] at hw
  obtain ⟨width, hwidth, rfl⟩ := hw
  by_cases hc : c = '\x7d'
  · have hopen : (c != '\x7d') = false := by simp [hc]
    rw [hopen, hclosed hc] at hwidth
    rw [Option.some.inj hwidth]
  · have hopen : (c != '\x7d') = true := by simp [hc]
    rw [hopen] at hwidth
    rw [hhole width hwidth]

/-- A text that its closing quote ends is a token as well if it may hold interpolations: they too end
between two characters of the text, or do not end at all. -/
theorem interpolatedWidth_of_closed (close : Char) (cs : List Char)
    (h : closingWidth close anyChar anyChar cs = some cs.length) :
    interpolatedWidth close false cs = some cs.length ∧
      ∀ w, interpolatedWidth close true cs = some w → w = cs.length := by
  fun_induction closingWidth close anyChar anyChar cs with
  | case1 => cases h
  | case2 => cases h
  | case3 e rest he ih =>
    obtain ⟨width, hwidth, hlength⟩ := Option.map_eq_some_iff.mp h
    obtain rfl : width = rest.length := by simpa using hlength
    obtain ⟨hplain, hhole⟩ := ih hwidth
    refine ⟨?_, ?_⟩
    · rw [interpolatedWidth.eq_def]
      simp [hplain]
    -- an interpolation may end with the escaped character, but not with the backslash
    · have hescaped := holeWidth_cons close e rest _ (fun _ => hplain) hhole
      exact holeWidth_cons close '\\' (e :: rest) _ (fun hc => by cases hc) hescaped
  | case4 e rest he => exact absurd rfl he
  | case5 cs hslash =>
    obtain rfl : cs = [] := by simpa using h
    exact ⟨by simp [interpolatedWidth, hslash], fun w hw => by simp [interpolatedWidth] at hw⟩
  | case6 c cs hslash hc hany ih =>
    obtain ⟨width, hwidth, hlength⟩ := Option.map_eq_some_iff.mp h
    obtain rfl : width = cs.length := by simpa using hlength
    obtain ⟨hplain, hhole⟩ := ih hwidth
    refine ⟨?_, holeWidth_cons close c cs _ (fun _ => hplain) hhole⟩
    rw [interpolatedWidth.eq_def]
    dsimp only
    rw [if_neg hslash, if_neg hc, hplain]
    split
    · split
      · rename_i w hw
        rw [hhole w hw, List.length_cons]
      · rfl
    · rfl
  | case7 c cs hslash hc hany => exact absurd rfl hany

end Terminal

theorem escapeQuoted_cases (c : Char) :
    (escapeQuoted c = ['\\', c] ∧ (c = '\\' ∨ c = '"')) ∨
      (escapeQuoted c = [c] ∧ c ≠ '\\' ∧ c ≠ '"') := by
  unfold escapeQuoted
  split
  · rename_i hc
    exact .inl ⟨rfl, hc⟩
  · rename_i hc
    exact .inr ⟨rfl, not_or.mp hc⟩

theorem closingWidth_escapeQuoted (value : List Char) :
    closingWidth '"' anyChar anyChar (value.flatMap escapeQuoted ++ ['"']) =
      some (value.flatMap escapeQuoted ++ ['"']).length := by
  induction value with
  | nil => rfl
  | cons c value ih =>
    rw [List.flatMap_cons, List.append_assoc]
    rcases escapeQuoted_cases c with ⟨hc, -⟩ | ⟨hc, hslash, hquote⟩
    · rw [hc, List.cons_append, List.singleton_append, closingWidth.eq_def]
      simp only [if_true, anyChar, ih, Option.map_some, List.length_cons]
    · rw [hc, List.singleton_append, closingWidth.eq_def]
      simp only [if_neg hslash, if_neg hquote, anyChar, if_true, ih, Option.map_some,
        List.length_cons]

theorem not_threeOf_written (value : List Char) :
    (threeOf '"').isPrefixOf ('"' :: (value.flatMap escapeQuoted ++ ['"'])) = false := by
  cases value with
  | nil => rfl
  | cons c value =>
    rw [List.flatMap_cons]
    rcases escapeQuoted_cases c with ⟨hc, -⟩ | ⟨hc, -, hquote⟩
    · rw [hc]
      rfl
    · have hhead : ('"' == c) = false := beq_eq_false_iff_ne.mpr (Ne.symm hquote)
      rw [hc, threeOf, List.singleton_append, List.isPrefixOf_cons_cons, List.cons_append,
        List.isPrefixOf_cons_cons, hhead, Bool.false_and, Bool.and_false]

namespace Decode

theorem unescape_escapeQuoted (value : List Char) :
    unescape (value.flatMap escapeQuoted) = value := by
  induction value with
  | nil => rfl
  | cons c value ih =>
    rw [List.flatMap_cons]
    rcases escapeQuoted_cases c with ⟨hc, rfl | rfl⟩ | ⟨hc, hslash, -⟩
    · rw [hc, List.cons_append, List.singleton_append]
      simp [unescape, escaped, ih]
    · rw [hc, List.cons_append, List.singleton_append]
      simp [unescape, escaped, ih]
    · rw [hc, List.singleton_append, unescape_cons c _ hslash, ih]

end Decode

/-- The quoted form of a string is one string token, and the token denotes the string. -/
theorem string_token_reads_back (value : String) (before : Option Char) :
    quotedText '"' before (Literal.string value).quoted.toList =
        some (Literal.string value).quoted.toList.length ∧
      Literal.string (Decode.quoted (Literal.string value).quoted) = .string value := by
  have htext : (Literal.string value).quoted.toList =
      '"' :: (value.toList.flatMap escapeQuoted ++ ['"']) := String.toList_ofList
  constructor
  · have hclosed := (interpolatedWidth_of_closed '"' _ (closingWidth_escapeQuoted value.toList)).1
    rw [htext, quotedText, not_threeOf_written]
    simp [hclosed]
  · rw [Decode.quoted, htext, Decode.inside_one, Decode.unescape_escapeQuoted, String.ofList_toList]

/-! ### Interpolations -/

namespace Decode

/-- Whether a text does not end in the middle of an escape. -/
def endsOutsideEscape : List Char → Bool
  | [] => true
  | c :: cs =>
    if c = '\\' then
      match cs with
      | [] => false
      | _ :: rest => endsOutsideEscape rest
    else endsOutsideEscape cs

theorem unescape_append (first second : List Char) (h : endsOutsideEscape first = true) :
    unescape (first ++ second) = unescape first ++ unescape second := by
  fun_induction unescape first with
  | case1 => rfl
  | case2 => cases h
  | case3 rest ih =>
    simpa [unescape] using ih (by simpa [endsOutsideEscape] using h)
  | case4 e rest he ih =>
    simpa [unescape, he] using ih (by simpa [endsOutsideEscape] using h)
  | case5 c cs hc ih =>
    have hcs : endsOutsideEscape cs = true := by
      rw [endsOutsideEscape.eq_def] at h
      dsimp only at h
      rwa [if_neg hc] at h
    rw [List.cons_append, unescape_cons c _ hc, ih hcs, List.cons_append]

/-- Every escape takes more characters than it stands for. -/
theorem length_unescape_append_le (text rest : List Char) (c : Char) (hc : c ≠ '\\') :
    (unescape (text ++ c :: rest)).length ≤ text.length + (unescape (c :: rest)).length ∧
      ('\\' ∈ text →
        (unescape (text ++ c :: rest)).length < text.length + (unescape (c :: rest)).length) := by
  have hrest : unescape (c :: rest) = c :: unescape rest := unescape_cons c rest hc
  fun_induction unescape text with
  | case1 => simp
  | case2 =>
    have hlast : (unescape ('\\' :: c :: rest)).length ≤ (unescape rest).length + 1 := by
      rw [unescape.eq_def]
      dsimp only
      rw [if_pos rfl]
      split
      · exact Nat.le_succ _
      · exact Nat.le_refl _
    simp only [List.cons_append, List.nil_append, hrest, List.length_cons, List.length_nil]
    omega
  | case3 tail ih =>
    have hskip : unescape ('\\' :: '\n' :: tail ++ c :: rest) = unescape (tail ++ c :: rest) := by
      simp [unescape]
    rw [hskip]
    simp only [List.length_cons]
    omega
  | case4 e tail he ih =>
    have hescape : unescape ('\\' :: e :: tail ++ c :: rest) =
        escaped e :: unescape (tail ++ c :: rest) := by
      simp [unescape, he]
    rw [hescape]
    simp only [List.length_cons]
    omega
  | case5 d tail hd ih =>
    rw [List.cons_append, unescape_cons d _ hd, List.mem_cons]
    simp only [List.length_cons]
    refine ⟨by omega, fun hmem => ?_⟩
    have hlt := ih.2 (hmem.resolve_left (Ne.symm hd))
    omega

/-- An interpolation keeps its text exactly if it holds no backslash; all else is decoded apart from
it. -/
theorem unescape_interpolation_iff (front inner behind : List Char)
    (h : endsOutsideEscape front = true) :
    unescape (front ++ '#' :: '\x7b' :: (inner ++ '\x7d' :: behind)) =
        unescape front ++ '#' :: '\x7b' :: (inner ++ '\x7d' :: unescape behind) ↔
      '\\' ∉ inner := by
  have hbrace : unescape ('\x7d' :: behind) = '\x7d' :: unescape behind :=
    unescape_cons _ _ (by decide)
  rw [unescape_append front _ h, unescape_cons '#' _ (by decide),
    unescape_cons '\x7b' _ (by decide), List.append_cancel_left_eq, List.cons.injEq,
    List.cons.injEq, ← hbrace]
  simp only [true_and]
  constructor
  · intro heq hslash
    have hlength := congrArg List.length heq
    have hlt := (length_unescape_append_le inner behind '\x7d' (by decide)).2 hslash
    rw [List.length_append] at hlength
    omega
  · exact unescape_append_word inner _

theorem unescape_interpolation_escapedSlash :
    endsOutsideEscape "\\\\".toList = true ∧ '\\' ∉ "\"x\"".toList ∧
      unescape "\\\\#\x7b\"x\"\x7d\\n".toList = "\\#\x7b\"x\"\x7d\n".toList := by
  refine ⟨by decide, by decide, ?_⟩
  exact (unescape_interpolation_iff "\\\\".toList "\"x\"".toList "\\n".toList (by decide)).mpr
    (by decide)

/-- An escape in an interpolation is resolved. -/
theorem unescape_changes_interpolation :
    unescape "#\x7b\\n\x7d".toList = "#\x7b\n\x7d".toList ∧
      ¬ ∀ front inner behind : List Char, endsOutsideEscape front = true → '\x7d' ∉ inner →
        unescape (front ++ '#' :: '\x7b' :: (inner ++ '\x7d' :: behind)) =
          unescape front ++ '#' :: '\x7b' :: (inner ++ '\x7d' :: unescape behind) := by
  refine ⟨by decide, fun h => ?_⟩
  exact absurd (h [] ['\\', 'n'] [] (by decide) (by decide)) (by decide)

end Decode

end LineScope.Grammar
