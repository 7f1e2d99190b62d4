import LineScope.Analysis.Metadata
import LineScope.Grammar.Parse
import LineScope.Proofs.Grammar.Derivation
import LineScope.Proofs.Grammar.Mention
import LineScope.Proofs.Grammar.Terminal
import LineScope.Proofs.Text.Lines

/-!
# Trees that are faithful to the lines of their source

A token stands on its line of the source.  So every line in a tree that was read is a line of the
source, an identifier stands on its line, and so does the word of a definition.
-/

namespace LineScope

open LineScope.Text

/-! ### Words on lines -/

/-- A text in a source, on the line that the line feeds in front of it give. -/
def StandsOn (source : List Char) (line : Nat) (text : List Char) : Prop :=
  ∃ front behind, source = front ++ text ++ behind ∧ line = front.count '\n' + 1

/-- A number of a line of a source. -/
def IsLineOf (source : List Char) (line : Int) : Prop := 1 ≤ line ∧ line ≤ lineCount source

/-- A word within a line of a source. -/
def OnLine (source : List Char) (line : Int) (word : String) : Prop :=
  ∃ (number : Nat) (text : List Char), line = number + 1 ∧
    (feedLines source)[number]? = some text ∧ word.toList <:+: text

theorem StandsOn.isLineOf {source text : List Char} {line : Nat} (h : StandsOn source line text) :
    IsLineOf source line := by
  obtain ⟨front, behind, rfl, rfl⟩ := h
  simp only [IsLineOf, lineCount, List.count_append]
  omega

theorem StandsOn.onLine {source : List Char} {line : Nat} {word : String}
    (h : StandsOn source line word.toList) (hword : '\n' ∉ word.toList) :
    OnLine source line word := by
  obtain ⟨before, behind, rfl, rfl⟩ := h
  obtain ⟨front, head, tail, rest, rfl, rfl, -, hline⟩ := line_of_word before _ behind hword
  -- what stands in front of the word within its line holds no line feed
  have hhead : '\n' ∉ head := fun hm =>
    not_mem_feedLines _ _ (List.mem_of_getElem? hline) (List.mem_append_left _ hm)
  refine ⟨front.count '\n', head ++ (word.toList ++ tail), ?_, ?_, head, tail, by simp⟩
  · rw [List.count_append, List.count_eq_zero.mpr hhead]
    rfl
  · rw [List.append_assoc]
    exact hline

/-! ### Faithful trees -/

/-- The words that define modules and functions. -/
def definingWords : List String := "defmodule" :: (Node.functionHeads ++ Node.compileTimeHeads)

theorem head_of_mem_definingWords : ∀ word ∈ definingWords, word.toList.head? = some 'd' := by
  decide

namespace Node

/-- Whether a node is a call of a name or of other code. -/
def isConstruct : Node → Bool
  | .call _ _ _ => true
  | .apply _ _ _ => true
  | _ => false

/-- What a node says about a source: a call has arguments and, if its head is code, another call as
its head; its line is one of the source, and holds the word of a definition.  An identifier stands
on its line. -/
def Faithful (source : List Char) : Node → Prop
  | .call name args line => args.isSome = true ∧ ∀ n, line = some n →
      IsLineOf source n ∧ (name ∈ definingWords → OnLine source n name)
  | .apply head args line => args.isSome = true ∧ head.isConstruct = true ∧
      ∀ n, line = some n → IsLineOf source n
  | .ident name line _ => ∃ n, line = some n ∧ IsLineOf source n ∧ OnLine source n name
  | _ => True

/-- A tree all of whose nodes are faithful. -/
def AllFaithful (source : List Char) (node : Node) : Prop :=
  ∀ other ∈ node.occurrences, other.Faithful source

theorem allFaithful_of_children (source : List Char) (node : Node) (h : node.Faithful source)
    (hchildren : ∀ child ∈ node.children, child.AllFaithful source) : node.AllFaithful source := by
  intro other ho
  rcases (mem_occurrences_iff node other).mp ho with rfl | ⟨child, hc, ho⟩
  · exact h
  · exact hchildren child hc other ho

end Node

/-! ### Faithful derivations -/

namespace Grammar

open Rule

theorem Cursor.In.standsOn {source : List Char} {c : Cursor} (h : c.In source) (width : Nat) :
    StandsOn source c.line (c.rest.take width) := by
  refine ⟨source.take c.offset, c.rest.drop width, ?_, h.line_eq⟩
  rw [List.append_assoc, List.take_append_drop]
  exact h.split

/-- A token that a terminal has matched. -/
def Token.Matches (terminal : Terminal) (found : Token) : Prop :=
  ∃ before cs width, terminal before cs = some width ∧ found.text.toList = cs.take width

/-- Tokens stand on their lines, and nodes are faithful to the source. -/
def fidelity (source : List Char) : Invariant where
  cursor _ c := c.In source
  token terminal found := StandsOn source found.line found.text.toList ∧ found.Matches terminal
  line n := IsLineOf source n
  names name n := IsLineOf source n ∧ (name ∈ definingWords → OnLine source n name)
  node := Node.AllFaithful source

theorem fidelity_builds (source : List Char) : (fidelity source).Builds where
  ownName name hname line hline := by
    have hother : ∀ name ∈ ownNames, name ∉ definingWords := by decide
    exact ⟨hline, fun hdefines => absurd hdefines (hother name hname)⟩
  operator op hop line hline := by
    have hother : ∀ op ∈ Operator.all, op.text ∉ definingWords := by decide
    exact ⟨hline, fun hdefines => absurd hdefines (hother op hop)⟩
  sigil letter line hline := by
    refine ⟨hline, fun hdefines => ?_⟩
    have hhead := head_of_mem_definingWords _ hdefines
    rw [String.toList_append] at hhead
    cases hhead
  call name args line hname hargs := by
    refine Node.allFaithful_of_children source _ ⟨rfl, fun n hn => ?_⟩ hargs
    cases hn
    exact hname
  group name args hname hargs :=
    Node.allFaithful_of_children source _ ⟨rfl, nofun⟩ hargs
  apply head args line other hhead hline hargs := by
    refine Node.allFaithful_of_children source _ ⟨rfl, rfl, fun n hn => ?_⟩ fun child hc => ?_
    · cases hn
      exact hline
    · rcases List.mem_cons.mp hc with rfl | hc
      · exact hhead
      · exact hargs child hc
  pair left right hleft hright := by
    refine Node.allFaithful_of_children source _ trivial fun child hc => ?_
    rcases List.mem_cons.mp hc with rfl | hc
    · exact hleft
    · rw [List.mem_singleton.mp hc]
      exact hright
  list items hitems := Node.allFaithful_of_children source _ trivial hitems
  literal value := Node.allFaithful_of_children source _ trivial nofun

theorem fidelity_token (source : List Char) (n : Nat) (terminal : Terminal) :
    Ensures ((fidelity source).cursor n) ((fidelity source).token terminal)
      (Rule.token terminal) := by
  intro c hc way hw
  unfold Rule.token at hw
  split at hw
  · cases hw
  · rename_i width hwidth
    rw [List.mem_singleton.mp hw]
    refine ⟨Cursor.advance_in source _ _ (Cursor.advance_in source _ _ hc), ?_, ?_⟩
    · rw [String.toList_ofList]
      exact Cursor.In.standsOn hc width
    · exact ⟨c.before, c.rest, width, hwidth, String.toList_ofList⟩

/-- Names hold no line feeds, so they stand on one line. -/
theorem onLine_of_name (source : List Char) (found : Token)
    (h : (fidelity source).token Terminal.name found) : OnLine source found.line found.text := by
  obtain ⟨hstands, before, cs, width, hwidth, htext⟩ := h
  refine hstands.onLine ?_
  rw [htext]
  exact (Terminal.take_name before '\n' cs width (by decide) (by decide) (by decide) hwidth).2

theorem sign_not_defining (found : Token)
    (h : found.Matches Terminal.sign ∨ found.Matches (Terminal.keyword "not")) :
    found.text ∉ definingWords := by
  suffices ∃ word ∈ ["-", "+", "!", "^", "not"], found.text.toList = word.toList by
    obtain ⟨word, hword, htext⟩ := this
    intro hdefines
    have hother : ∀ word ∈ ["-", "+", "!", "^", "not"], word.toList.head? ≠ some 'd' := by decide
    exact hother word hword (htext ▸ head_of_mem_definingWords _ hdefines)
  rcases h with ⟨before, cs, width, hwidth, htext⟩ | ⟨before, cs, width, hwidth, htext⟩
  · simp only [Terminal.sign, Option.or_eq_some_iff] at hwidth
    rcases hwidth with hw | ⟨_, hw | ⟨_, hw | ⟨_, hw⟩⟩⟩
    · exact ⟨"-", by decide, htext.trans (Terminal.take_textNotBefore _ _ _ _ hw)⟩
    · exact ⟨"+", by decide, htext.trans (Terminal.take_textNotBefore _ _ _ _ hw)⟩
    · exact ⟨"!", by decide, htext.trans (Terminal.take_textNotBefore _ _ _ _ hw)⟩
    · exact ⟨"^", by decide, htext.trans (Terminal.take_textWidth _ _ _ hw)⟩
  · exact ⟨"not", by decide, htext.trans (Terminal.take_keywordWidth _ _ _ hwidth)⟩

theorem fidelity_lawful (source : List Char) : (fidelity source).Lawful where
  toBuilds := fidelity_builds source
  ordinary n terminal _ := fidelity_token source n terminal
  opening n word _ := (fidelity_token source n (.keyword word)).behind fun _ _ hc =>
    ⟨hc.1, hc.2.1.isLineOf⟩
  closing n := (fidelity_token source n (.keyword "end")).behind fun _ _ hc => hc.1
  report n _ found kind error _ := by
    intro c hc way hw
    rw [List.mem_singleton.mp hw]
    exact ⟨⟨hc.split, hc.offset_le, hc.line_eq⟩, trivial⟩
  cursorLine _ c hc := (Cursor.In.standsOn hc 0).isLineOf
  tokenLine _ found hf := hf.1.isLineOf
  name found hf := ⟨hf.1.isLineOf, fun _ => onLine_of_name source found hf⟩
  ident found hf := Node.allFaithful_of_children source _
    ⟨_, rfl, hf.1.isLineOf, onLine_of_name source found hf⟩ nofun
  sign found hf := by
    have hstands : StandsOn source found.line found.text.toList := hf.elim (·.1) (·.1)
    refine ⟨hstands.isLineOf, fun hdefines => absurd hdefines (sign_not_defining found ?_)⟩
    exact hf.imp (·.2) (·.2)

/-- A tree that was read is faithful to its source. -/
theorem allFaithful_of_parse (source file : String) (tree : Node)
    (h : (parse source file).value = .ok tree) : tree.AllFaithful source.toList := by
  unfold parse at h
  dsimp only at h
  split at h
  · rename_i nodes c hcomplete
    split at h
    · cases h
      have hmem := List.mem_of_find?_eq_some hcomplete
      have hstart : (Cursor.start source.toList).skipIgnored.In source.toList :=
        Cursor.advance_in _ _ _ (Cursor.start_in _)
      obtain ⟨-, hnodes⟩ :=
        (fidelity_lawful source.toList).reads_readProgram (n := 0) source.toList hstart _ hmem
      exact (fidelity_builds source.toList).good_block nodes hnodes
    · cases h
  · split at h <;> cases h

end Grammar

end LineScope
