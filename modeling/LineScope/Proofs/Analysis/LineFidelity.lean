import LineScope.Proofs.Analysis.Definitions
import LineScope.Proofs.Analysis.MaskedAnalysis
import LineScope.Proofs.Grammar.Faithful

/-!
# Lines that lead back to the source

What an analysis records of a tree that was read points back into the source: the lines with contexts
are lines of the source, and a definition is found on a line that holds the word that defines it.
-/

namespace LineScope

open LineScope.Text

/-! ### Faithful places -/

namespace Node

theorem Faithful.normalizeDefinition {source : List Char} (node : Node) (h : node.Faithful source) :
    node.normalizeDefinition.Faithful source := by
  cases node with
  | call name args line =>
    by_cases hd : isDefinitionHead name = true
    · rw [Node.normalizeDefinition, if_pos hd]
      exact ⟨rfl, h.2⟩
    · rw [Node.normalizeDefinition, if_neg hd]
      exact h
  | _ => exact h

theorem AllFaithful.arrivals {source : List Char} (node : Node) (h : node.AllFaithful source) :
    ∀ place ∈ node.arrivals, place.node.Faithful source :=
  forall_arrivals (P := AllFaithful source)
    (fun node hn => Faithful.normalizeDefinition node (hn node (self_mem_occurrences node)))
    (fun node child hn hc => forall_occurrences_child trivial node child hn hc) node h

theorem Faithful.isLineOf {source : List Char} {node : Node} (h : node.Faithful source) (line : Int)
    (hline : node.line = some line) : IsLineOf source line := by
  cases node with
  | call name args _ => exact (h.2 line hline).1
  | apply head args _ => exact h.2.2 line hline
  | ident name _ context =>
    obtain ⟨found, hfound, hbounds, -⟩ := h
    have hsame : found = line := Option.some.inj (hfound.symm.trans hline)
    exact hsame ▸ hbounds
  | _ => cases hline

theorem line_of_recordedLine? (node : Node) (line : Int) (h : node.recordedLine? = some line) :
    node.line = some line := by
  unfold recordedLine? at h
  split at h
  · cases h
  · exact h

end Node

theorem OnLine.of_part {source : List Char} {line : Int} {word part : String}
    (h : OnLine source line word) (hpart : part.toList <:+: word.toList) :
    OnLine source line part := by
  obtain ⟨number, text, hline, htext, hword⟩ := h
  exact ⟨number, text, hline, htext, hpart.trans hword⟩

/-! ### Faithful definitions -/

namespace VisitedDefinition

/-- A definition on a line that holds the word which defines it. -/
def Anchored (source : List Char) : VisitedDefinition → Prop
  | .module _ line => OnLine source line "defmodule"
  | .function _ defined => OnLine source defined.line "def"

/-- What a table holds behind a definition was written by the definition or was there before. -/
theorem get?_write_inv (definition : VisitedDefinition) (definitions : Definitions)
    (key : DefinitionKey) (line : Int)
    (h : (write definitions definition).get? key = some line) :
    (key ∈ definition.keys ∧ line = definition.line) ∨ definitions.get? key = some line := by
  cases definition with
  | module name defined =>
    rw [write, Table.get?_set] at h
    split at h
    · rename_i he
      exact .inl ⟨he ▸ List.mem_cons_self, (Option.some.inj h).symm⟩
    · exact .inr h
  | function outer defined =>
    rw [write, Table.get?_setDefault, Table.get?_set] at h
    rcases Option.or_eq_some_iff.mp h with h | ⟨-, h⟩
    · split at h
      · rename_i he
        exact .inl ⟨he ▸ List.mem_cons_self, (Option.some.inj h).symm⟩
      · exact .inr h
    · split at h
      · rename_i he
        exact .inl ⟨he ▸ List.mem_cons_of_mem _ List.mem_cons_self, (Option.some.inj h).symm⟩
      · cases h

theorem get?_foldl_inv (history : List VisitedDefinition) (definitions : Definitions)
    (key : DefinitionKey) (line : Int)
    (h : (history.foldl write definitions).get? key = some line) :
    (∃ definition ∈ history, key ∈ definition.keys ∧ line = definition.line) ∨
      definitions.get? key = some line := by
  induction history generalizing definitions with
  | nil => exact .inr h
  | cons definition history ih =>
    rcases ih _ h with ⟨later, hl, hkey⟩ | h
    · exact .inl ⟨later, List.mem_cons_of_mem _ hl, hkey⟩
    · rcases get?_write_inv definition definitions key line h with hkey | h
      · exact .inl ⟨definition, List.mem_cons_self, hkey⟩
      · exact .inr h

end VisitedDefinition

theorem anchored_of_mem_definitions (source : List Char) (node : Node)
    (h : node.AllFaithful source) : ∀ definition ∈ node.definitions, definition.Anchored source := by
  intro definition hd
  obtain ⟨place, hp, hdefinition⟩ := List.mem_filterMap.mp hd
  have hfaithful := Node.AllFaithful.arrivals node h place hp
  unfold Place.definition? at hdefinition
  split at hdefinition
  · rename_i segments line hm
    cases hdefinition
    obtain ⟨name, body, hnode, -⟩ := Node.moduleDefinition?_inv _ segments line hm
    rw [hnode] at hfaithful
    exact (hfaithful.2 line rfl).2 (by decide)
  · obtain ⟨defined, hf, rfl⟩ := Option.map_eq_some_iff.mp hdefinition
    obtain ⟨name, head, body, hnode, hname⟩ := Node.functionDefinition?_inv _ defined hf
    rw [hnode] at hfaithful
    have hword : name ∈ definingWords := by
      rw [Node.isDefinitionHead, Bool.or_eq_true, List.contains_iff_mem, List.contains_iff_mem] at hname
      exact List.mem_cons_of_mem _ (List.mem_append.mpr hname)
    have hpart : ∀ word ∈ definingWords, "def".toList <:+: word.toList := by decide
    exact ((hfaithful.2 _ rfl).2 hword).of_part (hpart name hword)

/-! ### Analyses of trees that were read -/

namespace Metadata

theorem eq_behind_of_build (node tree : Node) (metadata : Metadata)
    (h : build node = .ok (tree, metadata)) :
    metadata = start.behind .start [] node.arrivals [] := by
  have hnamed := (build_isOk_iff node).mp (by rw [h]; rfl)
  exact (Prod.mk.inj (Except.ok.inj (h.symm.trans (build_eq node hnamed)))).2

theorem isLineOf_of_mem_contexts (source : List Char) (node tree : Node) (metadata : Metadata)
    (hnode : node.AllFaithful source) (h : build node = .ok (tree, metadata)) :
    ∀ line ∈ metadata.contexts.keys, IsLineOf source line := by
  intro line hline
  rw [eq_behind_of_build node tree metadata h] at hline
  obtain ⟨place, hp, hrecorded⟩ := (mem_keys_replay .start line [] node.arrivals).mp hline
  exact (Node.AllFaithful.arrivals node hnode place hp).isLineOf line
    (Node.line_of_recordedLine? _ line hrecorded)

theorem exists_definition_of_get? (node tree : Node) (metadata : Metadata)
    (h : build node = .ok (tree, metadata)) (key : DefinitionKey) (line : Int)
    (hkey : metadata.definitions.get? key = some line) :
    ∃ definition ∈ node.definitions, key ∈ definition.keys ∧ line = definition.line := by
  have htable : metadata.definitions = node.definitions.foldl VisitedDefinition.write .empty := by
    rw [eq_behind_of_build node tree metadata h, Node.definitions, ← replay_writeDefinitions []]
    rfl
  rw [htable] at hkey
  rcases VisitedDefinition.get?_foldl_inv _ _ key line hkey with hfound | hempty
  · exact hfound
  · cases hempty

end Metadata

/-- A tree that was read is faithful to its source: its calls have arguments, and calls or names as
heads; its lines are lines of the source; its identifiers stand on their lines.  The analysis of the
tree records contexts for lines of the source only, and the lines of definitions hold the words that
define. -/
theorem parse_lineFidelity (source file : String) (tree : Node)
    (h : (Grammar.parse source file).value = .ok tree) :
    (∀ node ∈ tree.occurrences, node.Faithful source.toList) ∧
    ∀ built metadata, Metadata.build tree = .ok (built, metadata) →
      (∀ line ∈ metadata.contexts.keys, IsLineOf source.toList line) ∧
      (∀ name line, metadata.definitions.get? (.ofModule name) = some line →
        OnLine source.toList line "defmodule") ∧
      ∀ key line, key.function.isSome = true → metadata.definitions.get? key = some line →
        OnLine source.toList line "def" := by
  have htree : tree.AllFaithful source.toList := Grammar.allFaithful_of_parse source file tree h
  have hanchored := anchored_of_mem_definitions source.toList tree htree
  refine ⟨htree, fun built metadata hbuild => ⟨Metadata.isLineOf_of_mem_contexts _ tree built metadata
    htree hbuild, fun name line hline => ?_, fun key line hfunction hline => ?_⟩⟩
  · obtain ⟨definition, hd, hkey, rfl⟩ :=
      Metadata.exists_definition_of_get? tree built metadata hbuild _ line hline
    cases definition with
    | module other line => exact hanchored _ hd
    | function outer defined =>
      simp [VisitedDefinition.keys, DefinitionKey.ofModule, DefinitionKey.ofArity,
        DefinitionKey.ofFunction] at hkey
  · obtain ⟨definition, hd, hkey, rfl⟩ :=
      Metadata.exists_definition_of_get? tree built metadata hbuild key line hline
    cases definition with
    | module other line =>
      rw [List.mem_singleton.mp hkey] at hfunction
      cases hfunction
    | function outer defined => exact hanchored _ hd

/-- A module with one function, on three lines. -/
def smallModule : String := "defmodule A do\n  def f(x), do: x\nend"

theorem parse_lineFidelity_smallModule :
    ∃ tree built metadata, (Grammar.parse smallModule Grammar.defaultFile).value = .ok tree ∧
      Metadata.build tree = .ok (built, metadata) ∧
      metadata.definitions.get? (.ofModule "A") = some 1 ∧
      OnLine smallModule.toList 1 "defmodule" ∧
      metadata.definitions.get? (.ofArity "A" "f" 1) = some 2 ∧
      OnLine smallModule.toList 2 "def" ∧ Node.AllFaithful smallModule.toList tree := by
  obtain ⟨tree, htree, hbuilt⟩ := exists_ok_of_any
    (Grammar.parse smallModule Grammar.defaultFile).value
    (fun tree => (Metadata.build tree).toOption.any fun built =>
      built.2.definitions.get? (.ofModule "A") == some 1 &&
        built.2.definitions.get? (.ofArity "A" "f" 1) == some 2) (by decide +kernel)
  obtain ⟨⟨built, metadata⟩, hbuild, hlines⟩ := exists_ok_of_any _ _ hbuilt
  simp only [Bool.and_eq_true, beq_iff_eq] at hlines
  obtain ⟨hfaithful, hrecords⟩ := parse_lineFidelity smallModule Grammar.defaultFile tree htree
  obtain ⟨-, hmodules, hfunctions⟩ := hrecords built metadata hbuild
  exact ⟨tree, built, metadata, htree, hbuild, hlines.1, hmodules "A" 1 hlines.1, hlines.2,
    hfunctions _ 2 rfl hlines.2, hfaithful⟩

end LineScope
