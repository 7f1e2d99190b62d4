import LineScope.Analysis.Marker
import LineScope.Proofs.Analysis.Contexts
import LineScope.Proofs.Analysis.Insertion

/-!
# Markers are transparent

A marker in a block records the context of its own line and does nothing else.  When no node of the
tree is on that line, no step of the walk over the tree reads or writes this entry, so the walk goes on
as it would without the marker.
-/

namespace LineScope

namespace Metadata

/-! ### The contexts during one step -/

theorem enterModule_contexts (metadata : Metadata) (segments : List String) (line : Int)
    (contexts : Table Int Context) :
    enterModule { metadata with contexts := contexts } segments line =
      (metadata.enterModule segments line).map fun next => { next with contexts := contexts } := by
  simp only [enterModule]
  split
  · cases Node.lastSegment segments with
    | error e => rfl
    | ok short =>
      dsimp only [bind, Except.bind]
      cases metadata.scope.addAlias short
        (modulePathName (metadata.scope.modulePath ++ segments)) <;> rfl
  · rfl

theorem withScope_contexts (metadata : Metadata) (scope : Except ScopeError Scope)
    (contexts : Table Int Context) :
    withScope { metadata with contexts := contexts } scope =
      (metadata.withScope scope).map fun next => { next with contexts := contexts } := by
  cases scope <;> rfl

theorem noteVariable_contexts (metadata : Metadata) (name : String) (contexts : Table Int Context) :
    noteVariable { metadata with contexts := contexts } name =
      (metadata.noteVariable name).map fun next => { next with contexts := contexts } := by
  unfold noteVariable
  dsimp only [scopeName]
  split
  · rfl
  · cases metadata.scope.names with
    | nil => rfl
    | cons first names =>
      dsimp only [bind, Except.bind]
      split
      · rfl
      · exact withScope_contexts metadata _ contexts

section Note

variable (metadata : Metadata) (node : Node) (contexts : Table Int Context)

theorem writeContext_eq (scope : Scope) (line : Int) (withVars : Bool)
    (hm : node.moduleDefinition? = none) (hv : node.variableName? = none)
    (hline : node.line = some line) (hvars : node.hidesVars = !withVars) :
    writeContext scope node contexts = contexts.set line (scope.snapshot withVars) := by
  simp [writeContext, Node.recordedLine?, hm, hv, hline, hvars]

theorem noteNode_contexts (hm : node.moduleDefinition? = none)
    (hf : node.functionDefinition? = none) :
    noteNode { metadata with contexts := contexts } node =
      (metadata.noteNode node).map fun next =>
        { next with contexts := writeContext metadata.scope node contexts } := by
  unfold noteNode
  cases hi : node.importTarget? with
  | some target =>
    obtain ⟨line, hline, -, -, hv, -⟩ := Node.of_importTarget? _ _ hi
    rw [writeContext_eq node contexts _ line false hm hv hline (by simp [Node.hidesVars, hi])]
    simp only [hline, recordLine, record]
    cases h : metadata.scope.addImport target <;> rfl
  | none =>
    cases ha : node.aliasBinding? with
    | error e => rfl
    | ok binding =>
      have hbinding : node.binding? = binding := by simp [Node.binding?, ha, Except.toOption]
      cases binding with
      | some entry =>
        obtain ⟨line, hline, -, -, hv, -⟩ := Node.of_aliasBinding? _ _ ha
        rw [writeContext_eq node contexts _ line false hm hv hline (by simp [Node.hidesVars, hbinding])]
        simp only [hline, recordLine, record, bind, Except.bind]
        cases metadata.scope.addAlias entry.1 entry.2 <;> rfl
      | none =>
        simp only [bind, Except.bind]
        cases hv : node.variableName? with
        | some name =>
          have hwrite : writeContext metadata.scope node contexts = contexts := by
            simp [writeContext, Node.recordedLine?, hv]
          rw [hwrite]
          exact noteVariable_contexts metadata name contexts
        | none =>
          have hvars : node.hidesVars = !true := by
            simp [Node.hidesVars, Node.functionName?, hf, hi, hbinding]
          cases hline : node.line with
          | none =>
            have hwrite : writeContext metadata.scope node contexts = contexts := by
              simp [writeContext, Node.recordedLine?, hline]
            rw [hwrite]
            rfl
          | some line =>
            rw [writeContext_eq node contexts _ line true hm hv hline hvars]
            rfl

/-- Arrivals only write into the table of contexts, and what they write depends on the scope and the
node alone. -/
theorem arrive_contexts :
    arrive { metadata with contexts := contexts } node =
      (metadata.arrive node).map fun next =>
        { next with contexts := writeContext metadata.scope node contexts } := by
  unfold arrive
  cases hm : node.moduleDefinition? with
  | some found =>
    have hwrite : writeContext metadata.scope node contexts = contexts := by
      simp [writeContext, Node.recordedLine?, hm]
    rw [hwrite]
    exact enterModule_contexts metadata found.1 found.2 contexts
  | none =>
    cases hf : node.functionDefinition? with
    | some function =>
      obtain ⟨-, hline, -, -, hv⟩ := Node.of_functionDefinition? _ _ hf
      rw [writeContext_eq node contexts _ function.line false hm hv hline
        (by simp [Node.hidesVars, Node.functionName?, hf])]
      rfl
    | none => exact noteNode_contexts metadata node contexts hm hf

theorem depart_contexts :
    depart node { metadata with contexts := contexts } =
      (metadata.depart node).map fun next => { next with contexts := contexts } := by
  unfold depart
  cases node.moduleDefinition? with
  | some found => exact withScope_contexts metadata _ contexts
  | none =>
    cases node.functionName? with
    | some name => exact withScope_contexts metadata _ contexts
    | none => rfl

end Note

end Metadata

/-! ### One more entry -/

namespace Table

variable {κ α : Type} [DecidableEq κ]

theorem setEntry_of_not_mem (key : κ) (value : α) (entries : List (κ × α))
    (h : key ∉ entries.map (·.1)) : setEntry key value entries = entries ++ [(key, value)] := by
  induction entries with
  | nil => rfl
  | cons entry entries ih =>
    simp only [List.map_cons, List.mem_cons, not_or] at h
    rw [setEntry, if_neg (Ne.symm h.1), ih h.2]
    rfl

/-- Writing at another key leaves an entry between the same entries. -/
theorem setEntry_around (key other : κ) (value written : α) (before after : List (κ × α))
    (hne : key ≠ other) :
    ∃ before' after', setEntry other written (before ++ after) = before' ++ after' ∧
      setEntry other written (before ++ (key, value) :: after) =
        before' ++ (key, value) :: after' := by
  induction before with
  | nil => exact ⟨[], setEntry other written after, rfl, by simp [setEntry, hne]⟩
  | cons entry before ih =>
    by_cases hentry : entry.1 = other
    · exact ⟨(other, written) :: before, after, by simp [setEntry, hentry], by simp [setEntry, hentry]⟩
    · obtain ⟨before', after', hplain, hmore⟩ := ih
      exact ⟨entry :: before', after', by simp [setEntry, hentry, hplain],
        by simp [setEntry, hentry, hmore]⟩

end Table

namespace Metadata

/-- The same metadata with one more context, of a line that has none. -/
def Extends (line : Int) (context : Context) (first second : Metadata) : Prop :=
  line ∉ first.contexts.keys ∧
    ∃ before after, first.contexts.entries = before ++ after ∧
      second = { first with contexts := ⟨before ++ (line, context) :: after⟩ }

/-- A step that neither reads nor writes the context of a line. -/
def Ignores (line : Int) (step : Step) : Prop :=
  ∀ context first second next, Extends line context first second → step first = .ok next →
    ∃ other, step second = .ok other ∧ Extends line context next other

theorem extends_record (line : Int) (metadata : Metadata) (h : line ∉ metadata.contexts.keys) :
    Extends line (metadata.scope.snapshot true) metadata (metadata.record line true) := by
  refine ⟨h, metadata.contexts.entries, [], (List.append_nil _).symm, ?_⟩
  simp only [record, Table.set, Table.setEntry_of_not_mem _ _ _ h]

section Ignored

variable (line : Int) (node : Node)

theorem ignores_arrive (hline : node.line ≠ some line) : Ignores line (·.arrive node) := by
  rintro context first second next ⟨hfresh, before, after, hentries, rfl⟩ hnext
  have hcontexts : next.contexts = writeContext first.scope node first.contexts := by
    have hself := hnext.symm.trans ((arrive_contexts first node first.contexts).trans
      (congrArg _ hnext))
    injection hself with hself
    rw [hself]
  refine ⟨_, (arrive_contexts first node _).trans (congrArg _ hnext), ?_⟩
  cases hrecorded : node.recordedLine? with
  | none =>
    simp only [writeContext, hrecorded] at hcontexts ⊢
    exact ⟨hcontexts ▸ hfresh, before, after, hcontexts ▸ hentries, rfl⟩
  | some other =>
    have hne : line ≠ other := by
      rintro rfl
      unfold Node.recordedLine? at hrecorded
      split at hrecorded
      · cases hrecorded
      · exact hline hrecorded
    simp only [writeContext, hrecorded] at hcontexts ⊢
    obtain ⟨before', after', hplain, hmore⟩ :=
      Table.setEntry_around line other context (first.scope.snapshot (!node.hidesVars)) before after hne
    refine ⟨?_, before', after', ?_, ?_⟩
    · rw [hcontexts, Table.mem_keys_iff, Table.get?_set, if_neg (Ne.symm hne), ← Table.mem_keys_iff]
      exact hfresh
    · rw [hcontexts, Table.set, hentries]
      exact hplain
    · rw [Table.set, hmore]

theorem ignores_depart : Ignores line (depart node) := by
  rintro context first second next ⟨hfresh, before, after, hentries, rfl⟩ hnext
  have hcontexts : next.contexts = first.contexts := by
    have hself := hnext.symm.trans ((depart_contexts first node first.contexts).trans
      (congrArg _ hnext))
    injection hself with hself
    rw [hself]
  refine ⟨_, (depart_contexts first node _).trans (congrArg _ hnext), ?_⟩
  exact ⟨hcontexts ▸ hfresh, before, after, hcontexts ▸ hentries, rfl⟩

theorem ignores_run (steps : List Step) (h : ∀ step ∈ steps, Ignores line step) :
    Ignores line (run steps) := by
  induction steps with
  | nil =>
    intro context first second next hextends hnext
    cases hnext
    exact ⟨second, rfl, hextends⟩
  | cons step steps ih =>
    intro context first second next hextends hnext
    obtain ⟨middle, hmiddle, hnext⟩ := ok_of_bind _ _ _ hnext
    obtain ⟨other, hother, hextends⟩ :=
      h step List.mem_cons_self context first second middle hextends hmiddle
    obtain ⟨last, hlast, hextends⟩ :=
      ih (fun later hl => h later (List.mem_cons_of_mem _ hl)) context middle other next hextends hnext
    exact ⟨last, by rw [run, hother]; exact hlast, hextends⟩

end Ignored

end Metadata

/-! ### Walks over trees without a line -/

namespace Node

theorem line_normalizeDefinition (node : Node) : node.normalizeDefinition.line = node.line := by
  cases node with
  | call name args line =>
    rw [normalizeDefinition]
    split <;> rfl
  | _ => rfl

theorem mem_tour (node : Node) (step : Metadata.Step) (h : step ∈ node.tour) :
    ∃ other : Node, (other ∈ node.occurrences ∨ other = .literal .nil) ∧
      (step = (·.arrive other.normalizeDefinition) ∨
        step = Metadata.depart other.normalizeDefinition) := by
  induction node using induction_depth with
  | step node ih =>
    rw [tour_eq, List.mem_cons, List.mem_append, List.mem_singleton] at h
    rcases h with h | h | h
    · exact ⟨node, .inl (self_mem_occurrences node), .inl h⟩
    · obtain ⟨child, hc, h⟩ := List.mem_flatMap.mp h
      obtain ⟨other, hother, hstep⟩ :=
        ih child (depth_lt_of_mem_children_normalizeDefinition node child hc) h
      refine ⟨other, ?_, hstep⟩
      rcases hother with hother | hother
      · rcases mem_children_normalizeDefinition node child hc with hc | ⟨inner, hi, hc⟩ | ⟨rfl, -⟩
        · exact .inl (mem_occurrences_of_mem_children node child other hc hother)
        · have hbelow := mem_occurrences_of_mem_children inner child other hc hother
          exact .inl (mem_occurrences_of_mem_children node inner other hi hbelow)
        · -- the body that a definition without one gets has nothing below it
          right
          simpa [occurrences_eq, children] using hother
      · exact .inr hother
    · exact ⟨node, .inl (self_mem_occurrences node), .inr h⟩

theorem ignores_of_mem_tour (line : Int) (node : Node)
    (hline : ∀ part ∈ node.occurrences, part.line ≠ some line) :
    ∀ step ∈ node.tour, Metadata.Ignores line step := by
  intro step hstep
  obtain ⟨other, hother, rfl | rfl⟩ := mem_tour node step hstep
  · refine Metadata.ignores_arrive line _ ?_
    rw [line_normalizeDefinition]
    rcases hother with hother | rfl
    · exact hline other hother
    · exact nofun
  · exact Metadata.ignores_depart line _

/-- The marker of a line, as a node. -/
def markerOn (line : Int) : Node := .call (markerName line) (some []) (some line)

theorem tour_markerOn (line : Int) :
    (markerOn line).tour = [fun metadata => .ok (metadata.record line true), .ok] := by
  have hhead : (markerName line).toList.head? = some '_' := by
    simp [markerName, markerStart, String.toList_append]
  have hne : ∀ other : String, other.toList.head? ≠ some '_' → markerName line ≠ other := by
    intro other ho he
    exact ho (he ▸ hhead)
  have hd : isDefinitionHead (markerName line) = false := by
    have h1 := hne "def" (by decide)
    have h2 := hne "defp" (by decide)
    have h3 := hne "defmacro" (by decide)
    have h4 := hne "defmacrop" (by decide)
    simp [isDefinitionHead, functionHeads, compileTimeHeads, h1, h2, h3, h4]
  have hm := hne "defmodule" (by decide)
  rw [tour_eq, markerOn, normalizeDefinition_plain _ _ _ hd, Metadata.depart_plain _ _ _ hd hm]
  have harrive := Metadata.arrive_plain (markerName line) (some []) (some line) hd hm
    (hne "import" (by decide)) (hne "alias" (by decide))
  simp only [harrive]
  rfl

end Node

namespace Metadata

/-- A marker in a block that is neither in a dropped guard nor the head of a function, on a line that
no node of the tree has, adds the context of the place where it stands, and nothing else. -/
theorem build_markerOn (tree built : Node) (metadata : Metadata) (path : List Nat)
    (args : Option (List Node)) (line : Option Int) (i : Nat) (fresh : Int)
    (hbuild : build tree = .ok (built, metadata))
    (hat : tree.at? path = some (.call blockHead args line)) (hi : i ≤ (args.getD []).length)
    (hguard : ¬ tree.InDroppedGuard path) (hhead : ¬ tree.IsFunctionHead path)
    (hfresh : ∀ part ∈ tree.occurrences, part.line ≠ some fresh) :
    ∃ marked found state, build (Node.insertAt (.markerOn fresh) i path tree) = .ok (marked, found) ∧
      found.definitions = metadata.definitions ∧ found.scope = metadata.scope ∧
      tree.tourBefore i path <+: tree.tour ∧ run (tree.tourBefore i path) .start = .ok state ∧
      fresh ∉ metadata.contexts.keys ∧
      ∃ before after, metadata.contexts.entries = before ++ after ∧
        found.contexts.entries = before ++ (fresh, state.scope.snapshot true) :: after := by
  obtain ⟨-, hrun, hbalanced⟩ := (build_ok_iff tree built metadata).mp hbuild
  obtain ⟨rest, htour, hmarked⟩ :=
    Node.tour_insertAt (.markerOn fresh) i path tree args line hat hi hguard hhead
  have hignores := Node.ignores_of_mem_tour fresh tree hfresh
  rw [htour] at hignores
  -- the walk up to the place of the marker, and the walk behind it
  rw [htour, run_append] at hrun
  obtain ⟨state, hstate, hrest⟩ := ok_of_bind _ _ _ hrun
  have hunwritten : fresh ∉ state.contexts.keys := by
    have hstart := extends_record fresh .start (List.not_mem_nil)
    obtain ⟨_, -, hextends⟩ :=
      ignores_run fresh _ (fun step hs => hignores step (List.mem_append_left _ hs)) _ _ _ _ hstart
        hstate
    exact hextends.1
  obtain ⟨found, hfound, hmissing, before, after, hentries, hsame⟩ :=
    ignores_run fresh _ (fun step hs => hignores step (List.mem_append_right _ hs)) _ _ _ _
      (extends_record fresh state hunwritten) hrest
  refine ⟨_, found, state, (build_ok_iff _ _ _).mpr ⟨rfl, ?_, by rw [hsame]; exact hbalanced⟩,
    by rw [hsame], by rw [hsame], ⟨rest, htour.symm⟩, hstate, hmissing, before, after, hentries,
    by rw [hsame]⟩
  rw [hmarked, run_append, hstate, Node.tour_markerOn]
  exact hfound

/-- The block in the module of the imported file, between its alias and its function. -/
theorem build_markerOn_importedFile :
    ∃ marked found before after,
      build (Node.insertAt (.markerOn 9) 1 [1, 1, 0, 1] importedFile) = .ok (marked, found) ∧
      found.contexts.entries = before ++ (9, ⟨some "App.Web", ["Enum"],
        [("Web", "App.Web"), ("Repo", "App.Repo")], []⟩) :: after := by
  have hguard : ¬ importedFile.InDroppedGuard [1, 1, 0, 1] := by
    rintro ⟨outer, definition, k, rest, hpath, hat, hdrops⟩
    rcases outer with _ | ⟨a, _ | ⟨b, _ | ⟨c, _ | ⟨d, outer⟩⟩⟩⟩ <;> simp at hpath
    obtain ⟨rfl, rfl, -⟩ := hpath
    cases hat
    cases hdrops
  have hhead : ¬ importedFile.IsFunctionHead [1, 1, 0, 1] := by
    rintro ⟨outer, definition, hat, htakes, hpath⟩
    split at hpath
    · have hlast := congrArg List.getLast? hpath
      simp at hlast
    · have hlast := congrArg List.getLast? hpath
      simp at hlast
  obtain ⟨marked, found, state, hbuild, -, -, -, hstate, -, before, after, -, hentries⟩ :=
    build_markerOn importedFile _ _ [1, 1, 0, 1] _ _ 1 9 (build_eq importedFile (by decide)) rfl
      (by decide) hguard hhead (by decide)
  have hsnapshot : (run (importedFile.tourBefore 1 [1, 1, 0, 1]) .start).map
      (fun state => state.scope.snapshot true) =
        .ok ⟨some "App.Web", ["Enum"], [("Web", "App.Web"), ("Repo", "App.Repo")], []⟩ := rfl
  rw [hstate] at hsnapshot
  have hcontext : state.scope.snapshot true = _ := Except.ok.inj hsnapshot
  rw [hcontext] at hentries
  exact ⟨marked, found, before, after, hbuild, hentries⟩

end Metadata

end LineScope
