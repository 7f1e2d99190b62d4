import LineScope.Proofs.Analysis.Contexts
import LineScope.Proofs.Analysis.MaskedAnalysis
import LineScope.Proofs.Analysis.MaskedSites
import LineScope.Proofs.Grammar.Marked

/-!
# Markers of recovered lines

The tree of a masked source mentions every masked line.  Where it has the marker itself, the marker
stays when the definitions settle, unless it stands in a guard that is left out.  So of the lines
that an analysis has recovered, those are found again whose markers neither lie in a text nor in such
a guard, and each of them has a context.
-/

namespace LineScope

open LineScope.Grammar LineScope.Number LineScope.Text

namespace Node

/-! ### Guards -/

/-- The guards that the normal form of a definition leaves out. -/
def guards : Node → List Node
  | .call name (some (.call "when" (some (_ :: guards)) _ :: rest)) _ =>
    if isDefinitionHead name &&
        (rest.length == 1 || (rest.isEmpty && compileTimeHeads.contains name)) then guards
    else []
  | _ => []

theorem dropGuard_inv (head : Node) : head.dropGuard = head ∨
    ∃ inner rest line, head = .call "when" (some (inner :: rest)) line ∧ head.dropGuard = inner := by
  unfold dropGuard
  split
  · exact .inr ⟨_, _, _, rfl, rfl⟩
  · exact .inl rfl

/-- A child of a node stays, or it is a guarded head of which the guards are left out. -/
theorem child_cases (node child : Node) (h : child ∈ node.children) :
    child ∈ node.normalizeDefinition.children ∨
      ∃ head line, child = .call "when" (some (head :: node.guards)) line ∧
        head ∈ node.normalizeDefinition.children := by
  cases node with
  | call name args line =>
    -- the argument lists of `normalizedArgs`, one after the other
    by_cases hd : isDefinitionHead name = true
    · have hchildren : (call name args line).normalizeDefinition.children =
          normalizedArgs name (args.getD []) := by
        rw [normalizeDefinition, if_pos hd]
        rfl
      rw [hchildren]
      cases args with
      | none => cases h
      | some args =>
        rw [Option.getD_some]
        rcases args with _ | ⟨head, _ | ⟨body, _ | ⟨third, rest⟩⟩⟩
        · cases h
        · obtain rfl := List.mem_singleton.mp h
          -- only a macro may have no body, and its guard is left out all the same
          by_cases hc : compileTimeHeads.contains name = true
          · have hargs : normalizedArgs name [child] = [child.dropGuard, .literal .nil] := by
              rw [normalizedArgs, if_pos hc]
            rw [hargs]
            rcases dropGuard_inv child with hsame | ⟨inner, rest, whenLine, rfl, hdrop⟩
            · exact .inl (by rw [hsame]; exact List.mem_cons_self)
            · refine .inr ⟨inner, whenLine, ?_, by rw [hdrop]; exact List.mem_cons_self⟩
              rw [guards, hd, hc]
              rfl
          · have hargs : normalizedArgs name [child] = [child] := by
              rw [normalizedArgs, if_neg hc]
            exact .inl (by rw [hargs]; exact h)
        · have hargs : normalizedArgs name [head, body] = [head.dropGuard, body] := rfl
          rw [hargs]
          rcases List.mem_cons.mp h with rfl | h
          · rcases dropGuard_inv child with hsame | ⟨inner, rest, whenLine, rfl, hdrop⟩
            · exact .inl (by rw [hsame]; exact List.mem_cons_self)
            · refine .inr ⟨inner, whenLine, ?_, by rw [hdrop]; exact List.mem_cons_self⟩
              rw [guards, hd]
              rfl
          · exact .inl (List.mem_cons_of_mem _ h)
        · exact .inl h
    · left
      rw [normalizeDefinition, if_neg hd]
      exact h
  | _ => exact .inl h

theorem child_settled (node child : Node) (h : child ∈ node.normalizeDefinition.children) :
    child.settled ∈ node.settled.children := by
  rw [settled_eq, children_refined]
  exact List.mem_map_of_mem h

theorem markerDigits?_of_isDefinitionHead (name : String) (h : isDefinitionHead name = true) :
    markerDigits? name = none := by
  simp only [isDefinitionHead, functionHeads, compileTimeHeads, List.contains_cons,
    List.contains_nil, Bool.or_false, Bool.or_eq_true, beq_iff_eq] at h
  rcases h with (rfl | rfl) | rfl | rfl <;> decide

theorem settled_marker (line : Nat) : (marker line).settled = marker line := by
  refine settled_call_of_not_definition (markerName line) (some []) _ ?_
  by_contra hd
  have hnone := markerDigits?_of_isDefinitionHead _ (Bool.not_eq_false _ ▸ hd)
  rw [markerDigits?_markerName] at hnone
  cases hnone

/-- A marker stays when the definitions settle, unless it stands in a guard that is left out. -/
theorem marker_mem_settled (line : Nat) (node : Node) (h : marker line ∈ node.occurrences) :
    marker line ∈ node.settled.occurrences ∨ ∃ definition ∈ node.occurrences,
      ∃ guard ∈ definition.guards, marker line ∈ guard.occurrences := by
  induction node using induction_depth with
  | step node ih =>
    -- what holds below a child that stays holds of the node
    have hstays : ∀ child ∈ node.normalizeDefinition.children,
        (∀ part ∈ child.occurrences, part ∈ node.occurrences) →
        marker line ∈ child.occurrences →
        marker line ∈ node.settled.occurrences ∨ ∃ definition ∈ node.occurrences,
          ∃ guard ∈ definition.guards, marker line ∈ guard.occurrences := by
      intro child hc hbelow hm
      rcases ih child (depth_lt_of_mem_children_normalizeDefinition node child hc) hm with
        hsettled | ⟨definition, hd, hguard⟩
      · exact .inl (mem_occurrences_of_mem_children _ _ _ (child_settled node child hc) hsettled)
      · exact .inr ⟨definition, hbelow definition hd, hguard⟩
    rcases (mem_occurrences_iff node _).mp h with rfl | ⟨child, hc, hm⟩
    · rw [settled_marker]
      exact .inl (self_mem_occurrences _)
    · rcases child_cases node child hc with hstay | ⟨head, whenLine, rfl, hhead⟩
      · exact hstays child hstay (fun part hp => mem_occurrences_of_mem_children _ _ _ hc hp) hm
      · rcases (mem_occurrences_iff _ _).mp hm with he | ⟨part, hpart, hinside⟩
        · simp [marker] at he
        · -- the head of the definition stays, the other arguments of the guarded head are lost
          rcases List.mem_cons.mp hpart with rfl | hpart
          · refine hstays part hhead (fun other ho => ?_) hinside
            refine mem_occurrences_of_mem_children _ _ _ hc ?_
            exact mem_occurrences_of_mem_children _ part _ List.mem_cons_self ho
          · exact .inr ⟨node, self_mem_occurrences node, part, hpart, hinside⟩

/-- What occurs in a settled tree is a settled node of the tree, or the body of a definition that had
none. -/
theorem mem_occurrences_settled (node part : Node) (h : part ∈ node.settled.occurrences) :
    (∃ other ∈ node.occurrences, part = other.settled) ∨ part = .literal .nil := by
  induction node using induction_depth with
  | step node ih =>
    rcases (mem_occurrences_iff _ _).mp h with rfl | ⟨settledChild, hc, hm⟩
    · exact .inl ⟨node, self_mem_occurrences node, rfl⟩
    · rw [settled_eq, children_refined] at hc
      obtain ⟨child, hchild, rfl⟩ := List.mem_map.mp hc
      rcases ih child (depth_lt_of_mem_children_normalizeDefinition node child hchild) hm with
        ⟨other, ho, rfl⟩ | hnil
      · rcases mem_children_normalizeDefinition node child hchild with
          hchild | ⟨inner, hinner, hchild⟩ | ⟨rfl, -⟩
        · exact .inl ⟨other, mem_occurrences_of_mem_children node child other hchild ho, rfl⟩
        · have hbelow := mem_occurrences_of_mem_children inner child other hchild ho
          exact .inl ⟨other, mem_occurrences_of_mem_children node inner other hinner hbelow, rfl⟩
        · rcases (mem_occurrences_iff _ _).mp ho with rfl | ⟨child, hc, -⟩
          · exact .inr rfl
          · cases hc
      · exact .inr hnil

end Node

theorem genuine_settled (source : List Char) (node : Node) (h : Genuine source node) :
    Genuine source node.settled := by
  intro part hp
  rcases node.mem_occurrences_settled part hp with ⟨other, ho, rfl⟩ | rfl
  · have hown := h other ho
    cases other with
    | call name args line =>
      by_cases hd : Node.isDefinitionHead name = true
      · obtain ⟨args', hsettled⟩ := Node.settled_call name args line
        rw [hsettled]
        intro _ hsome
        rw [Node.markerDigits?_of_isDefinitionHead name hd] at hsome
        cases hsome
      · rw [Node.settled_call_of_not_definition name args line (Bool.not_eq_true _ ▸ hd)]
        intro hargs
        refine hown ?_
        cases args with
        | none => rfl
        | some args => simpa using hargs
    | _ =>
      rw [Node.settled_eq]
      trivial
  · trivial

/-! ### The lines of markers -/

theorem mem_of_mapM {ε α β : Type} (f : α → Except ε β) (items : List α) (results : List β)
    (h : items.mapM f = .ok results) (result : β) :
    result ∈ results ↔ ∃ item ∈ items, f item = .ok result := by
  induction items generalizing results with
  | nil =>
    cases h
    simp
  | cons item items ih =>
    rw [List.mapM_cons] at h
    obtain ⟨first, hfirst, h⟩ := ok_of_bind _ _ _ h
    obtain ⟨rest, hrest, h⟩ := ok_of_bind _ _ _ h
    cases h
    rw [List.mem_cons, ih rest hrest, eq_comm]
    simp only [List.mem_cons, exists_eq_or_imp, hfirst, Except.ok.injEq]

theorem mapM_isOk_iff {ε α β : Type} (f : α → Except ε β) (items : List α) :
    (∃ results, items.mapM f = .ok results) ↔ ∀ item ∈ items, ∃ result, f item = .ok result := by
  induction items with
  | nil => simp [pure, Except.pure]
  | cons item items ih =>
    rw [List.forall_mem_cons, ← ih, List.mapM_cons]
    constructor
    · rintro ⟨results, h⟩
      obtain ⟨first, hfirst, h⟩ := ok_of_bind _ _ _ h
      obtain ⟨rest, hrest, -⟩ := ok_of_bind _ _ _ h
      exact ⟨⟨first, hfirst⟩, rest, hrest⟩
    · rintro ⟨⟨first, hfirst⟩, rest, hrest⟩
      exact ⟨first :: rest, by rw [hfirst, hrest]; rfl⟩

theorem mem_markerLines (node : Node) (found : List Int) (h : markerLines node = .ok found)
    (line : Int) : line ∈ found ↔ ∃ part ∈ node.occurrences, markerLine part = .ok (some line) := by
  obtain ⟨results, hresults, h⟩ := ok_of_bind _ _ _ h
  cases h
  rw [mem_ascending, ← mem_of_mapM markerLine _ results hresults (some line)]
  simp

theorem pairwise_markerLines (node : Node) (found : List Int) (h : markerLines node = .ok found) :
    found.Pairwise (· < ·) := by
  obtain ⟨results, -, h⟩ := ok_of_bind _ _ _ h
  cases h
  exact pairwise_ascending _

theorem sublist_of_subset (found lines : List Int) (hfound : found.Pairwise (· < ·))
    (hlines : lines.Pairwise (· < ·)) (h : ∀ line ∈ found, line ∈ lines) :
    found.Sublist lines := by
  have hsub : found.Subperm lines := List.subperm_of_subset (hfound.imp ne_of_lt) h
  exact List.sublist_of_subperm_of_pairwise hsub hfound hlines

/-- A node of a tree without other markers is no marker, or it is that of a site on its line. -/
theorem markerLine_of_ownMarker {source : List Char} (part : Node) (h : OwnMarker source part) :
    markerLine part = .ok none ∨ ∃ site : Site source,
      part.recordedLine? = some (site.line : Int) ∧
        markerLine part = (readInt (String.ofList (Nat.toDigits 10 site.line))).map some := by
  cases part with
  | call name args line =>
    cases hdigits : markerDigits? name with
    | none =>
      left
      simp only [markerLine, hdigits]
      cases args.getD [] <;> rfl
    | some digits =>
      cases hargs : args.getD [] with
      | cons first rest =>
        left
        simp only [markerLine, hargs]
      | nil =>
        right
        obtain ⟨site, rfl, rfl⟩ := h hargs (by rw [hdigits]; rfl)
        have hmodule : (Node.call (markerName site.line) args (some site.line)).moduleDefinition? =
            none := by
          refine Node.moduleDefinition?_eq_none _ _ _ fun he => ?_
          have hnone : markerDigits? "defmodule" = none := by decide
          rw [he, hnone] at hdigits
          cases hdigits
        rw [markerDigits?_markerName] at hdigits
        refine ⟨site, ?_, ?_⟩
        · rw [Node.recordedLine?, hmodule]
          rfl
        · simp only [markerLine, hargs, markerDigits?_markerName]
          rfl
  | _ => exact .inl rfl

/-- The lines of the markers of a tree without other markers are lines of sites, and occurrences are
recorded on them. -/
theorem site_of_mem_markerLines {source : List Char} (node : Node) (hown : Genuine source node)
    (found : List Int) (h : markerLines node = .ok found) (line : Int) (hline : line ∈ found) :
    (∃ site : Site source, (site.line : Int) = line) ∧
      ∃ part ∈ node.occurrences, part.recordedLine? = some line := by
  obtain ⟨part, hpart, hmarker⟩ := (mem_markerLines node found h line).mp hline
  rcases markerLine_of_ownMarker part (hown part hpart) with hnone | ⟨site, hrecorded, hread⟩
  · rw [hnone] at hmarker
    cases hmarker
  · rw [hread] at hmarker
    obtain ⟨value, hvalue, he⟩ := of_map_eq_ok _ _ _ hmarker
    obtain rfl := Option.some.inj he
    obtain rfl := eq_of_readInt_toDigits site.line value hvalue
    exact ⟨⟨site, rfl⟩, part, hpart, hrecorded⟩

theorem markerLines_isOk {source : List Char} (node : Node) (hown : Genuine source node)
    (hlimit : ∀ site : Site source, site.line < tenPow digitLimit) :
    ∃ found, markerLines node = .ok found := by
  have hread : ∀ part ∈ node.occurrences, ∃ line, markerLine part = .ok line := by
    intro part hpart
    rcases markerLine_of_ownMarker part (hown part hpart) with hnone | ⟨site, -, hread⟩
    · exact ⟨none, hnone⟩
    · rw [readInt_toDigits site.line (hlimit site)] at hread
      exact ⟨_, hread⟩
  obtain ⟨results, hresults⟩ := (mapM_isOk_iff markerLine node.occurrences).mpr hread
  exact ⟨_, by rw [markerLines, hresults]; rfl⟩

theorem mem_markerLines_of_marker (node : Node) (found : List Int)
    (h : markerLines node = .ok found) (line : Nat) (hmarker : Node.marker line ∈ node.occurrences) :
    (line : Int) ∈ found := by
  have hread : markerLine (Node.marker line) =
      (readInt (String.ofList (Nat.toDigits 10 line))).map some := by
    simp only [markerLine, Node.marker, Option.getD_some, markerDigits?_markerName]
    rfl
  obtain ⟨results, hresults, -⟩ := ok_of_bind _ _ _ h
  obtain ⟨result, hresult⟩ :=
    (mapM_isOk_iff markerLine node.occurrences).mp ⟨results, hresults⟩ _ hmarker
  obtain ⟨value, hvalue, rfl⟩ := of_map_eq_ok _ _ _ (hread.symm.trans hresult)
  obtain rfl := eq_of_readInt_toDigits line value hvalue
  exact (mem_markerLines node found h _).mpr ⟨Node.marker line, hmarker, hresult⟩

/-! ### Contexts -/

theorem Metadata.mem_keys_contexts (node tree : Node) (metadata : Metadata)
    (h : build node = .ok (tree, metadata)) (line : Int) (part : Node)
    (hpart : part ∈ tree.occurrences) (hline : part.recordedLine? = some line) :
    line ∈ metadata.contexts.keys := by
  have hnamed := (build_isOk_iff node).mp (by rw [h]; rfl)
  obtain ⟨rfl, rfl⟩ := Prod.mk.inj (Except.ok.inj (h.symm.trans (build_eq node hnamed)))
  rw [← Node.map_node_places, Node.places_settled, List.map_map] at hpart
  obtain ⟨place, hplace, rfl⟩ := List.mem_map.mp hpart
  refine (mem_keys_replay .start line [] node.arrivals).mpr ⟨place, hplace, ?_⟩
  exact (Node.recordedLine?_refined place.node).symm.trans hline

/-! ### Recovered lines -/

/-- The marker of a line lies in a text of a tree, or in a guard that the tree loses. -/
def Node.Conceals (line : Nat) (node : Node) : Prop :=
  (∃ part ∈ node.occurrences, part.Holds line) ∨ ∃ definition ∈ node.occurrences,
    ∃ guard ∈ definition.guards, marker line ∈ guard.occurrences

section Masked

variable {source file : String} {lines : List Int} {node : Node}

/-- The marker of a masked line is found in the settled tree, unless the tree conceals it. -/
theorem mem_markerLines_of_masked (hfree : MarkerFree source)
    (hnode : (Grammar.parse (maskAll source lines) file).value = .ok node) (line : Nat)
    (hline : (line : Int) ∈ lines) (hbounds : 1 ≤ line ∧ line ≤ lineCount source.toList)
    (found : List Int) (hfound : markerLines node.settled = .ok found) :
    (line : Int) ∈ found ∨ node.Conceals line := by
  obtain ⟨site, hsite⟩ := site_of_masked source lines line hline (by omega)
  obtain rfl := Int.ofNat.inj hsite
  obtain ⟨-, hmentions⟩ := parse_mentions _ file node (hfree.onlySites lines) hnode
  obtain ⟨part, hpart, rfl | hholds⟩ := hmentions site
  · rcases Node.marker_mem_settled site.line node hpart with hsettled | hguard
    · exact .inl (mem_markerLines_of_marker node.settled found hfound site.line hsettled)
    · exact .inr (.inr hguard)
  · exact .inr (.inl ⟨part, hpart, hholds⟩)

theorem genuine_settled_of_masked (hfree : MarkerFree source)
    (hnode : (Grammar.parse (maskAll source lines) file).value = .ok node) :
    Genuine (maskAll source lines).toList node.settled :=
  genuine_settled _ node (parse_mentions _ file node (hfree.onlySites lines) hnode).1

end Masked

theorem analyze_recovered (budget : Int) (file source : String)
    (result : Logged (Analysis Finding)) (finding : Finding)
    (h : analyze ⟨true, budget, file⟩ source = .ok result)
    (hfinding : result.value.outcome = .ok finding) :
    ∃ node, (Grammar.parse (maskAll source result.value.recoveredLines) file).value = .ok node ∧
      Metadata.build node = .ok (finding.node, finding.metadata) ∧
      result.value.recoveredLines.Pairwise (· < ·) ∧
      ∀ line ∈ result.value.recoveredLines, 1 ≤ line ∧ line ≤ lineCount source.toList := by
  rcases analyze_cases budget file source result h with
    ⟨lines, node, tree, metadata, hvalue, hnode, hbuild, -, hbounds⟩ | ⟨failure, hvalue⟩
  · rw [hvalue] at hfinding ⊢
    cases hfinding
    refine ⟨node, hnode, hbuild, (Finset.sortedLT_sort lines).pairwise, fun line hline => ?_⟩
    exact hbounds line ((Finset.mem_sort _).mp hline)
  · rw [hvalue] at hfinding
    cases hfinding

/-- In what an analysis with recovery finds in a source without markers, the markers stand for
recovered lines, in order, and their lines have contexts.  The other recovered lines are those whose
markers the parsed tree conceals. -/
theorem analyze_marks (budget : Int) (file source : String) (hfree : MarkerFree source)
    (result : Logged (Analysis Finding)) (finding : Finding)
    (h : analyze ⟨true, budget, file⟩ source = .ok result)
    (hfinding : result.value.outcome = .ok finding) :
    ∃ parsed, (Grammar.parse (maskAll source result.value.recoveredLines) file).value = .ok parsed ∧
      finding.node = parsed.settled ∧
      ((sourceLines source.toList).length < tenPow digitLimit →
        ∃ found, markerLines finding.node = .ok found) ∧
      ∀ found, markerLines finding.node = .ok found →
        found.Sublist result.value.recoveredLines ∧
        (∀ line ∈ found, line ∈ finding.metadata.contexts.keys) ∧
        ∀ line : Nat, (line : Int) ∈ result.value.recoveredLines → (line : Int) ∉ found →
          parsed.Conceals line := by
  obtain ⟨parsed, hparsed, hbuild, hsorted, hbounds⟩ :=
    analyze_recovered budget file source result finding h hfinding
  have htree : finding.node = parsed.settled := by
    have hnamed := (Metadata.build_isOk_iff parsed).mp (by rw [hbuild]; rfl)
    exact (Prod.mk.inj (Except.ok.inj (hbuild.symm.trans (Metadata.build_eq parsed hnamed)))).1
  have hown := genuine_settled_of_masked hfree hparsed
  have hmem := hfree.mem_of_site result.value.recoveredLines
  refine ⟨parsed, hparsed, htree, fun hcount => ?_, fun found hfound => ⟨?_, ?_, ?_⟩⟩
  · rw [htree]
    refine markerLines_isOk parsed.settled hown fun site => ?_
    have hline := (hbounds _ (hmem site)).2
    rw [length_sourceLines] at hcount
    omega
  · have hlines : ∀ line ∈ found, line ∈ result.value.recoveredLines := by
      intro line hline
      obtain ⟨⟨site, rfl⟩, -⟩ :=
        site_of_mem_markerLines parsed.settled hown found (htree ▸ hfound) line hline
      exact hmem site
    exact sublist_of_subset _ _ (pairwise_markerLines _ _ hfound) hsorted hlines
  · intro line hline
    obtain ⟨-, part, hpart, hrecorded⟩ :=
      site_of_mem_markerLines parsed.settled hown found (htree ▸ hfound) line hline
    exact Metadata.mem_keys_contexts parsed _ _ hbuild line part (htree ▸ hpart) hrecorded
  · intro line hline hmissing
    have hline' := hbounds _ hline
    exact (mem_markerLines_of_masked hfree hparsed line hline (by omega) found
      (htree ▸ hfound)).resolve_left hmissing

/-! ### Markers that are not found -/

/-- Two stray brackets, the first of them where the guard of a macro is expected. -/
def guardedMacro : String := "defmacro(f when\n]\n)\n]"

/-- Two strings next to each other on the second of three lines. -/
def adjacentStrings : String := "\"a\nb\" \"c\n\""

theorem guardedMacro_free : MarkerFree guardedMacro := by
  unfold MarkerFree
  decide +kernel

theorem adjacentStrings_free : MarkerFree adjacentStrings := by
  unfold MarkerFree
  decide +kernel

theorem recovered_of_test (source : String) (lines found : List Int) (line : Int)
    (h : (analyze ⟨true, 2, Grammar.defaultFile⟩ source).toOption.any (fun result =>
      result.value.outcome.toOption.any (fun finding => result.value.recoveredLines == lines &&
        (markerLines finding.node).toOption == some found &&
          !finding.metadata.contexts.keys.contains line)) = true) :
    ∃ result finding, analyze ⟨true, 2, Grammar.defaultFile⟩ source = .ok result ∧
      result.value.outcome = .ok finding ∧ result.value.recoveredLines = lines ∧
      markerLines finding.node = .ok found ∧ line ∉ finding.metadata.contexts.keys := by
  obtain ⟨result, hresult, h⟩ := exists_ok_of_any _ _ h
  obtain ⟨finding, hfinding, h⟩ := exists_ok_of_any _ _ h
  simp only [Bool.and_eq_true, beq_iff_eq, Bool.not_eq_true', List.contains_eq_mem,
    decide_eq_false_iff_not] at h
  obtain ⟨⟨hlines, hfound⟩, hkeys⟩ := h
  refine ⟨result, finding, hresult, hfinding, hlines, ?_, hkeys⟩
  cases hmarkers : markerLines finding.node with
  | error fault =>
    rw [hmarkers] at hfound
    cases hfound
  | ok others =>
    rw [hmarkers] at hfound
    rw [Option.some.inj hfound]

theorem guardedMacro_recovered :
    ∃ result finding, analyze ⟨true, 2, Grammar.defaultFile⟩ guardedMacro = .ok result ∧
      result.value.outcome = .ok finding ∧ result.value.recoveredLines = [2, 4] ∧
      markerLines finding.node = .ok [4] ∧ 2 ∉ finding.metadata.contexts.keys :=
  recovered_of_test guardedMacro [2, 4] [4] 2 (by decide +kernel)

theorem analyze_marks_guardedMacro :
    ∃ (result : Logged (Analysis Finding)) (finding : Finding) (parsed : Node),
      analyze ⟨true, 2, Grammar.defaultFile⟩ guardedMacro = .ok result ∧
      result.value.outcome = .ok finding ∧ result.value.recoveredLines = [2, 4] ∧
      markerLines finding.node = .ok [4] ∧ 4 ∈ finding.metadata.contexts.keys ∧
      finding.node = parsed.settled ∧ parsed.Conceals 2 := by
  obtain ⟨result, finding, hresult, hfinding, hlines, hfound, -⟩ := guardedMacro_recovered
  obtain ⟨parsed, -, htree, -, hmarks⟩ :=
    analyze_marks 2 Grammar.defaultFile guardedMacro guardedMacro_free result finding hresult hfinding
  obtain ⟨-, hkeys, hconceals⟩ := hmarks [4] hfound
  refine ⟨result, finding, parsed, hresult, hfinding, hlines, hfound, ?_, htree, ?_⟩
  · exact hkeys 4 List.mem_cons_self
  · exact hconceals 2 (by rw [hlines]; decide) (by decide)

/-- A source without markers that is recovered at lines of which not all are found and not all have
contexts. -/
def LosesMarker (source : String) : Prop :=
  MarkerFree source ∧
    ∃ result finding, analyze ⟨true, 2, Grammar.defaultFile⟩ source = .ok result ∧
      result.value.outcome = .ok finding ∧
      markerLines finding.node ≠ .ok result.value.recoveredLines ∧
      ∃ line ∈ result.value.recoveredLines, line ∉ finding.metadata.contexts.keys

/-- The marker of the first bracket goes with the guard; that of the line between two strings is read
as a part of one string. -/
theorem analyze_loses_marker : LosesMarker guardedMacro ∧ LosesMarker adjacentStrings := by
  constructor
  · obtain ⟨result, finding, hresult, hfinding, hlines, hfound, hkeys⟩ := guardedMacro_recovered
    exact ⟨guardedMacro_free, result, finding, hresult, hfinding, by rw [hfound, hlines]; decide, 2,
      by rw [hlines]; decide, hkeys⟩
  · obtain ⟨result, finding, hresult, hfinding, hlines, hfound, hkeys⟩ :=
      recovered_of_test adjacentStrings [2] [] 2 (by decide +kernel)
    exact ⟨adjacentStrings_free, result, finding, hresult, hfinding, by rw [hfound, hlines]; decide, 2,
      by rw [hlines]; decide, hkeys⟩

end LineScope
