import LineScope.Analysis.Query
import LineScope.Proofs.Analysis.Contexts
import LineScope.Proofs.Analysis.MissingName

/-!
# The table of definitions as a history

The walk writes the table of definitions on arrival at each definition.  A module and a function of
one arity keep the line that was written last, a function of any arity the one that was written
first, and the keys stay in the order of their first writes.
-/

namespace LineScope

/-! ### Keys of a table -/

namespace Table

variable {κ α : Type} [DecidableEq κ]

theorem map_setEntry (key : κ) (value : α) (entries : List (κ × α)) :
    (setEntry key value entries).map (·.1) =
      if key ∈ entries.map (·.1) then entries.map (·.1) else entries.map (·.1) ++ [key] := by
  induction entries with
  | nil => rfl
  | cons entry entries ih =>
    rw [setEntry]
    by_cases hk : entry.1 = key
    · simp [hk]
    · have hne : ¬ key = entry.1 := Ne.symm hk
      simp only [if_neg hk, List.map_cons, List.mem_cons, hne, false_or]
      rw [ih, apply_ite (List.cons entry.1)]
      rfl

theorem keys_set (table : Table κ α) (key : κ) (value : α) :
    (table.set key value).keys = if key ∈ table.keys then table.keys else table.keys ++ [key] :=
  map_setEntry key value table.entries

theorem keys_setDefault (table : Table κ α) (key : κ) (value : α) :
    (table.setDefault key value).keys =
      if key ∈ table.keys then table.keys else table.keys ++ [key] := by
  unfold setDefault
  by_cases h : key ∈ table.keys
  · rw [if_pos ((mem_keys_iff table key).mp h), if_pos h]
  · rw [if_neg fun hs => h ((mem_keys_iff table key).mpr hs), keys_set]

end Table

/-- One more key in the order of first writes. -/
theorem eraseDups_concat {κ : Type} [DecidableEq κ] (keys : List κ) (key : κ) :
    (keys ++ [key]).eraseDups =
      if key ∈ keys.eraseDups then keys.eraseDups else keys.eraseDups ++ [key] := by
  rw [List.eraseDups_append]
  by_cases h : key ∈ keys
  · simp [List.removeAll, h]
  · simp [List.removeAll, h, List.eraseDups_cons]

/-! ### Visited definitions -/

/-- A definition that a walk comes to: a module by its full name, or a function with the module
around it. -/
inductive VisitedDefinition where
  | module (name : String) (line : Int)
  | function (module : String) (defined : Node.FunctionDefinition)
deriving DecidableEq, Repr

namespace VisitedDefinition

def line : VisitedDefinition → Int
  | .module _ line => line
  | .function _ defined => defined.line

def isModule (name : String) : VisitedDefinition → Bool
  | .module other _ => other = name
  | .function _ _ => false

def isFunction (outer name : String) : VisitedDefinition → Bool
  | .module _ _ => false
  | .function other defined => other = outer ∧ defined.name = name

def isArity (outer name : String) (arity : Int) : VisitedDefinition → Bool
  | .module _ _ => false
  | .function other defined => other = outer ∧ defined.name = name ∧ defined.arity = arity

/-- The keys that a definition is written under, in the order of writing. -/
def keys : VisitedDefinition → List DefinitionKey
  | .module name _ => [.ofModule name]
  | .function outer defined =>
    [.ofArity outer defined.name defined.arity, .ofFunction outer defined.name]

/-- What a definition writes. -/
def write (definitions : Definitions) : VisitedDefinition → Definitions
  | .module name line => definitions.set (.ofModule name) line
  | .function outer defined =>
    (definitions.set (.ofArity outer defined.name defined.arity) defined.line).setDefault
      (.ofFunction outer defined.name) defined.line

end VisitedDefinition

/-- The definition at a place, named by the modules around it. -/
def Place.definition? (place : Place) : Option VisitedDefinition :=
  match place.node.moduleDefinition? with
  | some (segments, line) =>
    some (.module (modulePathName (modulePathOf place.scopes ++ segments)) line)
  | none =>
    place.node.functionDefinition?.map (.function (modulePathName (modulePathOf place.scopes)))

/-- The definitions of a tree in the order in which an analysis comes to them. -/
def Node.definitions (node : Node) : List VisitedDefinition :=
  node.arrivals.filterMap Place.definition?

theorem replay_writeDefinitions (visited places : List Place) (definitions : Definitions) :
    replay Metadata.writeDefinitions .start visited places definitions =
      (places.filterMap Place.definition?).foldl VisitedDefinition.write definitions := by
  induction places generalizing visited definitions with
  | nil => rfl
  | cons place places ih =>
    have hpath : (scopeAt .start visited place.scopes).modulePath = modulePathOf place.scopes := rfl
    rw [replay, ih, Metadata.writeDefinitions, Scope.currentModule, hpath]
    cases hm : place.node.moduleDefinition? with
    | some found =>
      have hdefinition : place.definition? = some (.module
          (modulePathName (modulePathOf place.scopes ++ found.1)) found.2) := by
        simp only [Place.definition?, hm]
      rw [List.filterMap_cons_some hdefinition]
      rfl
    | none =>
      have hdefinition : place.definition? = place.node.functionDefinition?.map
          (.function (modulePathName (modulePathOf place.scopes))) := by
        simp only [Place.definition?, hm]
      cases hf : place.node.functionDefinition? with
      | some defined =>
        rw [hf] at hdefinition
        rw [List.filterMap_cons_some hdefinition]
        rfl
      | none =>
        rw [hf] at hdefinition
        rw [List.filterMap_cons_none hdefinition]

/-! ### Two ways of overwriting -/

section Overwriting

variable (key : DefinitionKey) (p : VisitedDefinition → Bool)

/-- Where each definition of a kind overwrites, the last one is kept. -/
theorem get?_foldl_last
    (hwrite : ∀ definition definitions, (VisitedDefinition.write definitions definition).get? key =
      if p definition then some definition.line else definitions.get? key)
    (history : List VisitedDefinition) (definitions : Definitions) :
    (history.foldl VisitedDefinition.write definitions).get? key =
      ((history.filter p).getLast?.map (·.line)).or (definitions.get? key) := by
  induction history generalizing definitions with
  | nil => rfl
  | cons definition history ih =>
    rw [List.foldl_cons, ih, hwrite, List.filter_cons]
    split
    · rw [List.getLast?_cons]
      cases (history.filter p).getLast? <;> rfl
    · rfl

/-- Where a definition of a kind writes only if nothing is there, the first one is kept. -/
theorem get?_foldl_first
    (hwrite : ∀ definition definitions, (VisitedDefinition.write definitions definition).get? key =
      (definitions.get? key).or (if p definition then some definition.line else none))
    (history : List VisitedDefinition) (definitions : Definitions) :
    (history.foldl VisitedDefinition.write definitions).get? key =
      (definitions.get? key).or ((history.filter p).head?.map (·.line)) := by
  induction history generalizing definitions with
  | nil => exact (Option.or_none).symm
  | cons definition history ih =>
    rw [List.foldl_cons, ih, hwrite, List.filter_cons, Option.or_assoc]
    split
    · rfl
    · rw [Option.none_or]

end Overwriting

namespace VisitedDefinition

theorem get?_write_ofModule (name : String) (definition : VisitedDefinition)
    (definitions : Definitions) :
    (write definitions definition).get? (.ofModule name) =
      if definition.isModule name then some definition.line
      else definitions.get? (.ofModule name) := by
  cases definition with
  | module other line =>
    simp [write, isModule, Table.get?_set, DefinitionKey.ofModule, VisitedDefinition.line]
  | function other defined =>
    simp [write, isModule, Table.get?_set, Table.get?_setDefault, DefinitionKey.ofModule,
      DefinitionKey.ofFunction, DefinitionKey.ofArity]

theorem get?_write_ofArity (outer name : String) (arity : Int) (definition : VisitedDefinition)
    (definitions : Definitions) :
    (write definitions definition).get? (.ofArity outer name arity) =
      if definition.isArity outer name arity then some definition.line
      else definitions.get? (.ofArity outer name arity) := by
  cases definition with
  | module other line =>
    simp [write, isArity, Table.get?_set, DefinitionKey.ofModule, DefinitionKey.ofArity]
  | function other defined =>
    simp [write, isArity, Table.get?_set, Table.get?_setDefault, DefinitionKey.ofFunction,
      DefinitionKey.ofArity, VisitedDefinition.line]

theorem get?_write_ofFunction (outer name : String) (definition : VisitedDefinition)
    (definitions : Definitions) :
    (write definitions definition).get? (.ofFunction outer name) =
      (definitions.get? (.ofFunction outer name)).or
        (if definition.isFunction outer name then some definition.line else none) := by
  cases definition with
  | module other line =>
    simp [write, isFunction, Table.get?_set, DefinitionKey.ofModule, DefinitionKey.ofFunction]
  | function other defined =>
    simp [write, isFunction, Table.get?_set, Table.get?_setDefault, DefinitionKey.ofFunction,
      DefinitionKey.ofArity, VisitedDefinition.line]

/-- A definition adds those of its keys that are new. -/
theorem keys_write (definition : VisitedDefinition) (definitions : Definitions)
    (written : List DefinitionKey) (h : definitions.keys = written.eraseDups) :
    (write definitions definition).keys = (written ++ definition.keys).eraseDups := by
  cases definition with
  | module name line => rw [write, Table.keys_set, h, keys, eraseDups_concat]
  | function outer defined =>
    have hsplit : written ++ keys (.function outer defined) =
        written ++ [.ofArity outer defined.name defined.arity] ++
          [.ofFunction outer defined.name] := by simp [keys]
    rw [hsplit, write, Table.keys_setDefault, Table.keys_set, h, eraseDups_concat, eraseDups_concat]

end VisitedDefinition

theorem keys_foldl_write (history : List VisitedDefinition) (definitions : Definitions)
    (written : List DefinitionKey) (h : definitions.keys = written.eraseDups) :
    (history.foldl VisitedDefinition.write definitions).keys =
      (written ++ history.flatMap VisitedDefinition.keys).eraseDups := by
  induction history generalizing definitions written with
  | nil => simpa using h
  | cons definition history ih =>
    rw [List.foldl_cons, ih _ _ (definition.keys_write definitions written h), List.flatMap_cons,
      List.append_assoc]

/-! ### The whole table -/

theorem mem_keys_ofFunction_iff (history : List VisitedDefinition) (outer name : String) :
    DefinitionKey.ofFunction outer name ∈ history.flatMap VisitedDefinition.keys ↔
      ∃ arity, DefinitionKey.ofArity outer name arity ∈
        history.flatMap VisitedDefinition.keys := by
  simp only [List.mem_flatMap]
  constructor
  · rintro ⟨definition, hm, hk⟩
    cases definition with
    | module other line =>
      simp [VisitedDefinition.keys, DefinitionKey.ofFunction, DefinitionKey.ofModule] at hk
    | function other defined =>
      have hsame : outer = other ∧ name = defined.name := by
        simpa [VisitedDefinition.keys, DefinitionKey.ofFunction, DefinitionKey.ofArity] using hk
      refine ⟨defined.arity, _, hm, ?_⟩
      rw [hsame.1, hsame.2]
      exact List.mem_cons_self
  · rintro ⟨arity, definition, hm, hk⟩
    cases definition with
    | module other line =>
      simp [VisitedDefinition.keys, DefinitionKey.ofArity, DefinitionKey.ofModule] at hk
    | function other defined =>
      have hsame : outer = other ∧ name = defined.name ∧ arity = defined.arity := by
        simpa [VisitedDefinition.keys, DefinitionKey.ofFunction, DefinitionKey.ofArity] using hk
      refine ⟨_, hm, ?_⟩
      rw [hsame.1, hsame.2.1]
      exact List.mem_cons_of_mem _ List.mem_cons_self

theorem functionLine_of_mem_keys (index : DocIndex) (metadata : Metadata) (outer name : String)
    (h : DefinitionKey.ofFunction outer name ∈ metadata.definitions.keys) :
    ∃ line, metadata.definitionLine? (.ofFunction outer name) = some line ∧
      functionLine index (some metadata) outer name = .quiet (some line) := by
  obtain ⟨line, hline⟩ := Option.isSome_iff_exists.mp ((Table.mem_keys_iff _ _).mp h)
  have hline' : metadata.definitionLine? (.ofFunction outer name) = some line := hline
  refine ⟨line, hline', ?_⟩
  rw [functionLine, hline']

/-- The table of definitions is the history of the definitions that the analysis comes to: the last
module of a name, the first function of a name and the last one of each arity, in the order of first
writes.  A line from the index of documentation is given only for a function without a definition. -/
theorem Metadata.build_definitions (node tree : Node) (metadata : Metadata)
    (h : build node = .ok (tree, metadata)) :
    (∀ name, metadata.definitions.get? (.ofModule name) =
      (node.definitions.filter (·.isModule name)).getLast?.map (·.line)) ∧
    (∀ outer name, metadata.definitions.get? (.ofFunction outer name) =
      (node.definitions.filter (·.isFunction outer name)).head?.map (·.line)) ∧
    (∀ outer name arity, metadata.definitions.get? (.ofArity outer name arity) =
      (node.definitions.filter (·.isArity outer name arity)).getLast?.map (·.line)) ∧
    metadata.definitions.keys = (node.definitions.flatMap (·.keys)).eraseDups ∧
    (∀ key ∈ metadata.definitions.keys, ∃ definition ∈ node.definitions, key ∈ definition.keys) ∧
    (∀ outer name, DefinitionKey.ofFunction outer name ∈ metadata.definitions.keys ↔
      ∃ arity, DefinitionKey.ofArity outer name arity ∈ metadata.definitions.keys) ∧
    ∀ index outer name,
      (∃ arity, DefinitionKey.ofArity outer name arity ∈ metadata.definitions.keys) →
        ∃ line, metadata.definitionLine? (.ofFunction outer name) = some line ∧
          functionLine index (some metadata) outer name = .quiet (some line) := by
  have hnamed := (build_isOk_iff node).mp (by rw [h]; rfl)
  have htable : metadata.definitions =
      node.definitions.foldl VisitedDefinition.write .empty := by
    have hbuilt := h.symm.trans (build_eq node hnamed)
    rw [(Prod.mk.inj (Except.ok.inj hbuilt)).2, Node.definitions, ← replay_writeDefinitions []]
    rfl
  have hkeys : metadata.definitions.keys = (node.definitions.flatMap (·.keys)).eraseDups := by
    rw [htable, keys_foldl_write node.definitions .empty [] rfl, List.nil_append]
  have hiff : ∀ outer name, DefinitionKey.ofFunction outer name ∈ metadata.definitions.keys ↔
      ∃ arity, DefinitionKey.ofArity outer name arity ∈ metadata.definitions.keys := by
    intro outer name
    simp only [hkeys, List.mem_eraseDups]
    exact mem_keys_ofFunction_iff node.definitions outer name
  refine ⟨fun name => ?_, fun outer name => ?_, fun outer name arity => ?_, hkeys, fun key hk => ?_,
    hiff, fun index outer name hdefined => ?_⟩
  · rw [htable, get?_foldl_last _ _ (VisitedDefinition.get?_write_ofModule name), Table.get?_empty,
      Option.or_none]
  · rw [htable, get?_foldl_first _ _ (VisitedDefinition.get?_write_ofFunction outer name),
      Table.get?_empty, Option.none_or]
  · rw [htable, get?_foldl_last _ _ (VisitedDefinition.get?_write_ofArity outer name arity),
      Table.get?_empty, Option.or_none]
  · rw [hkeys, List.mem_eraseDups] at hk
    exact List.mem_flatMap.mp hk
  · exact functionLine_of_mem_keys index metadata outer name ((hiff outer name).mpr hdefined)

/-- A file in which a module is opened twice, with a guarded function, one of another arity, and the
first one again. -/
def reopenedFile : Node :=
  .block
    [.call "defmodule" (some [.aliases ["App"], .list [.pair (.atom "do") (.block
        [.call "def" (some [.call "when" (some [.call "run" (some [.ident "x" (some 2) none]) (some 2),
            .literal (.boolean true)]) (some 2), .literal .nil]) (some 2),
          .call "defp" (some [.ident "run" (some 3) none, .literal .nil]) (some 3)])]]) (some 1),
      .call "defmodule" (some [.aliases ["App"], .list [.pair (.atom "do")
        (.call "def" (some [.call "run" (some [.literal .nil]) (some 6), .literal .nil])
          (some 6))]]) (some 5)]

theorem Metadata.build_definitions_reopenedFile :
    ∃ tree metadata, build reopenedFile = .ok (tree, metadata) ∧
      metadata.definitions.get? (.ofModule "App") = some 5 ∧
      metadata.definitions.get? (.ofFunction "App" "run") = some 2 ∧
      metadata.definitions.get? (.ofArity "App" "run" 1) = some 6 ∧
      metadata.definitions.keys = [.ofModule "App", .ofArity "App" "run" 1, .ofFunction "App" "run",
        .ofArity "App" "run" 0] := by
  have hbuild := build_eq reopenedFile (by decide)
  obtain ⟨hmodule, hfunction, harity, hkeys, -⟩ := build_definitions reopenedFile _ _ hbuild
  refine ⟨_, _, hbuild, ?_, ?_, ?_, ?_⟩
  · rw [hmodule]
    decide
  · rw [hfunction]
    decide
  · rw [harity]
    decide
  · rw [hkeys]
    decide

end LineScope
