import LineScope.Proofs.Analysis.Isolation

/-!
# Nested scopes

The scope state as a state machine: scopes are opened and closed, and imports, aliases and variables
are noted.  However the steps come, the three stacks keep the same height.  Steps that are nested like
brackets change nothing around the scope they are taken in, so closing it gives back the state in
front of it.
-/

namespace LineScope

/-- A step of the scope state. -/
inductive ScopeStep where
  | enter (names segments : List String)
  | leave (depth moduleDepth : Int)
  | addImport (name : String)
  | addAlias (short full : String)
  | addVar (name : String)
deriving DecidableEq, Repr

namespace Scope

/-- The state behind a step, if the step can be taken. -/
def take (scope : Scope) : ScopeStep → Except ScopeError Scope
  | .enter names segments => .ok (scope.enter names segments)
  | .leave depth moduleDepth => scope.leave depth moduleDepth
  | .addImport name => scope.addImport name
  | .addAlias short full => scope.addAlias short full
  | .addVar name => scope.addVar name

/-- The state behind a step; a step that cannot be taken leaves it as it was. -/
def attempt (scope : Scope) (step : ScopeStep) : Scope :=
  match scope.take step with
  | .ok next => next
  | .error _ => scope

/-! ### Equal heights -/

/-- The three stacks have equally many frames. -/
structure SameHeights (scope : Scope) : Prop where
  aliases : scope.aliases.length = scope.imports.length
  vars : scope.vars.length = scope.imports.length

theorem length_of_pop? {α : Type} {frames rest : FrameStack α} (h : frames.pop? = some rest) :
    frames.length = rest.length + 1 := by
  cases frames with
  | nil => cases h
  | cons frame frames =>
    cases h
    rfl

theorem length_of_prepend? {α : Type} {frames next : FrameStack α} {entry : α}
    (h : frames.prepend? entry = some next) : next.length = frames.length := by
  cases frames with
  | nil => cases h
  | cons frame frames =>
    cases h
    rfl

theorem leave_inv {scope next : Scope} {depth moduleDepth : Int}
    (h : scope.leave depth moduleDepth = .ok next) :
    scope.imports.pop? = some next.imports ∧ scope.aliases.pop? = some next.aliases ∧
      scope.vars.pop? = some next.vars := by
  unfold leave at h
  split at h
  · cases h
  · split at h
    · cases h
      exact ⟨‹_›, ‹_›, ‹_›⟩
    · cases h

theorem SameHeights.take {scope next : Scope} {step : ScopeStep} (h : scope.SameHeights)
    (hstep : scope.take step = .ok next) : next.SameHeights := by
  have ha := h.aliases
  have hv := h.vars
  cases step with
  | enter names segments =>
    cases hstep
    constructor <;> simp only [enter, FrameStack.push, List.length_cons] <;> omega
  | leave depth moduleDepth =>
    obtain ⟨himports, haliases, hvars⟩ := leave_inv hstep
    have hi := length_of_pop? himports
    have ha' := length_of_pop? haliases
    have hv' := length_of_pop? hvars
    constructor <;> omega
  | addImport name =>
    simp only [Scope.take, Scope.addImport] at hstep
    split at hstep
    · rename_i imports himports
      cases hstep
      have hi := length_of_prepend? himports
      constructor <;> dsimp only <;> omega
    · cases hstep
  | addAlias short full =>
    simp only [Scope.take, Scope.addAlias] at hstep
    split at hstep
    · rename_i aliases haliases
      cases hstep
      have ha' := length_of_prepend? haliases
      constructor <;> dsimp only <;> omega
    · cases hstep
  | addVar name =>
    simp only [Scope.take, Scope.addVar] at hstep
    split at hstep
    · rename_i vars hvars
      cases hstep
      have hv' := length_of_prepend? hvars
      constructor <;> dsimp only <;> omega
    · cases hstep

theorem SameHeights.attempt {scope : Scope} (h : scope.SameHeights) (step : ScopeStep) :
    (scope.attempt step).SameHeights := by
  unfold Scope.attempt
  cases hstep : scope.take step with
  | ok next => exact h.take hstep
  | error e => exact h

theorem SameHeights.attempts {scope : Scope} (h : scope.SameHeights) (steps : List ScopeStep) :
    (steps.foldl Scope.attempt scope).SameHeights := by
  induction steps generalizing scope with
  | nil => exact h
  | cons step steps ih => exact ih (h.attempt step)

end Scope

/-! ### Nested steps -/

/-- A step that notes something in the innermost scope. -/
def ScopeStep.IsNote : ScopeStep → Prop
  | .enter _ _ => False
  | .leave _ _ => False
  | _ => True

/-- Steps in which every scope that is opened has names, and is closed by the numbers of its names and
segments. -/
inductive WellNested : List ScopeStep → Prop
  | nil : WellNested []
  | note (step : ScopeStep) {steps : List ScopeStep} (hstep : step.IsNote)
      (hsteps : WellNested steps) : WellNested (step :: steps)
  | scope (names segments : List String) {inside behind : List ScopeStep} (hnames : names ≠ [])
      (hinside : WellNested inside) (hbehind : WellNested behind) :
      WellNested (.enter names segments ::
        (inside ++ .leave names.length segments.length :: behind))

theorem FrameStack.Grows.refl {α : Type} {frames : FrameStack α} (h : frames ≠ []) :
    frames.Grows frames := by
  obtain ⟨frame, outer, rfl⟩ := List.exists_cons_of_ne_nil h
  exact ⟨[], frame, outer, rfl, rfl⟩

theorem FrameStack.Grows.modifyHead {α : Type} {frames : FrameStack α} (h : frames ≠ [])
    (entry : α) : frames.Grows (frames.modifyHead (entry :: ·)) := by
  obtain ⟨frame, outer, rfl⟩ := List.exists_cons_of_ne_nil h
  exact ⟨[entry], frame, outer, rfl, rfl⟩

theorem FrameStack.Grows.trans {α : Type} {first second third : FrameStack α}
    (h : first.Grows second) (h' : second.Grows third) : first.Grows third := by
  obtain ⟨added, frame, outer, rfl, rfl⟩ := h
  obtain ⟨later, _, _, hsecond, rfl⟩ := h'
  obtain ⟨rfl, rfl⟩ := List.cons.inj hsecond
  exact ⟨later ++ added, frame, outer, rfl, by rw [List.append_assoc]⟩

theorem FrameStack.Grows.ne_nil {α : Type} {before after : FrameStack α}
    (h : before.Grows after) : after ≠ [] := by
  obtain ⟨added, frame, outer, -, rfl⟩ := h
  exact List.cons_ne_nil _ _

namespace Scope

theorem Grows.refl {scope : Scope} (h : scope.IsOpen) : scope.Grows scope :=
  ⟨rfl, rfl, .refl h.imports, .refl h.aliases, .refl h.vars⟩

theorem Grows.trans {first second third : Scope} (h : first.Grows second)
    (h' : second.Grows third) : first.Grows third where
  modulePath := h'.modulePath.trans h.modulePath
  names := h'.names.trans h.names
  imports := h.imports.trans h'.imports
  aliases := h.aliases.trans h'.aliases
  vars := h.vars.trans h'.vars

theorem Grows.isOpen {before after : Scope} (h : before.Grows after) (hopen : before.IsOpen) :
    after.IsOpen where
  names := h.names ▸ hopen.names
  imports := h.imports.ne_nil
  aliases := h.aliases.ne_nil
  vars := h.vars.ne_nil

theorem take_of_isNote (scope : Scope) (step : ScopeStep) (hstep : step.IsNote)
    (h : scope.IsOpen) : ∃ next, scope.take step = .ok next ∧ scope.Grows next := by
  have hself := Grows.refl h
  cases step with
  | enter names segments => exact hstep.elim
  | leave depth moduleDepth => exact hstep.elim
  | addImport name =>
    exact ⟨_, addImport_of_isOpen scope name h, { hself with imports := .modifyHead h.imports name }⟩
  | addAlias short full =>
    exact ⟨_, addAlias_of_isOpen scope short full h,
      { hself with aliases := .modifyHead h.aliases (short, full) }⟩
  | addVar name =>
    exact ⟨_, addVar_of_isOpen scope name h, { hself with vars := .modifyHead h.vars name }⟩

theorem enter_isOpen (scope : Scope) (names segments : List String) (h : scope.names ≠ []) :
    (scope.enter names segments).IsOpen := by
  constructor <;> simp [enter, FrameStack.push, h]

/-- Closing a scope in which nothing but notes were added gives back the state in front of it. -/
theorem leave_of_grows (scope after : Scope) (names segments : List String)
    (h : (scope.enter names segments).Grows after) (hnames : names ≠ []) (hs : scope.names ≠ []) :
    after.leave names.length segments.length = .ok scope := by
  obtain ⟨path, outer, imports, aliases, vars⟩ := after
  obtain ⟨rfl, rfl, ⟨_, _, _, himports, rfl⟩, ⟨_, _, _, haliases, rfl⟩, ⟨_, _, _, hvars, rfl⟩⟩ := h
  cases himports
  cases haliases
  cases hvars
  have hleave := leave_of_entered scope.modulePath names.reverse segments scope.names scope.imports
    scope.aliases scope.vars
  rw [List.length_reverse] at hleave
  exact hleave _ _ _ (List.reverse_ne_nil_iff.mpr hnames) hs

theorem foldlM_scope (scope inner : Scope) (names segments : List String)
    (inside behind : List ScopeStep)
    (hinside : inside.foldlM take (scope.enter names segments) = .ok inner)
    (hleave : inner.leave names.length segments.length = .ok scope) :
    (.enter names segments :: (inside ++ .leave names.length segments.length :: behind)).foldlM take
      scope = behind.foldlM take scope := by
  rw [List.foldlM_cons]
  show (inside ++ _).foldlM take (scope.enter names segments) = _
  rw [List.foldlM_append, hinside]
  show (inner.leave names.length segments.length >>= fun next => behind.foldlM take next) = _
  rw [hleave]
  rfl

/-- Nested steps can be taken in any open state, and add to its innermost frames only. -/
theorem foldlM_of_wellNested (scope : Scope) (steps : List ScopeStep) (hsteps : WellNested steps)
    (h : scope.IsOpen) : ∃ after, steps.foldlM take scope = .ok after ∧ scope.Grows after := by
  induction hsteps generalizing scope with
  | nil => exact ⟨scope, rfl, .refl h⟩
  | note step hstep _ ih =>
    obtain ⟨next, hnext, hgrows⟩ := take_of_isNote scope step hstep h
    obtain ⟨after, hafter, hrest⟩ := ih next (hgrows.isOpen h)
    refine ⟨after, ?_, hgrows.trans hrest⟩
    rw [List.foldlM_cons, hnext]
    exact hafter
  | scope names segments hnames _ _ ihinside ihbehind =>
    obtain ⟨inner, hinner, hgrows⟩ :=
      ihinside (scope.enter names segments) (enter_isOpen scope names segments h.names)
    obtain ⟨after, hafter, hrest⟩ := ihbehind scope h
    have hleave := leave_of_grows scope inner names segments hgrows hnames h.names
    exact ⟨after, (foldlM_scope scope inner names segments _ _ hinner hleave).trans hafter, hrest⟩

/-- However steps are taken from the start, the three stacks have equally many frames.  In any state
with a name, a scope that is opened, filled by nested steps and closed leaves the state as it was. -/
theorem scopes_nest :
    (∀ steps : List ScopeStep, (steps.foldl attempt start).SameHeights) ∧
      ∀ (scope : Scope) (names segments : List String) (steps : List ScopeStep),
        scope.names ≠ [] → names ≠ [] → WellNested steps →
          (.enter names segments :: (steps ++ [.leave names.length segments.length])).foldlM take
            scope = .ok scope := by
  refine ⟨fun steps => SameHeights.attempts ⟨rfl, rfl⟩ steps, ?_⟩
  intro scope names segments steps hs hnames hsteps
  obtain ⟨inner, hinner, hgrows⟩ :=
    foldlM_of_wellNested _ steps hsteps (enter_isOpen scope names segments hs)
  have hleave := leave_of_grows scope inner names segments hgrows hnames hs
  exact foldlM_scope scope inner names segments steps [] hinner hleave

/-- The steps inside a module with an alias, a function with a variable, and an import. -/
def moduleSteps : List ScopeStep :=
  [.addAlias "Repo" "App.Repo", .enter ["run"] [], .addVar "conn", .leave 1 0, .addImport "Enum"]

theorem wellNested_moduleSteps : WellNested moduleSteps := by
  have hinside : WellNested [.addVar "conn"] := .note (.addVar "conn") trivial .nil
  have hbehind : WellNested [.addImport "Enum"] := .note (.addImport "Enum") trivial .nil
  exact .note (.addAlias "Repo" "App.Repo") trivial
    (.scope ["run"] [] (List.cons_ne_nil _ _) hinside hbehind)

theorem scopes_nest_insideModule :
    WellNested moduleSteps ∧
      (.enter ["Web", "Api"] ["Web", "Api"] :: (moduleSteps ++ [.leave 2 2])).foldlM take
        Metadata.insideModule.scope = .ok Metadata.insideModule.scope :=
  ⟨wellNested_moduleSteps,
    scopes_nest.2 Metadata.insideModule.scope ["Web", "Api"] ["Web", "Api"] moduleSteps
      (List.cons_ne_nil _ _) (List.cons_ne_nil _ _) wellNested_moduleSteps⟩

end Scope

end LineScope
