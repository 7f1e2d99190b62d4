import LineScope.CommandLine.Run
import LineScope.Proofs.Analysis.Escape
import LineScope.Proofs.Analysis.IndexEntries
import LineScope.Proofs.Node.Children

/-!
# How a run ends

A run whose arguments are accepted and whose file is analysed either writes one document, or writes
nothing but a notice on the error channel.  It stops without either in three cases only: the index
of documentation has a form that reading it does not expect, the analysis of the source with the
line masked needs a missing name, or the quoted code holds an integer beyond the digit limit.
-/

namespace LineScope

/-! ### Results -/

theorem exists_of_isOk {ε α : Type} (result : Except ε α) (h : result.isOk = true) :
    ∃ value, result = .ok value := by
  cases result with
  | error e => cases h
  | ok value => exact ⟨value, rfl⟩

theorem map_returns_iff {ε α β : Type} (f : α → β) (result : Except ε α) :
    (∃ value, result.map f = .ok value) ↔ ∃ value, result = .ok value := by
  cases result with
  | error e => exact iff_of_false nofun nofun
  | ok value => exact iff_of_true ⟨_, rfl⟩ ⟨_, rfl⟩

theorem mapError_returns_iff {ε δ α : Type} (f : ε → δ) (result : Except ε α) :
    (∃ value, result.mapError f = .ok value) ↔ ∃ value, result = .ok value := by
  cases result with
  | error e => exact iff_of_false nofun nofun
  | ok value => exact iff_of_true ⟨_, rfl⟩ ⟨_, rfl⟩

/-! ### Code that can be written -/

namespace Node

theorem allWritable_iff (nodes : List Node) :
    allWritable nodes = true ↔ ∀ node ∈ nodes, node.isWritable = true := by
  induction nodes with
  | nil => simp [allWritable]
  | cons node nodes ih => simp [allWritable, ih]

theorem argumentsWritable_iff (args : Option (List Node)) :
    argumentsWritable args = true ↔ ∀ node ∈ args.getD [], node.isWritable = true := by
  cases args with
  | none => simp [argumentsWritable]
  | some args => exact allWritable_iff args

/-- A node can be written if its children can, and it is no integer beyond the digit limit. -/
theorem isWritable_step (node : Node) :
    node.isWritable = true ↔
      (∀ value : Int, node = .literal (.integer value) → Number.isWritable value = true) ∧
        ∀ child ∈ node.children, child.isWritable = true := by
  cases node with
  | call name args line => simp [isWritable, children, argumentsWritable_iff]
  | apply head args line => simp [isWritable, children, argumentsWritable_iff]
  | pair left right => simp [isWritable, children]
  | list items => simp [isWritable, children, allWritable_iff]
  | literal value => cases value <;> simp [isWritable, children, Literal.isWritable]
  | ident name line context => simp [isWritable, children]

/-- A node can be written exactly if no integer in it is beyond the digit limit. -/
theorem isWritable_iff (node : Node) :
    node.isWritable = true ↔ ∀ value : Int, .literal (.integer value) ∈ node.occurrences →
      Number.isWritable value = true := by
  induction node using induction_depth with
  | step node ih =>
    rw [isWritable_step]
    constructor
    · rintro ⟨hself, hchildren⟩ value hvalue
      rw [occurrences_eq, List.mem_cons, List.mem_flatMap] at hvalue
      rcases hvalue with hvalue | ⟨child, hc, hvalue⟩
      · exact hself value hvalue.symm
      · have hchild := ih child (depth_lt_of_mem_children node child hc)
        exact hchild.mp (hchildren child hc) value hvalue
    · intro hall
      refine ⟨fun value hself => hall value (hself ▸ self_mem_occurrences node), fun child hc => ?_⟩
      exact (ih child (depth_lt_of_mem_children node child hc)).mpr fun value hvalue =>
        hall value (mem_occurrences_of_mem_children node child _ hc hvalue)

end Node

/-! ### The analysis with a line masked -/

/-- The analysis of a source with a line masked does not escape: if the source parses, no place of
its tree needs a missing name. -/
def MaskedNamed (source : String) (line : Int) : Prop :=
  ∀ tree, (Grammar.parse (maskLine source line) Grammar.defaultFile).value = .ok tree →
    ∀ place ∈ tree.arrivals, place.node.lacksName = false

theorem analyze_without_recovery (budget : Int) (file source : String) :
    analyze ⟨false, budget, file⟩ source = analyzeOnce file source := by
  unfold analyze
  cases analyzeOnce file source with
  | error escape => rfl
  | ok first =>
    dsimp only [bind, Except.bind]
    cases first.value.outcome <;> rfl

/-- The context of a source with a line masked is read off one analysis without recovery. -/
theorem maskedContext_eq (source : String) (line : Int) :
    maskedContext source line =
      (analyzeOnce Grammar.defaultFile (maskLine source line)).map fun masked =>
        masked.map fun analysis =>
          match analysis.outcome with
          | .error _ => .empty
          | .ok finding => (finding.metadata.contextAt? line).getD .empty := by
  unfold maskedContext
  rw [analyze_without_recovery]
  generalize analyzeOnce Grammar.defaultFile (maskLine source line) = result
  cases result <;> rfl

theorem analyzeOnce_returns_iff (file text : String) :
    (∃ result, analyzeOnce file text = .ok result) ↔
      ∀ tree, (Grammar.parse text file).value = .ok tree →
        ∀ place ∈ tree.arrivals, place.node.lacksName = false := by
  have hwalked := walked_isOk_iff ⟨(Grammar.parse text file).value, [], file⟩
  rwa [← analyzeOnce_eq, map_returns_iff] at hwalked

theorem maskedContext_returns_iff (source : String) (line : Int) :
    (∃ context, maskedContext source line = .ok context) ↔ MaskedNamed source line := by
  rw [maskedContext_eq, map_returns_iff, analyzeOnce_returns_iff]
  rfl

theorem contextAt_returns_iff (source : String) (metadata : Metadata) (line : Int) :
    (∃ context, contextAt source (some metadata) line = .ok context) ↔
      (metadata.contextAt? line = none → MaskedNamed source line) := by
  unfold contextAt
  rw [← maskedContext_returns_iff]
  dsimp only [recordedContext?]
  cases metadata.contextAt? line with
  | some context => exact iff_of_true ⟨_, rfl⟩ nofun
  | none =>
    cases maskedContext source line with
    | error escape => exact iff_of_false nofun fun h => nomatch h rfl
    | ok context => exact iff_of_true ⟨_, rfl⟩ fun _ => ⟨_, rfl⟩

namespace CommandLine

/-! ### What a run writes -/

/-- What a run writes as its answer. -/
inductive Document where
  | code (node : Node)
  | json (value : Json)

/-- The text of an answer. -/
def Document.text : Document → String
  | .code node => node.quoted
  | .json value => value.text

/-- Why a run gives no answer. -/
inductive Notice where
  | failed (failure : Failure) (color : Bool)
  | unreadableIndex (message : String)

/-- What is said about a run without an answer. -/
def Notice.text : Notice → String
  | .failed failure color => ((Report.start .empty).addFailure failure).renderAll color ++ "\n"
  | .unreadableIndex message => "exscope: error: could not load doc index: " ++ message ++ "\n"

theorem Notice.text_unreadableIndex (message : String) :
    (Notice.unreadableIndex message).text =
      "exscope: error: could not load doc index: " ++ message ++ "\n" := rfl

/-- A run ends with one document, or with a notice on the error channel and nothing else. -/
inductive Output.EndsCleanly (output : Output) : Prop where
  | answered (document : Document) (hcode : output.exitCode = 0)
      (hstdout : output.stdout = document.text ++ "\n")
  | refused (noted : String) (notice : Notice) (hcode : output.exitCode = 1)
      (hstdout : output.stdout = "") (hstderr : output.stderr = noted ++ notice.text)

/-- When a run ends and when it answers: each output that it gives ends cleanly, and it tells by its
code whether there is an answer. -/
structure EndsIff (result : Except Stop Output) (ends answers : Prop) : Prop where
  clean : ∀ output, result = .ok output → output.EndsCleanly
  ends_iff : (∃ output, result = .ok output) ↔ ends
  code_iff : ∀ output, result = .ok output → (output.exitCode = 0 ↔ answers)

theorem endsIff_answered {output : Output} (document : Document) (hcode : output.exitCode = 0)
    (hstdout : output.stdout = document.text ++ "\n") : EndsIff (.ok output) True True where
  clean := by
    rintro _ ⟨⟩
    exact .answered document hcode hstdout
  ends_iff := iff_of_true ⟨output, rfl⟩ trivial
  code_iff := by
    rintro _ ⟨⟩
    exact iff_of_true hcode trivial

theorem endsIff_refused {output : Output} (noted : String) (notice : Notice)
    (hcode : output.exitCode = 1) (hstdout : output.stdout = "")
    (hstderr : output.stderr = noted ++ notice.text) : EndsIff (.ok output) True False where
  clean := by
    rintro _ ⟨⟩
    exact .refused noted notice hcode hstdout hstderr
  ends_iff := iff_of_true ⟨output, rfl⟩ trivial
  code_iff := by
    rintro _ ⟨⟩
    exact iff_of_false (by rw [hcode]; exact Nat.one_ne_zero) id

theorem endsIff_stopped (stop : Stop) (answers : Prop) : EndsIff (.error stop) False answers where
  clean := nofun
  ends_iff := iff_of_false nofun id
  code_iff := nofun

theorem EndsIff.of_iff {result : Except Stop Output} {ends answers ends' answers' : Prop}
    (h : EndsIff result ends answers) (hends : ends ↔ ends') (hanswers : answers ↔ answers') :
    EndsIff result ends' answers' :=
  ⟨h.clean, h.ends_iff.trans hends,
    fun output houtput => (h.code_iff output houtput).trans hanswers⟩

/-! ### Settings -/

/-- Settings that are accepted name a file. -/
theorem file_of_settingsFrom (fuel : Nat) (extra : Bool) (start settings : Settings)
    (words : List Word) (h : settingsFrom fuel extra start words = .ok settings) :
    ∃ path, settings.file = some path := by
  induction fuel generalizing extra start words with
  | zero => cases h
  | succ fuel ih =>
    cases words with
    | nil =>
      unfold settingsFrom at h
      split at h
      · cases h
      · rename_i hleft
        cases h
        have hfile : settings.file ≠ none := fun hnone => hleft (by simp [hnone])
        exact Option.ne_none_iff_exists'.mp hfile
    | cons word words =>
      cases word with
      | plain text =>
        unfold settingsFrom at h
        dsimp only at h
        split at h
        · exact ih _ _ _ h
        · split at h <;> exact ih _ _ _ h
      | divider =>
        unfold settingsFrom at h
        dsimp only at h
        split at h <;> exact ih _ _ _ h
      | unknown => exact ih _ _ _ h
      | option kind value =>
        cases value with
        | some value =>
          obtain ⟨next, -, hnext⟩ := ok_of_bind _ _ _ h
          exact ih _ _ _ hnext
        | none =>
          obtain ⟨taken, -, htaken⟩ := ok_of_bind _ _ _ h
          obtain ⟨next, -, hnext⟩ := ok_of_bind _ _ _ htaken
          exact ih _ _ _ hnext

theorem file_of_settingsOf (arguments : List String) (settings : Settings)
    (h : settingsOf arguments = .ok settings) : ∃ path, settings.file = some path := by
  obtain ⟨words, -, hwords⟩ := ok_of_bind _ _ _ h
  exact file_of_settingsFrom _ _ _ _ _ hwords

/-- Whether settings ask a question about a line or a definition. -/
def Settings.asks (settings : Settings) : Bool :=
  !settings.ast && (settings.line.isSome || settings.definition.isSome)

/-! ### The index -/

/-- The file of the index holds a value. -/
def IndexHolds (files : Files) (docIndex : Option String) (value : Json) : Prop :=
  ∃ path bytes text, docIndex = some path ∧ files path = .file bytes ∧
    readText bytes = .ok text ∧ Json.read text.toList = .ok value

/-- Loading an index ends a run without a word exactly if its file holds a misshapen value. -/
theorem indexOf_malformed_iff (files : Files) (docIndex : Option String) :
    (∃ error, indexOf files docIndex = .error (.malformed error)) ↔
      ∃ value, IndexHolds files docIndex value ∧ DocIndex.IsMisshapen value := by
  constructor
  · rintro ⟨error, herror⟩
    unfold indexOf loadIndex at herror
    split at herror
    · cases herror
    · rename_i path
      split at herror
      · cases herror
      · cases herror
      · split at herror <;> cases herror
      · rename_i bytes hbytes
        split at herror
        · cases herror
        · rename_i text htext
          split at herror
          · cases herror
          · rename_i value hvalue
            refine ⟨value, ⟨path, bytes, text, rfl, hbytes, htext, hvalue⟩, ?_⟩
            split at herror
            · cases herror
            · rename_i fault hmessage hfault
              refine (DocIndex.ofJson_error_iff value).mp ⟨fault, hfault, ?_⟩
              cases fault with
              | wrongValue message => exact absurd rfl (hmessage message)
              | notAnObject | wrongType | infinite => rfl
            · cases herror
  · rintro ⟨value, ⟨path, bytes, text, rfl, hbytes, htext, hvalue⟩, hmisshapen⟩
    obtain ⟨error, herror, hmessage⟩ := (DocIndex.ofJson_error_iff value).mpr hmisshapen
    refine ⟨error, ?_⟩
    simp only [indexOf, loadIndex, hbytes, htext, hvalue, herror]
    cases error with
    | wrongValue message => cases hmessage
    | notAnObject | wrongType | infinite => rfl

/-- What the file of the index holds has the form of an index. -/
def IndexFits (files : Files) (docIndex : Option String) : Prop :=
  ∀ value, IndexHolds files docIndex value → ¬ DocIndex.IsMisshapen value

theorem indexFits_iff (files : Files) (docIndex : Option String) :
    IndexFits files docIndex ↔ ∀ error, indexOf files docIndex ≠ .error (.malformed error) := by
  rw [← not_exists, indexOf_malformed_iff]
  exact ⟨fun hfits h => h.elim fun value h => hfits value h.1 h.2,
    fun hnone value hvalue hmisshapen => hnone ⟨value, hvalue, hmisshapen⟩⟩

/-! ### Questions -/

/-- If the context of a line is asked for and unknown, the source with the line masked needs no
missing name. -/
def LineFits (files : Files) (path : String) (metadata : Metadata) (asked : Option Int) : Prop :=
  ∀ line, asked = some line → metadata.contextAt? line = none →
    MaskedNamed (sourceOf files path) line

theorem lineAnswer_returns_iff (files : Files) (path : String) (metadata : Metadata)
    (asked : Option Int) :
    (∃ answer, lineAnswer files path metadata asked = .ok answer) ↔
      LineFits files path metadata asked := by
  cases asked with
  | none => exact iff_of_true ⟨_, rfl⟩ nofun
  | some line =>
    have hanswer : lineAnswer files path metadata (some line) =
        ((contextAt (sourceOf files path) (some metadata) line).mapError .escape).map fun context =>
          context.map fun context => [("line", .int line), ("context", contextJson context)] := by
      dsimp only [lineAnswer]
      generalize contextAt (sourceOf files path) (some metadata) line = result
      cases result <;> rfl
    rw [hanswer, map_returns_iff, mapError_returns_iff, contextAt_returns_iff]
    constructor
    · rintro hnamed _ ⟨⟩
      exact hnamed
    · exact fun hfits => hfits line rfl

/-- A question is answered if the index is loaded, and else the index is refused with a notice,
unless the index does not fit or, behind an index that was loaded, the line does not. -/
theorem answerQuestions_endsIff (environment : Environment) (settings : Settings) (path : String)
    (metadata : Metadata) (noted : String) :
    EndsIff (answerQuestions environment settings path metadata noted)
      (IndexFits environment.files settings.docIndex ∧
        ((∃ index, indexOf environment.files settings.docIndex = .ok index) →
          LineFits environment.files path metadata settings.line))
      (∃ index, indexOf environment.files settings.docIndex = .ok index) := by
  rw [indexFits_iff, ← lineAnswer_returns_iff]
  unfold answerQuestions
  cases indexOf environment.files settings.docIndex with
  | error fault =>
    have hunloaded : False ↔ ∃ index, (.error fault : Except IndexFault DocIndex) = .ok index :=
      iff_of_false id nofun
    cases fault with
    | unreadable message =>
      refine (endsIff_refused noted (.unreadableIndex message) rfl rfl ?_).of_iff
        (iff_of_true trivial ⟨nofun, nofun⟩) hunloaded
      simp only [Notice.text_unreadableIndex, String.append_assoc]
    | malformed error =>
      exact (endsIff_stopped _ _).of_iff (iff_of_false id fun h => h.1 error rfl) Iff.rfl
  | ok index =>
    have hloaded : True ↔ ∃ other, (.ok index : Except IndexFault DocIndex) = .ok other :=
      iff_of_true trivial ⟨index, rfl⟩
    dsimp only
    cases lineAnswer environment.files path metadata settings.line with
    | error stop =>
      exact (endsIff_stopped stop _).of_iff (iff_of_false id fun h => nomatch h.2 ⟨index, rfl⟩)
        Iff.rfl
    | ok first =>
      exact (endsIff_answered (.json _) rfl rfl).of_iff
        (iff_of_true trivial ⟨nofun, fun _ => ⟨first, rfl⟩⟩) hloaded

/-! ### Runs -/

/-- What was found in a file can be answered for: code that is asked for holds no integer beyond the
digit limit, and where a question is asked, the index fits and, once it is loaded, so does the
line. -/
structure Answerable (files : Files) (settings : Settings) (path : String) (finding : Finding) :
    Prop where
  integers : settings.ast = true → ∀ value : Int,
    .literal (.integer value) ∈ finding.node.occurrences → Number.isWritable value = true
  index : settings.asks = true → IndexFits files settings.docIndex
  line : settings.asks = true → (∃ index, indexOf files settings.docIndex = .ok index) →
    LineFits files path finding.metadata settings.line

section Findings

variable (files : Files) (settings : Settings) (path : String) (finding : Finding)

theorem answerable_iff_of_ast (hast : settings.ast = true) :
    Answerable files settings path finding ↔ finding.node.isWritable = true := by
  have hasks : settings.asks = false := by rw [Settings.asks, hast]; rfl
  rw [Node.isWritable_iff]
  exact ⟨fun h => h.integers hast,
    fun h => ⟨fun _ => h, by simp [hasks], by simp [hasks]⟩⟩

theorem answerable_of_no_question (hast : settings.ast = false) (hasks : settings.asks = false) :
    Answerable files settings path finding :=
  ⟨by simp [hast], by simp [hasks], by simp [hasks]⟩

theorem answerable_iff_of_asks (hast : settings.ast = false) (hasks : settings.asks = true) :
    Answerable files settings path finding ↔ IndexFits files settings.docIndex ∧
      ((∃ index, indexOf files settings.docIndex = .ok index) →
        LineFits files path finding.metadata settings.line) :=
  ⟨fun h => ⟨h.index hasks, h.line hasks⟩, fun h => ⟨by simp [hast], fun _ => h.1, fun _ => h.2⟩⟩

end Findings

theorem asks_of_not_ast (settings : Settings) (hast : settings.ast = false) :
    settings.asks = !(settings.line.isNone && settings.definition.isNone) := by
  rw [Settings.asks, hast]
  cases settings.line <;> cases settings.definition <;> rfl

/-- A run has an answer if the analysis found something and the index that is read for a question,
if there is one, is loaded. -/
def Answers (files : Files) (settings : Settings) (outcome : Except Failure Finding) : Prop :=
  (∃ finding, outcome = .ok finding) ∧
    (settings.asks = true → ∃ index, indexOf files settings.docIndex = .ok index)

theorem runWith_endsIff (environment : Environment) (settings : Settings) (path : String)
    (analysed : Logged (Analysis Finding))
    (h : analyzeFile environment.files (some path) settings.fix settings.maxFixAttempts =
      .ok analysed) :
    EndsIff (runWith environment settings path)
      (∀ finding, analysed.value.outcome = .ok finding →
        Answerable environment.files settings path finding)
      (Answers environment.files settings analysed.value.outcome) := by
  unfold runWith Answers
  rw [h]
  dsimp only [Except.mapError, bind, Except.bind]
  cases analysed.value.outcome with
  | error failure =>
    exact (endsIff_refused _ (.failed failure _) rfl rfl rfl).of_iff
      (iff_of_true trivial nofun) (iff_of_false id fun h => nomatch h.1)
  | ok finding =>
    have hends : Answerable environment.files settings path finding ↔
        ∀ other, (.ok finding : Except Failure Finding) = .ok other →
          Answerable environment.files settings path other :=
      ⟨fun h other hother => by cases hother; exact h, fun h => h finding rfl⟩
    have hanswers : (settings.asks = true →
        ∃ index, indexOf environment.files settings.docIndex = .ok index) ↔
        (∃ other, (.ok finding : Except Failure Finding) = .ok other) ∧ (settings.asks = true →
          ∃ index, indexOf environment.files settings.docIndex = .ok index) :=
      (and_iff_right ⟨finding, rfl⟩).symm
    refine EndsIff.of_iff ?_ hends hanswers
    dsimp only
    cases hast : settings.ast with
    | true =>
      have hasks : settings.asks = false := by rw [Settings.asks, hast]; rfl
      rw [if_pos rfl, answerable_iff_of_ast _ settings path finding hast]
      split
      · rename_i hwritable
        exact (endsIff_answered (.code finding.node) rfl rfl).of_iff
          (iff_of_true trivial hwritable) (iff_of_true trivial (by simp [hasks]))
      · rename_i hunwritable
        exact (endsIff_stopped _ _).of_iff (iff_of_false id hunwritable) Iff.rfl
    | false =>
      have hasks := asks_of_not_ast settings hast
      rw [if_neg Bool.false_ne_true]
      split
      · rename_i hplain
        rw [hplain] at hasks
        have hanswerable := answerable_of_no_question environment.files settings path finding
          hast hasks
        exact (endsIff_answered (.json _) rfl rfl).of_iff
          (iff_of_true trivial hanswerable) (iff_of_true trivial (by simp [hasks]))
      · rename_i hquestion
        rw [Bool.not_eq_true] at hquestion
        rw [hquestion] at hasks
        rw [answerable_iff_of_asks _ settings path finding hast hasks]
        exact (answerQuestions_endsIff environment settings path finding.metadata _).of_iff
          Iff.rfl ⟨fun hloaded _ => hloaded, fun hloaded => hloaded hasks⟩

/-- A run whose arguments are accepted and whose file is analysed writes one document, or nothing
but a notice on the error channel; its code tells which.  It ends without either exactly if what is
found in the file cannot be answered for. -/
theorem run_endsIff (environment : Environment) (arguments : List String) (settings : Settings)
    (analysed : Logged (Analysis Finding)) (hsettings : settingsOf arguments = .ok settings)
    (hanalysed : analyzeFile environment.files settings.file settings.fix
      settings.maxFixAttempts = .ok analysed) :
    ∃ path, settings.file = some path ∧
      EndsIff (run environment arguments)
        (∀ finding, analysed.value.outcome = .ok finding →
          Answerable environment.files settings path finding)
        (Answers environment.files settings analysed.value.outcome) := by
  obtain ⟨path, hpath⟩ := file_of_settingsOf arguments settings hsettings
  rw [hpath] at hanalysed
  refine ⟨path, hpath, ?_⟩
  have hrun : run environment arguments = runWith environment settings path := by
    unfold run
    rw [hsettings]
    dsimp only [Except.mapError, bind, Except.bind]
    rw [hpath]
  rw [hrun]
  exact runWith_endsIff environment settings path analysed hanalysed

/-- Files with texts, and nothing else. -/
def textFiles (texts : List (String × String)) : Files := fun path =>
  match texts.find? fun entry => entry.1 = path with
  | some entry => .file entry.2.toUTF8.data.toList
  | none => .missing

/-- A call and an index with one line of a function. -/
def indexedCall : Environment :=
  ⟨textFiles [("a.ex", "x()"), ("d.json", "\x7b\"M\": [[\"g\", 0, 7.5]]\x7d")], none, none⟩

theorem run_endsIff_indexedCall :
    ∃ output, run indexedCall ["a.ex", "--definition", "M", "g", "--doc-index=d.json"] =
      .ok output ∧ output.EndsCleanly ∧ output.exitCode = 0 := by
  let settings : Settings :=
    ⟨some "a.ex", none, some ("M", "g"), false, 1, some "d.json", false, false⟩
  have hfound : (analyzeFile indexedCall.files settings.file settings.fix
      settings.maxFixAttempts).map (·.value.outcome.isOk) = .ok true := by decide +kernel
  obtain ⟨analysed, hanalysed, houtcome⟩ := of_map_eq_ok _ _ _ hfound
  obtain ⟨path, -, hends⟩ := run_endsIff indexedCall
    ["a.ex", "--definition", "M", "g", "--doc-index=d.json"] settings analysed
    (by decide +kernel) hanalysed
  obtain ⟨index, hindex⟩ := exists_of_isOk (indexOf indexedCall.files settings.docIndex)
    (by decide +kernel)
  have hfits : IndexFits indexedCall.files settings.docIndex := by
    rw [indexFits_iff, hindex]
    exact nofun
  obtain ⟨output, houtput⟩ := hends.ends_iff.mpr fun _ _ =>
    ⟨nofun, fun _ => hfits, fun _ _ => nofun⟩
  exact ⟨output, houtput, hends.clean output houtput,
    (hends.code_iff output houtput).mpr ⟨exists_of_isOk _ houtcome, fun _ => ⟨index, hindex⟩⟩⟩

/-- An index that is a list ends the run of a question without a document and without a notice. -/
theorem run_stops_at_listIndex :
    ¬ ∀ (environment : Environment) (arguments : List String) (settings : Settings)
      (analysed : Logged (Analysis Finding)), settingsOf arguments = .ok settings →
      analyzeFile environment.files settings.file settings.fix settings.maxFixAttempts =
        .ok analysed →
      ∃ output, run environment arguments = .ok output ∧ output.EndsCleanly := by
  intro h
  let files := textFiles [("a.ex", "x()"), ("d.json", "[]")]
  let settings : Settings := ⟨some "a.ex", some 1, none, false, 1, some "d.json", false, false⟩
  obtain ⟨analysed, hanalysed⟩ := exists_of_isOk
    (analyzeFile files settings.file settings.fix settings.maxFixAttempts) (by decide +kernel)
  obtain ⟨output, houtput, -⟩ := h ⟨files, none, none⟩
    ["a.ex", "--line", "1", "--doc-index", "d.json"] settings analysed (by decide +kernel) hanalysed
  have hstop : run ⟨files, none, none⟩ ["a.ex", "--line", "1", "--doc-index", "d.json"] =
      .error (.index .notAnObject) := by decide +kernel
  rw [hstop] at houtput
  cases houtput

-- the context of line 1 is unknown here, and masking the line uncovers a directive without a name
example : run ⟨textFiles [("a.ex", "\"\nalias __aliases__()\n#\"")], none, none⟩
    ["a.ex", "--line", "1"] = .error (.escape (.scope .noSegment)) := by decide +kernel

-- the two modules differ in half of a pair only, and the entry of the first has no line
example : run ⟨textFiles [("a.ex", "x()"),
      ("d.json", "\x7b\"\\ud800\": [[\"g\", 0, null]], \"\\ud801\": []\x7d")], none, none⟩
    ["a.ex", "--line", "1", "--doc-index", "d.json"] = .error (.index .wrongType) := by
  decide +kernel

end CommandLine

end LineScope
