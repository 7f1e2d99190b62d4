import LineScope.File.Path
import LineScope.Number.Integer

/-!
# Command line settings

The words of a command line as settings.  Options may be shortened as long as they stay
unambiguous, their values may follow an equals sign, and everything behind two dashes is a file.
-/

namespace LineScope.CommandLine

open LineScope.Number LineScope.Text

/-- The options. -/
inductive OptionKind where
  | help | line | definition | fix | maxFixAttempts | docIndex | ast | verbose
deriving DecidableEq, Repr

/-- The spellings of the options. -/
def spellings : List (String × OptionKind) :=
  [("-h", .help), ("--help", .help), ("--line", .line), ("--definition", .definition),
    ("--fix", .fix), ("--max-fix-attempts", .maxFixAttempts), ("--doc-index", .docIndex),
    ("--ast", .ast), ("-v", .verbose), ("--verbose", .verbose)]

/-- The number of values of an option. -/
def OptionKind.valueCount : OptionKind → Nat
  | .line | .maxFixAttempts | .docIndex => 1
  | .definition => 2
  | _ => 0

/-- What a command line asks for. -/
structure Settings where
  file : Option String
  line : Option Int
  definition : Option (String × String)
  fix : Bool
  maxFixAttempts : Int
  docIndex : Option String
  ast : Bool
  verbose : Bool
deriving DecidableEq, Repr

/-- The paths that the settings name. -/
def Settings.paths (settings : Settings) : List String :=
  settings.file.toList ++ settings.docIndex.toList

/-- The settings of an empty command line. -/
def Settings.start : Settings := ⟨none, none, none, false, 1, none, false, false⟩

/-- Why a command line is not run. -/
inductive Usage where
  /-- Help was asked for. -/
  | help
  /-- The command line is wrong. -/
  | wrong
deriving DecidableEq, Repr

/-- The code with which the program ends. -/
def Usage.exitCode : Usage → Nat
  | .help => 0
  | .wrong => 2

/-! ### Words -/

/-- A value in the same word as its option: behind an equals sign, or right behind a single
letter. -/
inductive Attached where
  | equals (text : String)
  | adjacent (text : String)
deriving DecidableEq, Repr

/-- What a word of the command line is. -/
inductive Word where
  /-- A value or a file. -/
  | plain (text : String)
  /-- The two dashes behind which there are only files. -/
  | divider
  /-- An option with the value that follows in the same word. -/
  | option (kind : OptionKind) (value : Option Attached)
  /-- A word that looks like an option and is none. -/
  | unknown

/-- The option with a spelling. -/
def kindOf? (spelling : String) : Option OptionKind :=
  (spellings.find? fun entry => entry.1 = spelling).map (·.2)

/-- A text before and behind its first equals sign. -/
def splitEquals? (text : String) : Option (String × String) :=
  let name := text.toList.takeWhile (· != '=')
  match text.toList.drop name.length with
  | [] => none
  | _ :: value => some (String.ofList name, String.ofList value)

/-- The options that a shortened spelling with two dashes may stand for. -/
def longMatches (text : String) : List Word :=
  let (name, value) :=
    match splitEquals? text with
    | some (name, value) => (name, some (Attached.equals value))
    | none => (text, none)
  (spellings.filter fun entry => name.toList.isPrefixOf entry.1.toList).map fun entry =>
    .option entry.2 value

/-- The options that a word with one dash may stand for: a single letter with more behind it, or the
beginning of a spelling. -/
def shortMatches (text : String) : List Word :=
  let letter := String.ofList (text.toList.take 2)
  let more := String.ofList (text.toList.drop 2)
  spellings.filterMap fun entry =>
    if entry.1 = letter then some (.option entry.2 (some (.adjacent more)))
    else if text.toList.isPrefixOf entry.1.toList then some (.option entry.2 none)
    else none

/-- Digits, or digits around a point with at least one behind it. -/
def isUnsignedNumber (cs : List Char) : Bool :=
  let whole := cs.takeWhile isDecimal
  match cs.drop whole.length with
  | [] => !whole.isEmpty
  | '.' :: fraction => !fraction.isEmpty && fraction.all isDecimal
  | _ => false

/-- A dash and a number; a line feed may end the word. -/
def isNegativeNumber (text : String) : Bool :=
  match text.toList with
  | '-' :: cs =>
    isUnsignedNumber (if cs.getLast? = some '\n' then cs.dropLast else cs)
  | _ => false

/-- A word with a dash that is no spelling of an option. -/
def classifyOther (text : String) : Except Usage Word :=
  let found := if "--".toList.isPrefixOf text.toList then longMatches text else shortMatches text
  match found with
  | [word] => .ok word
  | _ :: _ :: _ => .error .wrong
  | [] =>
    if isNegativeNumber text || text.contains ' ' then .ok (.plain text) else .ok .unknown

/-- What a word of the command line is. -/
def classify (text : String) : Except Usage Word :=
  if text.toList.head? ≠ some '-' then .ok (.plain text)
  else
    match kindOf? text with
    | some kind => .ok (.option kind none)
    | none =>
      if text.length = 1 then .ok (.plain text)
      else
        match splitEquals? text with
        | some (name, value) =>
          match kindOf? name with
          | some kind => .ok (.option kind (some (.equals value)))
          | none => classifyOther text
        | none => classifyOther text

/-- The words of a command line; behind two dashes all are plain. -/
def classifyAll : List String → Except Usage (List Word)
  | [] => .ok []
  | text :: texts =>
    if text = "--" then .ok (.divider :: texts.map .plain)
    else do
      let word ← classify text
      return word :: (← classifyAll texts)

/-! ### Settings -/

/-- Reads an integer value. -/
def readValue (text : String) : Except Usage Int := (readInt text).mapError fun _ => .wrong

/-- Applies an option to its values. -/
def Settings.apply (settings : Settings) : OptionKind → List String → Except Usage Settings
  | .help, _ => .error .help
  | .line, [value] => do return { settings with line := some (← readValue value) }
  | .maxFixAttempts, [value] => do return { settings with maxFixAttempts := ← readValue value }
  | .docIndex, [value] => .ok { settings with docIndex := some (Path.normalize value) }
  | .definition, [module, function] =>
    .ok { settings with definition := some (module, function) }
  | .fix, _ => .ok { settings with fix := true }
  | .ast, _ => .ok { settings with ast := true }
  | .verbose, _ => .ok { settings with verbose := true }
  | _, _ => .error .wrong

/-- The single-letter options behind the first one in a word, and whether a letter that is no option
ends them.  A dash or an equals sign among them is wrong. -/
def clusterKinds : List Char → Except Usage (List OptionKind × Bool)
  | [] => .ok ([], false)
  | c :: cs =>
    if c = '-' ∨ c = '=' then .error .wrong
    else
      match kindOf? (String.ofList ['-', c]) with
      | some kind => do
        let (kinds, extra) ← clusterKinds cs
        return (kind :: kinds, extra)
      | none => .ok ([], true)

/-- Applies options without values one after the other. -/
def Settings.applyAll (settings : Settings) (kinds : List OptionKind) : Except Usage Settings :=
  kinds.foldlM (fun settings kind => settings.apply kind []) settings

/-- Applies an option whose value is in the same word, and tells whether a part of the word was left
over.  What stands right behind a single letter without value are more letters. -/
def Settings.applyInWord (settings : Settings) (kind : OptionKind) (value : Attached) :
    Except Usage (Settings × Bool) :=
  match kind.valueCount, value with
  | 1, .equals text | 1, .adjacent text => do return (← settings.apply kind [text], false)
  | 0, .adjacent text => do
    let (more, extra) ← clusterKinds text.toList
    return (← settings.applyAll (kind :: more), extra)
  | _, _ => .error .wrong

/-- Takes the plain words behind an option as its values. -/
def takeValues : (count : Nat) → List Word → Except Usage (List String × List Word)
  | 0, words => .ok ([], words)
  | count + 1, .plain text :: words => do
    let (values, words) ← takeValues count words
    return (text :: values, words)
  | _ + 1, _ => .error .wrong

/-- The settings of the words, of which at most `fuel` options and files are read.  `extra` tells
whether a word was left over. -/
def settingsFrom : (fuel : Nat) → (extra : Bool) → Settings → List Word → Except Usage Settings
  | 0, _, _, _ => .error .wrong
  | _ + 1, extra, settings, [] =>
    if extra || settings.file.isNone then .error .wrong else .ok settings
  | fuel + 1, extra, settings, word :: words =>
    match word with
    | .plain text =>
      if settings.file.isSome then settingsFrom fuel true settings words
      else
        let settings := { settings with file := some (Path.normalize text) }
        match words with
        | .divider :: words => settingsFrom fuel extra settings words
        | words => settingsFrom fuel extra settings words
    | .divider =>
      if settings.file.isSome || words.isEmpty then settingsFrom fuel true settings words
      else settingsFrom fuel extra settings words
    | .unknown => settingsFrom fuel true settings words
    | .option kind (some value) => do
      let (settings, left) ← settings.applyInWord kind value
      settingsFrom fuel (extra || left) settings words
    | .option kind none => do
      let (values, words) ← takeValues kind.valueCount words
      settingsFrom fuel extra (← settings.apply kind values) words

/-- The settings of a command line. -/
def settingsOf (arguments : List String) : Except Usage Settings := do
  let words ← classifyAll arguments
  settingsFrom (words.length + 1) false .start words

end LineScope.CommandLine
