import LineScope.Grammar.Terminal

/-!
# Unclosed blocks

A scan for the words that open and close blocks, in a source whose texts, characters, sigils and
comments have been blanked.  It finds the innermost block that is still open at the end.
-/

namespace LineScope.Grammar

open Terminal

/-- Texts whose escapes may hold any character. -/
def scannedTextWidth (mark : Char) : List Char → Option Nat
  | [] => none
  | c :: cs => if c = mark then (closingWidth mark anyChar anyChar cs).map (· + 1) else none

/-- A question mark and a character of the same line, which may be escaped. -/
def scannedCharWidth : List Char → Option Nat
  | '?' :: '\\' :: e :: _ => if inLine e then some 3 else some 2
  | '?' :: c :: _ => if inLine c then some 2 else none
  | _ => none

/-- A comment. -/
def commentWidth : List Char → Option Nat
  | '#' :: cs => some (runWidth inLine cs + 1)
  | _ => none

/-- The width of the stretch at the front of a text that is not code. -/
def nonCodeWidth (cs : List Char) : Option Nat :=
  (sigilWidth cs).or ((heredocWidth '"' cs).or ((heredocWidth '\'' cs).or
    ((scannedTextWidth '"' cs).or ((scannedTextWidth '\'' cs).or
      ((scannedCharWidth cs).or (commentWidth cs))))))

/-- A text in which every stretch that is not code is replaced by the line feeds in it; the first
`hidden` characters belong to such a stretch. -/
def blankNonCode : (hidden : Nat) → List Char → List Char
  | _, [] => []
  | hidden + 1, c :: cs =>
    if c = '\n' then c :: blankNonCode hidden cs else blankNonCode hidden cs
  | 0, c :: cs =>
    match nonCodeWidth (c :: cs) with
    | none => c :: blankNonCode 0 cs
    | some width =>
      if c = '\n' then c :: blankNonCode (width - 1) cs else blankNonCode (width - 1) cs

/-- The words of blocks. -/
inductive BlockWord where
  | open_ (word : String) (line : Nat)
  | close
deriving DecidableEq, Repr

/-- A character after which a word does not open or close a block. -/
def hidesBlockWord (c : Char) : Bool := Text.isWord c || c == ':' || c == '.' || c == '@'

/-- The word of a block at the front of a text. -/
def blockWordAt? (before : Option Char) (cs : List Char) : Option String :=
  if before.any hidesBlockWord then none
  else ["do", "fn", "end"].find? fun word => (keywordWidth word cs).isSome

/-- The words of blocks in a text, with the lines of those that open one. -/
def blockWords (before : Option Char) (line : Nat) : List Char → List BlockWord
  | [] => []
  | c :: cs =>
    let rest := blockWords (some c) (if c = '\n' then line + 1 else line) cs
    match blockWordAt? before (c :: cs) with
    | none => rest
    | some word => (if word = "end" then .close else .open_ word line) :: rest

/-- The blocks that are open behind some words, innermost first; an end without a block is
ignored. -/
def openBlocks (words : List BlockWord) : List (String × Nat) :=
  words.foldl (fun stack word =>
    match word with
    | .open_ word line => (word, line) :: stack
    | .close => stack.drop 1) []

/-- The innermost block that is open at the end of a source: its word and its line. -/
def unclosedOpener (source : List Char) : Option (String × Nat) :=
  (openBlocks (blockWords none 1 (blankNonCode 0 source))).head?

end LineScope.Grammar
