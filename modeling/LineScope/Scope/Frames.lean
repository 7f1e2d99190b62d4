/-!
# Frame stacks

One frame per open scope.  A stack lists its frames from the innermost outwards, and a frame lists
its entries from the newest on.
-/

namespace LineScope

/-- The entries of one scope, newest first. -/
abbrev Frame (α : Type) := List α

/-- The frames of the open scopes, innermost first. -/
abbrev FrameStack (α : Type) := List (Frame α)

namespace FrameStack

variable {α κ : Type}

/-- A stack with the frame of the outermost scope. -/
def root : FrameStack α := [[]]

/-- Opens a scope. -/
def push (frames : FrameStack α) : FrameStack α := [] :: frames

/-- Closes the innermost scope, if there is one. -/
def pop? : FrameStack α → Option (FrameStack α)
  | [] => none
  | _ :: frames => some frames

/-- Adds an entry to the innermost scope, if there is one. -/
def prepend? (entry : α) : FrameStack α → Option (FrameStack α)
  | [] => none
  | frame :: frames => some ((entry :: frame) :: frames)

/-- The frame of the innermost scope. -/
def innermost (frames : FrameStack α) : Frame α := frames.headD []

/-- The entries whose keys have not been seen, and then all keys that have been. -/
def keepUnseen [DecidableEq κ] (key : α → κ) : (seen : List κ) → Frame α → Frame α × List κ
  | seen, [] => ([], seen)
  | seen, entry :: frame =>
    if seen.contains (key entry) then keepUnseen key seen frame
    else
      let (kept, seen) := keepUnseen key (key entry :: seen) frame
      (entry :: kept, seen)

/-- The frames without the entries that a frame further in, or a newer entry, hides. -/
def visible [DecidableEq κ] (key : α → κ) : (seen : List κ) → FrameStack α → FrameStack α
  | _, [] => []
  | seen, frame :: frames =>
    let (kept, seen) := keepUnseen key seen frame
    kept :: visible key seen frames

/-- The entries in effect, those of outer scopes first: of the entries with one key the newest one
of the innermost scope that has one. -/
def flatten [DecidableEq κ] (key : α → κ) (frames : FrameStack α) : List α :=
  (visible key [] frames).reverse.flatten

end FrameStack

end LineScope
