import LineScope.Proofs.Grammar.Derivation

/-!
# What the whole grammar keeps

A property of cursors that every token keeps, and that the report of a fault at a token keeps, is
kept by every rule of the grammar: it is an invariant of derivations that says nothing about nodes.
-/

namespace LineScope.Grammar

open Rule

/-- A property of cursors that tokens and the reports of faults at them keep; `T` is what holds of
the tokens. -/
structure Steady (P : Cursor → Prop) (T : Token → Prop) : Prop where
  token : ∀ terminal, Ensures P T (token terminal)
  report : ∀ found kind error, T found → Keeps P (report ⟨kind, error, found.line⟩)

/-- The invariant that speaks of cursors and tokens only. -/
def Invariant.ofCursors (cursor : Nat → Cursor → Prop) (token : Token → Prop) : Invariant where
  cursor := cursor
  token _ found := token found
  line _ := True
  names _ _ := True
  node _ := True

theorem Invariant.ofCursors_builds (cursor : Nat → Cursor → Prop) (token : Token → Prop) :
    (Invariant.ofCursors cursor token).Builds := by
  constructor <;> intros <;> trivial

namespace Steady

variable {P : Cursor → Prop} {T : Token → Prop} (h : Steady P T)

include h

theorem lawful : (Invariant.ofCursors (fun _ => P) T).Lawful where
  toBuilds := Invariant.ofCursors_builds _ _
  ordinary _ terminal _ := h.token terminal
  opening _ word _ := fun c hc way hw => ⟨(h.token (.keyword word) c hc way hw).1, trivial⟩
  closing _ := fun c hc way hw => (h.token (.keyword "end") c hc way hw).1
  report _ _ found kind error hf := h.report found kind error hf
  cursorLine _ _ _ := trivial
  tokenLine _ _ _ := trivial
  name _ _ := trivial
  ident _ _ := trivial
  sign _ _ := trivial

/-- Every way to read a source keeps what holds of the cursor in front of it. -/
theorem keeps_readProgram (source : List Char) (hstart : P (Cursor.start source).skipIgnored) :
    ∀ way ∈ (readProgram source).found, P way.2 :=
  fun way hw => (h.lawful.reads_readProgram (n := 0) source hstart way hw).1

end Steady

end LineScope.Grammar
