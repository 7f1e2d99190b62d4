import LineScope.Grammar.Chain
import Mathlib.Data.List.Basic

/-!
# Expressions and the tower of levels

Trees of binary operators over names, and how they are written: with parentheses around exactly the
children that the table of operators asks for.  A written tree without its parentheses is a chain of
operands, and the tower of levels makes of the chain the tree that has been written.
-/

namespace LineScope.Grammar

open Chain

/-! ### The table of operators -/

/-- The binary operators in rows, from the row that binds least, with the side on which each row
groups. -/
def operatorTable : List (Side × List String) :=
  [(.right, ["<-", "\\\\"]), (.right, ["when"]), (.right, ["::"]), (.right, ["|"]), (.right, ["="]),
    (.left, ["||", "or"]), (.left, ["&&", "and"]), (.left, ["===", "==", "!==", "!=", "=~"]),
    (.left, ["<=", ">=", "<", ">"]), (.left, ["|>"]), (.left, ["in"]),
    (.right, ["++", "--", "<>", "..", "//"]), (.left, ["+", "-"]), (.left, ["**", "*", "/"])]

/-- The number of the row in which an operator stands. -/
def Operator.row (op : Operator) : Nat := operatorTable.findIdx fun row => row.2.contains op.text

def Operator.side (op : Operator) : Side := (operatorTable[op.row]?).elim .left (·.1)

/-- The table has every binary operator, and no other text. -/
theorem map_text_all : Operator.all.map (·.text) = operatorTable.flatMap (·.2) := by decide

/-- The number of a level among the joints of the tower. -/
def Level.row (level : Level) : Nat := (tower.filter (· != .captures)).idxOf (.joints level)

/-- Whether a floor of joints is below another one. -/
def Chain.Floor.isBelow : Floor → Floor → Bool
  | .joints low, .joints high => low.row < high.row
  | _, _ => true

theorem row_eq_level : ∀ op ∈ Operator.all, op.row = op.level.row := by decide

theorem side_eq_level : ∀ op ∈ Operator.all, op.side = op.level.side := by decide

theorem tower_ascending : tower.Pairwise fun low high => low.isBelow high = true := by decide

abbrev BinaryOperator : Type := { op : Operator // op ∈ Operator.all }

/-! ### Expressions -/

/-- A name of a variable: its first character, more of them, and a question or exclamation mark. -/
structure Name where
  first : Char
  more : List Char
  mark : Option Char
  first_start : (first.isLower || first == '_') = true
  more_nameChar : ∀ c ∈ more, Terminal.isNameChar c = true
  mark_mark : ∀ c ∈ mark, c = '?' ∨ c = '!'
  not_reserved : String.ofList (first :: more ++ mark.toList) ∉ Terminal.reserved

def Name.chars (name : Name) : List Char := name.first :: name.more ++ name.mark.toList

inductive Expr where
  | name (word : Name)
  | binary (op : BinaryOperator) (left right : Expr)

/-- Whether a child on a side of an operator needs parentheses: it binds less, or it binds as much
but the row groups on the other side. -/
def needsParens (op : BinaryOperator) (side : Side) : Expr → Bool
  | .name _ => false
  | .binary inner _ _ =>
    inner.val.row < op.val.row || (inner.val.row == op.val.row && op.val.side != side)

def parenthesized (needed : Bool) (text : List Char) : List Char :=
  if needed then '(' :: text ++ [')'] else text

namespace Expr

/-- An expression as it is written on one line, with single blanks around operators. -/
def chars : Expr → List Char
  | .name word => word.chars
  | .binary op left right =>
    parenthesized (needsParens op .left left) left.chars ++ ' ' :: op.val.text.toList ++
      ' ' :: parenthesized (needsParens op .right right) right.chars

/-- The quoted code of an expression on the first line. -/
def node : Expr → Node
  | .name word => .ident (String.ofList word.chars) (some 1) none
  | .binary op left right => .call op.val.text (some [left.node, right.node]) (some 1)

end Expr

/-! ### Spines -/

/-- An operand of a written expression: a name, or an expression in parentheses. -/
inductive Leaf where
  | name (word : Name)
  | group (inner : Expr)

namespace Leaf

def chars : Leaf → List Char
  | .name word => word.chars
  | .group inner => '(' :: inner.chars ++ [')']

def term : Leaf → Term
  | .name word => ⟨(Expr.name word).node, .callee (.plain (String.ofList word.chars) 1)⟩
  | .group inner => ⟨inner.node, .closed⟩

/-- An operand without capture signs. -/
def operand (leaf : Leaf) : Operand := ⟨[], leaf.term⟩

end Leaf

/-- An operator and the operand behind it. -/
abbrev Link : Type := BinaryOperator × Leaf

def Link.step (link : Link) : Joint × Operand := (.operator link.1.val 1, link.2.operand)

def Link.chars (link : Link) : List Char :=
  ' ' :: link.1.val.text.toList ++ ' ' :: link.2.chars

/-- The operands of a written expression outside all parentheses, with the operators between them. -/
structure Spine where
  first : Leaf
  links : List Link

def Spine.append (left : Spine) (op : BinaryOperator) (right : Spine) : Spine :=
  ⟨left.first, left.links ++ (op, right.first) :: right.links⟩

def Spine.chain (spine : Spine) : Chain := ⟨spine.first.operand, spine.links.map Link.step⟩

/-- The spine of a child: the child alone where it is put in parentheses. -/
def childSpine (needed : Bool) (child : Expr) (spine : Spine) : Spine :=
  if needed then ⟨.group child, []⟩ else spine

def Expr.spine : Expr → Spine
  | .name word => ⟨.name word, []⟩
  | .binary op left right =>
    (childSpine (needsParens op .left left) left left.spine).append op
      (childSpine (needsParens op .right right) right right.spine)

theorem chars_spine (e : Expr) : e.chars = e.spine.first.chars ++ e.spine.links.flatMap Link.chars := by
  have hchild : ∀ (needed : Bool) (child : Expr),
      child.chars = child.spine.first.chars ++ child.spine.links.flatMap Link.chars →
        parenthesized needed child.chars = (childSpine needed child child.spine).first.chars ++
          (childSpine needed child child.spine).links.flatMap Link.chars := by
    intro needed child h
    cases needed with
    | true => simp [parenthesized, childSpine, Leaf.chars]
    | false => simpa [parenthesized, childSpine] using h
  induction e with
  | name word => simp [Expr.chars, Expr.spine, Leaf.chars]
  | binary op left right ihl ihr =>
    rw [Expr.chars, hchild _ left ihl, hchild _ right ihr]
    simp [Expr.spine, Spine.append, Link.chars]

/-! ### Cutting chains -/

section Cut

variable (p : Joint → Bool)

theorem cut_of_none (operand : Operand) (rest : List (Joint × Operand))
    (h : ∀ step ∈ rest, p step.1 = false) : cut p operand rest = (⟨operand, rest⟩, []) := by
  induction rest generalizing operand with
  | nil => rfl
  | cons step rest ih =>
    have hstep := h step List.mem_cons_self
    have hrest := ih step.2 fun other ho => h other (List.mem_cons_of_mem _ ho)
    simp [cut, hrest, hstep]

/-- Where nothing in front of a joint is cut, the chain is cut there first. -/
theorem cut_first (operand next : Operand) (front rest : List (Joint × Operand)) (joint : Joint)
    (hfront : ∀ step ∈ front, p step.1 = false) (hjoint : p joint = true) :
    cut p operand (front ++ (joint, next) :: rest) =
      (⟨operand, front⟩, (joint, (cut p next rest).1) :: (cut p next rest).2) := by
  induction front generalizing operand with
  | nil => simp [cut, hjoint, single]
  | cons step front ih =>
    have hstep := hfront step List.mem_cons_self
    have hrest := ih step.2 fun other ho => hfront other (List.mem_cons_of_mem _ ho)
    simp [cut, hrest, hstep]

theorem cut_last (operand next : Operand) (front rest : List (Joint × Operand)) (joint : Joint)
    (hrest : ∀ step ∈ rest, p step.1 = false) (hjoint : p joint = true) :
    cut p operand (front ++ (joint, next) :: rest) =
      ((cut p operand front).1, (cut p operand front).2 ++ [(joint, ⟨next, rest⟩)]) := by
  induction front generalizing operand with
  | nil => simp [cut, hjoint, single, cut_of_none p next rest hrest]
  | cons step front ih =>
    simp only [List.cons_append, cut, ih step.2]
    cases p step.1 <;> simp

end Cut

/-! ### Resolving chains -/

theorem resolve_of_none (level : Level) (floors : List Floor) (chain : Chain)
    (h : ∀ step ∈ chain.rest, (step.1.level == level) = false) :
    resolve (.joints level :: floors) chain = resolve floors chain := by
  rw [resolve, cut_of_none _ _ _ h]
  cases level.side <;> rfl

theorem resolve_single (floors : List Floor) (leaf : Leaf) :
    resolve floors (single leaf.operand) = leaf.term.node := by
  induction floors with
  | nil => rfl
  | cons floor floors ih =>
    cases floor with
    | captures => exact ih
    | joints level => rw [resolve_of_none level floors _ (by simp [single]), ih]

theorem joinLeft_concat (first : Node) (rest : List (Joint × Node)) (joint : Joint) (node : Node) :
    joinLeft first (rest ++ [(joint, node)]) = joint.join (joinLeft first rest) node := by
  simp [joinLeft]

section Resolve

variable (level : Level) (floors : List Floor) (operand next : Operand)
  (front rest : List (Joint × Operand)) (joint : Joint)

/-- On a level that groups on the right, the first joint is resolved last. -/
theorem resolve_right (hside : level.side = .right) (hjoint : joint.level = level)
    (hfront : ∀ step ∈ front, (step.1.level == level) = false) :
    resolve (.joints level :: floors) ⟨operand, front ++ (joint, next) :: rest⟩ =
      joint.join (resolve floors ⟨operand, front⟩)
        (resolve (.joints level :: floors) ⟨next, rest⟩) := by
  have hcut : (joint.level == level) = true := by simpa using hjoint
  rw [resolve, cut_first (fun joint => joint.level == level) operand next front rest joint hfront hcut,
    hside, resolve, hside]
  rfl

/-- On a level that groups on the left, the last joint is resolved last. -/
theorem resolve_left (hside : level.side = .left) (hjoint : joint.level = level)
    (hrest : ∀ step ∈ rest, (step.1.level == level) = false) :
    resolve (.joints level :: floors) ⟨operand, front ++ (joint, next) :: rest⟩ =
      joint.join (resolve (.joints level :: floors) ⟨operand, front⟩)
        (resolve floors ⟨next, rest⟩) := by
  have hcut : (joint.level == level) = true := by simpa using hjoint
  rw [resolve, cut_last (fun joint => joint.level == level) operand next front rest joint hrest hcut,
    hside, resolve, hside]
  simp only [List.map_append, List.map_cons, List.map_nil, joinFrom, joinLeft_concat]

end Resolve

/-! ### Spines on the tower -/

/-- Outside parentheses, a child has no operator that binds less than the one above it, and none that
binds as much on the side on which the row does not group. -/
theorem row_childSpine (op : BinaryOperator) (side : Side) (child : Expr)
    (hchild : ∀ inner left right, child = .binary inner left right →
      ∀ link ∈ child.spine.links, inner.val.row ≤ link.1.val.row) :
    ∀ link ∈ (childSpine (needsParens op side child) child child.spine).links,
      op.val.row ≤ link.1.val.row ∧ (op.val.side ≠ side → op.val.row < link.1.val.row) := by
  intro link hlink
  cases child with
  | name word => cases hlink
  | binary inner left right =>
    cases hneeded : needsParens op side (.binary inner left right) with
    | true =>
      rw [hneeded] at hlink
      cases hlink
    | false =>
      rw [hneeded] at hlink
      have hrow := hchild inner left right rfl link hlink
      simp only [needsParens, Bool.or_eq_false_iff, decide_eq_false_iff_not, Bool.and_eq_false_iff,
        beq_eq_false_iff_ne, bne_eq_false_iff_eq] at hneeded
      obtain ⟨hless, hsame⟩ := hneeded
      refine ⟨by omega, fun hside => ?_⟩
      rcases hsame with hrows | hsides
      · omega
      · exact absurd hsides hside

theorem row_spine (op : BinaryOperator) (left right : Expr) :
    ∀ link ∈ (Expr.binary op left right).spine.links, op.val.row ≤ link.1.val.row := by
  have key : ∀ (e : Expr) (inner : BinaryOperator) (left right : Expr), e = .binary inner left right →
      ∀ link ∈ e.spine.links, inner.val.row ≤ link.1.val.row := by
    intro e
    induction e with
    | name word => nofun
    | binary op left right ihl ihr =>
      rintro _ _ _ ⟨⟩ link hlink
      rcases List.mem_append.mp hlink with hlink | hlink
      · exact (row_childSpine op .left left ihl link hlink).1
      · rcases List.mem_cons.mp hlink with rfl | hlink
        · exact Nat.le_refl _
        · exact (row_childSpine op .right right ihr link hlink).1
  exact key _ op left right rfl

/-- On the floors of a tower, the joints of the lowest floor bind less than those above. -/
theorem row_lt_of_suffix (level high : Level) (floors : List Floor)
    (h : .joints level :: floors <:+ tower) (hhigh : .joints high ∈ floors) :
    level.row < high.row := by
  have hpairs := tower_ascending.sublist h.sublist
  simpa [Floor.isBelow] using List.rel_of_pairwise_cons hpairs hhigh

/-- Floors on which all operators outside parentheses are resolved. -/
def OnFloors (floors : List Floor) (links : List Link) : Prop :=
  ∀ link ∈ links, .joints link.1.val.level ∈ floors

theorem level_ne_of_row_lt (op other : BinaryOperator) (h : op.val.row < other.val.row) :
    other.val.level ≠ op.val.level := by
  intro hlevel
  rw [row_eq_level op.val op.property, row_eq_level other.val other.property, hlevel] at h
  exact Nat.lt_irrefl _ h

theorem OnFloors.above {op : BinaryOperator} {floors : List Floor} {links : List Link}
    (h : OnFloors (.joints op.val.level :: floors) links)
    (hrow : ∀ link ∈ links, op.val.row < link.1.val.row) : OnFloors floors links := by
  intro link hlink
  rcases List.mem_cons.mp (h link hlink) with hfloor | hfloor
  · have hlevel := level_ne_of_row_lt op link.1 (hrow link hlink)
    exact absurd (Floor.joints.inj hfloor) hlevel
  · exact hfloor

theorem not_cut_of_row_lt (op : BinaryOperator) (links : List Link)
    (hrow : ∀ link ∈ links, op.val.row < link.1.val.row) :
    ∀ step ∈ links.map Link.step, (step.1.level == op.val.level) = false := by
  intro step hstep
  obtain ⟨link, hlink, rfl⟩ := List.mem_map.mp hstep
  exact beq_eq_false_iff_ne.mpr (level_ne_of_row_lt op link.1 (hrow link hlink))

/-- Whether the tower makes of the spine of an expression the code of the expression. -/
def Resolves (e : Expr) : Prop :=
  ∀ floors, floors <:+ tower → OnFloors floors e.spine.links → resolve floors e.spine.chain = e.node

theorem Resolves.child {child : Expr} (h : Resolves child) (needed : Bool) (floors : List Floor)
    (hfloors : floors <:+ tower)
    (hlinks : OnFloors floors (childSpine needed child child.spine).links) :
    resolve floors (childSpine needed child child.spine).chain = child.node := by
  cases needed with
  | true => exact resolve_single floors (.group child)
  | false => exact h floors hfloors hlinks

/-- On the floor of its operator, an expression is resolved into its two children. -/
theorem resolve_binary (op : BinaryOperator) (left right : Expr) (floors : List Floor)
    (hfloors : .joints op.val.level :: floors <:+ tower)
    (hlinks : OnFloors (.joints op.val.level :: floors) (Expr.binary op left right).spine.links)
    (hleft : Resolves left) (hright : Resolves right) :
    resolve (.joints op.val.level :: floors) (Expr.binary op left right).spine.chain =
      (Expr.binary op left right).node := by
  have habove : floors <:+ tower := (List.suffix_cons _ floors).trans hfloors
  have hrowleft := row_childSpine op .left left fun inner l r he => he ▸ row_spine inner l r
  have hrowright := row_childSpine op .right right fun inner l r he => he ▸ row_spine inner l r
  have honleft : OnFloors (.joints op.val.level :: floors)
      (childSpine (needsParens op .left left) left left.spine).links :=
    fun link hl => hlinks link (List.mem_append_left _ hl)
  have honright : OnFloors (.joints op.val.level :: floors)
      (childSpine (needsParens op .right right) right right.spine).links :=
    fun link hl => hlinks link (List.mem_append_right _ (List.mem_cons_of_mem _ hl))
  have hside := side_eq_level op.val op.property
  rw [Expr.spine, Spine.chain, Spine.append, List.map_append, List.map_cons]
  cases hgroups : op.val.level.side with
  | right =>
    have hrow := fun link hl => (hrowleft link hl).2 (by simp [hside, hgroups])
    refine (resolve_right _ floors _ _ _ _ _ hgroups rfl (not_cut_of_row_lt op _ hrow)).trans ?_
    have hl := hleft.child _ floors habove (honleft.above hrow)
    have hr := hright.child _ _ hfloors honright
    rw [Spine.chain] at hl hr
    rw [hl, hr]
    rfl
  | left =>
    have hrow := fun link hl => (hrowright link hl).2 (by simp [hside, hgroups])
    refine (resolve_left _ floors _ _ _ _ _ hgroups rfl (not_cut_of_row_lt op _ hrow)).trans ?_
    have hl := hleft.child _ _ hfloors honleft
    have hr := hright.child _ floors habove (honright.above hrow)
    rw [Spine.chain] at hl hr
    rw [hl, hr]
    rfl

/-- Every part of the tower with floors for all operators outside parentheses makes of the spine of an
expression its code. -/
theorem resolves (e : Expr) : Resolves e := by
  induction e with
  | name word => exact fun floors _ _ => resolve_single floors (.name word)
  | binary op left right ihl ihr =>
    intro floors hfloors hlinks
    have hop : .joints op.val.level ∈ floors :=
      hlinks (op, _) (List.mem_append_right _ List.mem_cons_self)
    induction floors with
    | nil => cases hop
    | cons floor floors ih =>
      have habove : floors <:+ tower := (List.suffix_cons _ floors).trans hfloors
      cases floor with
      | captures =>
        have hrest : ∀ link ∈ (Expr.binary op left right).spine.links,
            .joints link.1.val.level ∈ floors := by
          intro link hl
          simpa using hlinks link hl
        exact ih habove hrest (by simpa using hop)
      | joints level =>
        by_cases hlevel : level = op.val.level
        · subst hlevel
          exact resolve_binary op left right floors hfloors hlinks ihl ihr
        · have hhigh : .joints op.val.level ∈ floors := by
            simpa [Ne.symm hlevel] using hop
          -- all operators of the spine bind at least as much as this one, so more than the floor
          have hne : ∀ link ∈ (Expr.binary op left right).spine.links,
              link.1.val.level ≠ level := by
            rintro link hl rfl
            have hrow := row_spine op left right link hl
            have hlow := row_lt_of_suffix _ _ floors hfloors hhigh
            rw [row_eq_level op.val op.property, row_eq_level link.1.val link.1.property] at hrow
            omega
          rw [resolve_of_none]
          · refine ih habove (fun link hl => ?_) hhigh
            simpa [hne link hl] using hlinks link hl
          · intro step hs
            obtain ⟨link, hl, rfl⟩ := List.mem_map.mp hs
            exact beq_eq_false_iff_ne.mpr (hne link hl)

theorem joints_mem_tower (level : Level) : .joints level ∈ tower := by
  cases level <;> decide

theorem node_chain_spine (e : Expr) : e.spine.chain.node = e.node := by
  have hresolve := resolves e tower (List.suffix_refl _) fun link _ => joints_mem_tower _
  unfold Chain.node
  split
  · rename_i hrest
    rw [← hresolve]
    have hsingle : e.spine.chain = single e.spine.first.operand := by
      rw [Spine.chain, single, Chain.mk.injEq]
      exact ⟨rfl, hrest⟩
    rw [hsingle, resolve_single]
    rfl
  · exact hresolve

end LineScope.Grammar
