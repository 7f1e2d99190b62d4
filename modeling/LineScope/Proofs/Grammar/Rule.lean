import LineScope.Grammar.Rule
import Mathlib.Data.List.Basic

/-!
# What rules ensure

`Leads` says where the ways through a rule lead: from cursors with one property to values and cursors
with another.  Each way to put rules together has a lemma, so a property of a grammar follows from
what its tokens ensure.  `Ensures` is the case of a property of cursors that all ways keep.
-/

namespace LineScope.Grammar.Rule

variable {α β : Type}

/-- Every way through a rule leads from a cursor with `A` to a value and a cursor with `B`. -/
def Leads (A : Cursor → Prop) (B : α → Cursor → Prop) (rule : Rule α) : Prop :=
  ∀ c, A c → ∀ way ∈ (rule c).found, B way.1 way.2

section Leads

variable {A A' : Cursor → Prop} {B B' : α → Cursor → Prop} {C : β → Cursor → Prop}

theorem Leads.weaken {rule : Rule α} (h : Leads A B rule) (hbefore : ∀ c, A' c → A c)
    (hbehind : ∀ a c, B a c → B' a c) : Leads A' B' rule :=
  fun c hc way hw => hbehind _ _ (h c (hbefore c hc) way hw)

theorem Leads.behind {rule : Rule α} (h : Leads A B rule) (hbehind : ∀ a c, B a c → B' a c) :
    Leads A B' rule :=
  h.weaken (fun _ hc => hc) hbehind

/-! ### Sequences -/

theorem leads_pure (a : α) (h : ∀ c, A c → B a c) : Leads A B (pure a : Rule α) := by
  intro c hc way hw
  have hway : way = (a, c) := List.mem_singleton.mp hw
  rw [hway]
  exact h c hc

theorem leads_bind {p : Rule α} {f : α → Rule β} (hp : Leads A B p)
    (hf : ∀ a, Leads (B a) C (f a)) : Leads A C (p >>= f) := by
  intro c hc way hw
  obtain ⟨first, hfirst, hway⟩ := (Outcome.mem_found_bind (p c) _ way).mp hw
  exact hf first.1 first.2 (hp c hc first hfirst) way hway

theorem leads_map {p : Rule α} {f : α → β} (hp : Leads A B p) (hf : ∀ a c, B a c → C (f a) c) :
    Leads A C (f <$> p) :=
  leads_bind hp fun a => leads_pure (f a) (hf a)

/-! ### Choices -/

theorem leads_fail : Leads A B (fail : Rule α) := by
  intro c hc way hw
  cases hw

theorem leads_either {p q : Rule α} (hp : Leads A B p) (hq : Leads A B q) :
    Leads A B (either p q) := by
  intro c hc way hw
  rcases (Outcome.mem_found_append (p c) (q c) way).mp hw with hw | hw
  · exact hp c hc way hw
  · exact hq c hc way hw

theorem leads_choice (rules : List (Rule α)) (h : ∀ rule ∈ rules, Leads A B rule) :
    Leads A B (choice rules) := by
  induction rules with
  | nil => exact leads_fail
  | cons rule rules ih =>
    exact leads_either (h rule List.mem_cons_self)
      (ih fun other ho => h other (List.mem_cons_of_mem _ ho))

theorem leads_branch {p : Rule α} (ways : List (α → Rule β)) (hp : Leads A B p)
    (hways : ∀ way ∈ ways, ∀ a, Leads (B a) C (way a)) : Leads A C (branch p ways) := by
  intro c hc
  unfold branch
  dsimp only
  induction ways with
  | nil =>
    intro way hw
    cases hw
  | cons first ways ih =>
    intro way hw
    rcases (Outcome.mem_found_append _ _ way).mp hw with hw | hw
    · exact leads_bind hp (hways first List.mem_cons_self) c hc way hw
    · exact ih (fun other ho => hways other (List.mem_cons_of_mem _ ho)) way hw

theorem leads_preferred {p : Rule α} (hp : Leads A B p) : Leads A B (preferred p) := by
  intro c hc way hw
  exact hp c hc way (mem_of_mem_firstPerEnd _ way hw)

theorem leads_ordered {p : Rule α} (precedes : α → α → Bool) (hp : Leads A B p) :
    Leads A B (ordered precedes p) := by
  intro c hc way hw
  exact hp c hc way ((mem_found_ordered precedes p c way).mp hw)

theorem leads_optional {p : Rule α} {C : Option α → Cursor → Prop} (hp : Leads A B p)
    (hsome : ∀ a c, B a c → C (some a) c) (hnone : ∀ c, A c → C none c) :
    Leads A C (optional p) :=
  leads_either (leads_map hp hsome) (leads_pure none hnone)

theorem leads_skip {p : Rule α} (hp : Leads A (fun _ => A) p) :
    Leads A (fun _ => A) (skip p) :=
  leads_either (leads_map hp fun _ _ hc => hc) (leads_pure () fun _ hc => hc)

/-! ### Repetition -/

theorem leads_loop {step : α → Rule α} (a : α) (hstep : ∀ a, Leads (B a) B (step a)) :
    Leads (B a) B (loop step a) := by
  have key : ∀ (n : Nat) (a : α), Leads (B a) B (iterate step n a) := by
    intro n
    induction n with
    | zero => exact fun a => leads_pure a fun _ hc => hc
    | succ n ih =>
      exact fun a => leads_either (leads_pure a fun _ hc => hc) (leads_bind (hstep a) ih)
  intro c hc
  exact key c.rest.length a c hc

end Leads

/-! ### Properties that all ways keep -/

variable {P : Cursor → Prop} {Q : α → Prop} {R : β → Prop}

/-- Every way through a rule keeps `P` of the cursor and reads a value with `Q`. -/
def Ensures (P : Cursor → Prop) (Q : α → Prop) (rule : Rule α) : Prop :=
  Leads P (fun a c => P c ∧ Q a) rule

/-- Every way through a rule keeps `P` of the cursor. -/
abbrev Keeps (P : Cursor → Prop) (rule : Rule α) : Prop := Ensures P (fun _ => True) rule

theorem Ensures.keeps {rule : Rule α} (h : Ensures P Q rule) : Keeps P rule :=
  h.behind fun _ _ hc => ⟨hc.1, trivial⟩

theorem ensures_pure (a : α) (h : Q a) : Ensures P Q (pure a : Rule α) :=
  leads_pure a fun _ hc => ⟨hc, h⟩

theorem ensures_bind {p : Rule α} {f : α → Rule β} (hp : Ensures P Q p)
    (hf : ∀ a, Q a → Ensures P R (f a)) : Ensures P R (p >>= f) :=
  leads_bind hp fun a c hc => hf a hc.2 c hc.1

theorem ensures_map {p : Rule α} {f : α → β} (hp : Ensures P Q p) (hf : ∀ a, Q a → R (f a)) :
    Ensures P R (f <$> p) :=
  leads_map hp fun a _ hc => ⟨hc.1, hf a hc.2⟩

theorem ensures_fail : Ensures P Q (fail : Rule α) := leads_fail

theorem ensures_either {p q : Rule α} (hp : Ensures P Q p) (hq : Ensures P Q q) :
    Ensures P Q (either p q) :=
  leads_either hp hq

theorem ensures_choice (rules : List (Rule α)) (h : ∀ rule ∈ rules, Ensures P Q rule) :
    Ensures P Q (choice rules) :=
  leads_choice rules h

theorem ensures_branch {p : Rule α} (ways : List (α → Rule β)) (hp : Ensures P Q p)
    (hways : ∀ way ∈ ways, ∀ a, Q a → Ensures P R (way a)) : Ensures P R (branch p ways) :=
  leads_branch ways hp fun way hw a c hc => hways way hw a hc.2 c hc.1

theorem ensures_preferred {p : Rule α} (hp : Ensures P Q p) : Ensures P Q (preferred p) :=
  leads_preferred hp

theorem ensures_ordered {p : Rule α} (precedes : α → α → Bool) (hp : Ensures P Q p) :
    Ensures P Q (ordered precedes p) :=
  leads_ordered precedes hp

theorem ensures_optional {p : Rule α} {R : Option α → Prop} (hp : Ensures P Q p)
    (hsome : ∀ a, Q a → R (some a)) (hnone : R none) : Ensures P R (optional p) :=
  leads_optional hp (fun a _ hc => ⟨hc.1, hsome a hc.2⟩) fun _ hc => ⟨hc, hnone⟩

theorem ensures_loop {step : α → Rule α} (a : α) (ha : Q a)
    (hstep : ∀ a, Q a → Ensures P Q (step a)) : Ensures P Q (loop step a) := by
  have hloop : Leads (fun c => P c ∧ Q a) (fun a c => P c ∧ Q a) (loop step a) :=
    leads_loop (B := fun a c => P c ∧ Q a) a fun a c hc => hstep a hc.2 c hc.1
  exact hloop.weaken (fun _ hc => ⟨hc, ha⟩) fun _ _ hc => hc

theorem keeps_bind {p : Rule α} {f : α → Rule β} (hp : Keeps P p) (hf : ∀ a, Keeps P (f a)) :
    Keeps P (p >>= f) :=
  ensures_bind hp fun a _ => hf a

theorem keeps_map {p : Rule α} {f : α → β} (hp : Keeps P p) : Keeps P (f <$> p) :=
  ensures_map hp fun _ _ => trivial

theorem keeps_pure (a : α) : Keeps P (pure a : Rule α) := ensures_pure a trivial

theorem keeps_optional {p : Rule α} (hp : Keeps P p) : Keeps P (optional p) :=
  ensures_optional hp (fun _ ha => ha) trivial

theorem keeps_skip {p : Rule α} (hp : Keeps P p) : Keeps P (skip p) :=
  ensures_either (keeps_map hp) (keeps_pure ())

theorem keeps_loop {step : α → Rule α} (a : α) (hstep : ∀ a, Keeps P (step a)) :
    Keeps P (loop step a) :=
  ensures_loop a trivial fun a _ => hstep a

end LineScope.Grammar.Rule
