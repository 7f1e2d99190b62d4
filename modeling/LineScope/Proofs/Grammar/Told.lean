import LineScope.Grammar.Expression
import LineScope.Proofs.Grammar.Decode
import LineScope.Proofs.Grammar.Mention

/-!
# Accounts of what has been read

`Told` says that the nodes read so far mention every site that the cursor has passed.  `Tells` is
what a rule does to such an account, whatever else has been read before: each way to put rules
together has a lemma, and each kind of token.
-/

namespace LineScope.Grammar

open LineScope.Text Rule Node

variable {α β : Type} {source : List Char}

/-- The nodes that have been read mention every site that has been passed. -/
structure Told (source : List Char) (nodes : List Node) (c : Cursor) : Prop where
  genuine : ∀ node ∈ nodes, Genuine source node
  stands : c.Stands source
  passed : ∀ site : Site source, site.Passed c → ∃ node ∈ nodes, node.Mentions site.line

theorem Told.covers {parts wholes : List Node} {c : Cursor} (h : Told source parts c)
    (hcovers : Covers source parts wholes) : Told source wholes c :=
  ⟨hcovers.genuine h.genuine, h.stands, fun site hp => hcovers.mentions _ (h.passed site hp)⟩

/-- A step that passes no more sites. -/
theorem Told.step {nodes : List Node} {c c' : Cursor} (h : Told source nodes c)
    (hstands : c'.Stands source) (hpassed : ∀ site : Site source, site.Passed c' → site.Passed c) :
    Told source nodes c' :=
  ⟨h.genuine, hstands, fun site hp => h.passed site (hpassed site hp)⟩

/-- A rule turns an account that ends with some nodes into one that ends with others. -/
def Tells (source : List Char) (before : List Node) (behind : α → List Node) (rule : Rule α) :
    Prop :=
  ∀ old, Leads (Told source (old ++ before)) (fun a => Told source (old ++ behind a)) rule

section Tells

variable {before : List Node} {middle : α → List Node} {behind : β → List Node}

/-- What stands in front of an account stays there. -/
theorem Tells.frame {rule : Rule α} (front : List Node) (h : Tells source before middle rule) :
    Tells source (front ++ before) (fun a => front ++ middle a) rule := by
  intro old
  have hrule := h (old ++ front)
  simp only [List.append_assoc] at hrule
  exact hrule

theorem Tells.after {rule : Rule α} (front : List Node) (h : Tells source [] middle rule) :
    Tells source front (fun a => front ++ middle a) rule := by
  have hrule := h.frame front
  rwa [List.append_nil] at hrule

theorem Tells.leads {rule : Rule α} (h : Tells source [] middle rule) (old : List Node) :
    Leads (Told source old) (fun a => Told source (old ++ middle a)) rule := by
  have hrule := h old
  rwa [List.append_nil] at hrule

theorem tells_pure (b : β) (h : Covers source before (behind b)) :
    Tells source before behind (pure b) :=
  fun old => leads_pure b fun _ hc => hc.covers (h.append_left old)

theorem tells_bind {p : Rule α} {f : α → Rule β} (hp : Tells source before middle p)
    (hf : ∀ a, Tells source (middle a) behind (f a)) : Tells source before behind (p >>= f) :=
  fun old => leads_bind (hp old) fun a => hf a old

theorem tells_map {p : Rule α} {f : α → β} (hp : Tells source before middle p)
    (hf : ∀ a, Covers source (middle a) (behind (f a))) : Tells source before behind (f <$> p) :=
  tells_bind hp fun a => tells_pure (f a) (hf a)

theorem tells_either {p q : Rule α} (hp : Tells source before middle p)
    (hq : Tells source before middle q) : Tells source before middle (either p q) :=
  fun old => leads_either (hp old) (hq old)

theorem tells_fail : Tells source before middle fail := fun _ => leads_fail

theorem tells_choice (rules : List (Rule α)) (h : ∀ rule ∈ rules, Tells source before middle rule) :
    Tells source before middle (choice rules) :=
  fun old => leads_choice rules fun rule hr => h rule hr old

theorem tells_optional {p : Rule α} (behind : Option α → List Node)
    (hp : Tells source before middle p) (hsome : ∀ a, Covers source (middle a) (behind (some a)))
    (hnone : Covers source before (behind none)) : Tells source before behind (optional p) :=
  tells_either (tells_map hp hsome) (tells_pure none hnone)

theorem tells_skip {p : Rule α} (hp : Tells source before (fun _ => before) p) :
    Tells source before (fun _ => before) (skip p) :=
  fun old => leads_skip (hp old)

theorem tells_loop {step : α → Rule α} (nodes : α → List Node) (a : α)
    (hstep : ∀ a, Tells source (nodes a) nodes (step a)) :
    Tells source (nodes a) nodes (loop step a) :=
  fun old => leads_loop (B := fun a => Told source (old ++ nodes a)) a fun a => hstep a old

end Tells

/-! ### Flat tokens -/

/-- A cursor at no name and no parenthesis of a site. -/
def Cursor.Apart (source : List Char) (c : Cursor) : Prop :=
  ∀ site : Site source, c.offset ≤ site.front.length ∨ site.paren < c.offset

theorem Cursor.Apart.ne_paren {c : Cursor} (h : c.Apart source) (site : Site source) :
    c.offset ≠ site.paren := by
  rcases h site with hle | hlt
  · have hparen : site.front.length < site.paren := by
      rw [Site.paren]
      omega
    omega
  · omega

theorem leads_flat {terminal : Terminal} (hflat : Terminal.Flat terminal) (old : List Node) :
    Leads (Told source old) (fun _ c => Told source old c ∧ c.Apart source) (token terminal) := by
  intro c hc way hw
  obtain ⟨hstands, hfault, hsites⟩ := flat_token hflat hc.stands hw
  refine ⟨hc.step hstands fun site hp => ?_, fun site => (hsites site).imp_right fun h => h.2⟩
  rcases hsites site with hle | ⟨hlt, -⟩
  · have hpast := hp.1
    rw [Site.paren] at hpast
    omega
  · exact ⟨hlt, hfault ▸ hp.2⟩

theorem tells_flat {terminal : Terminal} (hflat : Terminal.Flat terminal) (before : List Node) :
    Tells source before (fun _ => before) (token terminal) :=
  fun old => (leads_flat hflat (old ++ before)).behind fun _ _ hc => hc.1

theorem tells_fixed (text : String) (before : List Node) (h : Terminal.isFlatWord text = true) :
    Tells source before (fun _ => before) (token (Terminal.fixed text)) :=
  tells_flat (Terminal.flat_fixed text h) before

theorem tells_keyword (word : String) (before : List Node) (h : Terminal.isFlatWord word = true) :
    Tells source before (fun _ => before) (token (Terminal.keyword word)) :=
  tells_flat (Terminal.flat_keyword word h) before

/-- The parenthesis of a group is not the one behind the name of a site. -/
theorem tells_groupParen (before : List Node) :
    Tells source before (fun _ => before) (token Terminal.groupParen) := by
  intro old c hc way hw
  have hterminal : Terminal.groupParen = fun before cs =>
      if !before.any Terminal.takesArguments then Terminal.textWidth "(" cs else none := by
    funext before cs
    unfold Terminal.groupParen
    cases before.any Terminal.takesArguments <;> rfl
  rw [hterminal] at hw
  obtain ⟨hstands, hfault, hallowed, -, hsites⟩ := paren_token _ hc.stands hw
  refine hc.step hstands fun site hp => ?_
  rcases hsites site with hle | ⟨hat, -, -⟩ | ⟨hlt, -⟩
  · have hpast := hp.1
    rw [Site.paren] at hpast
    rw [Site.nameStart] at hle
    omega
  · rw [site.before_of_offset_paren hc.stands.placed hat] at hallowed
    exact absurd hallowed (by decide)
  · exact ⟨hlt, hfault ▸ hp.2⟩

/-- The parenthesis of a call that is no marker. -/
theorem leads_callParen_apart (old : List Node) :
    Leads (fun c => Told source old c ∧ ∀ site : Site source, c.offset ≠ site.paren)
      (fun _ => Told source old) (token Terminal.callParen) := by
  intro c ⟨hc, hapart⟩ way hw
  obtain ⟨hstands, hfault, -, -, hsites⟩ :=
    paren_token (fun before => before.any Terminal.takesArguments) hc.stands hw
  refine hc.step hstands fun site hp => ?_
  rcases hsites site with hle | ⟨hat, -, -⟩ | ⟨hlt, -⟩
  · have hpast := hp.1
    rw [Site.paren] at hpast
    rw [Site.nameStart] at hle
    omega
  · exact absurd hat (hapart site)
  · exact ⟨hlt, hfault ▸ hp.2⟩

theorem genuine_marker (site : Site source) : Genuine source (Node.marker site.line) := by
  rw [genuine_iff]
  exact ⟨fun _ _ => ⟨site, rfl, rfl⟩, fun _ hc => by cases hc⟩

theorem mentions_marker (line : Nat) : (Node.marker line).Mentions line :=
  ⟨_, Node.self_mem_occurrences _, .inl rfl⟩

/-- What has been read behind the parenthesis of a marker. -/
structure MarkerRead (site : Site source) (old : List Node) (c : Cursor) : Prop where
  told : Told source (old ++ [Node.marker site.line]) c
  rest : c.rest = ')' :: ')' :: site.behind

theorem leads_callParen_site (site : Site source) (old : List Node) :
    Leads (fun c => Told source old c ∧ c.offset = site.paren) (fun _ => MarkerRead site old)
      (token Terminal.callParen) := by
  intro c ⟨hc, hoffset⟩ way hw
  obtain ⟨hstands, hfault, -, hahead, hsites⟩ :=
    paren_token (fun before => before.any Terminal.takesArguments) hc.stands hw
  have hline := site.line_of_offset_paren hc.stands.placed.inside hoffset
  refine ⟨⟨fun node hn => ?_, hstands, fun other hp => ?_⟩, ?_⟩
  · rcases List.mem_append.mp hn with hn | hn
    · exact hc.genuine node hn
    · rw [List.mem_singleton.mp hn]
      exact genuine_marker site
  · rcases hsites other with hle | ⟨hat, -, -⟩ | ⟨hlt, -⟩
    · have hpast := hp.1
      rw [Site.paren] at hpast
      rw [Site.nameStart] at hle
      omega
    · -- both sites are on the line of the cursor
      rw [← other.line_of_offset_paren hc.stands.placed.inside hat, hline]
      exact ⟨_, List.mem_append_right _ (List.mem_singleton_self _), mentions_marker _⟩
    · obtain ⟨node, hn, hm⟩ := hc.passed other ⟨hlt, hfault ▸ hp.2⟩
      exact ⟨node, List.mem_append_left _ hn, hm⟩
  · rcases hsites site with hle | ⟨-, -, hrest⟩ | ⟨hlt, -⟩
    · have hstart := site.nameStart_le_paren
      omega
    · exact hrest
    · omega

/-! ### Names -/

/-- Names of markers stand at sites only. -/
def OnlySites (source : List Char) : Prop :=
  ∀ front rest, source = front ++ (markerStart.toList ++ rest) →
    ∃ site : Site source, front.length = site.nameStart

/-- What a name that has been read is. -/
structure NameRead (source : List Char) (name : Token) (c : Cursor) : Prop where
  /-- In front of a parenthesis of a site it is the name of the marker. -/
  site : ∀ site : Site source, c.offset = site.paren →
    name.text = markerName site.line ∧ name.line = site.line
  /-- Elsewhere it is no marker. -/
  apart : (∀ site : Site source, c.offset ≠ site.paren) → markerDigits? name.text = none

theorem NameRead.siteName {name : Token} {c : Cursor} (h : NameRead source name c) :
    SiteName source name.text (some (name.line : Int)) := by
  intro hsome
  by_cases hsite : ∃ site : Site source, c.offset = site.paren
  · obtain ⟨site, hoffset⟩ := hsite
    obtain ⟨htext, hline⟩ := h.site site hoffset
    exact ⟨site, htext, by rw [hline]⟩
  · rw [h.apart fun site he => hsite ⟨site, he⟩] at hsome
    cases hsome

theorem starts_of_markerDigits? (name : String) (h : (markerDigits? name).isSome) :
    markerStart.toList <+: name.toList := by
  unfold markerDigits? at h
  dsimp only at h
  split at h
  · rename_i hprefix
    exact List.isPrefixOf_iff_prefix.mp hprefix
  · cases h

theorem leads_name (honly : OnlySites source) (old : List Node) :
    Leads (Told source old) (fun name c => Told source old c ∧ NameRead source name c)
      (token Terminal.name) := by
  intro c hc way hw
  obtain ⟨hstands, hfault, hline, hle, hsites, hprefix⟩ := name_token hc.stands hw
  refine ⟨hc.step hstands fun site hp => ?_, fun site hoffset => ?_, fun hapart => ?_⟩
  · have hpast := hp.1
    have hstart := site.nameStart_le_paren
    rw [Site.nameStart] at hstart
    rcases hsites site with hfront | ⟨-, hat, -⟩ | ⟨hlt, -⟩
    · omega
    · omega
    · exact ⟨hlt, hfault ▸ hp.2⟩
  · have hstart := site.nameStart_le_paren
    rw [Site.nameStart] at hstart
    rcases hsites site with hfront | ⟨hname, -, htext⟩ | ⟨-, hlt⟩
    · omega
    · exact ⟨htext, hline.trans (site.line_of_offset_eq hc.stands.placed.inside hname)⟩
    · omega
  · by_contra hsome
    have hsome : (markerDigits? way.1.text).isSome := Option.isSome_iff_ne_none.mpr hsome
    obtain ⟨rest, hrest⟩ := (starts_of_markerDigits? _ hsome).trans hprefix
    obtain ⟨site, hsite⟩ := honly (source.take c.offset) rest (by
      rw [hrest]
      exact hc.stands.placed.inside.split)
    have hoffset : c.offset = site.nameStart := by
      rw [← hsite, List.length_take]
      have hin := hc.stands.placed.inside.offset_le
      omega
    have hstart := site.nameStart_le_paren
    rw [Site.nameStart] at hoffset hstart
    rcases hsites site with hfront | ⟨-, hat, -⟩ | ⟨hlt, -⟩
    · omega
    · exact hapart site hat
    · omega

theorem leads_name_apart (old : List Node) :
    Leads (fun c => Told source old c ∧ c.Apart source)
      (fun _ c => Told source old c ∧ c.Apart source) (token Terminal.name) := by
  intro c ⟨hc, hapart⟩ way hw
  obtain ⟨hstands, hfault, -, -, hsites, -⟩ := name_token hc.stands hw
  have hsites : ∀ site : Site source, way.2.offset ≤ site.front.length ∨
      (site.paren < c.offset ∧ site.paren < way.2.offset) := by
    intro site
    rcases hsites site with hfront | ⟨hname, -, -⟩ | hlt
    · exact .inl hfront
    · rw [Site.nameStart] at hname
      have happ := hapart site
      rw [Site.paren] at happ
      omega
    · exact .inr hlt
  refine ⟨hc.step hstands fun site hp => ?_, fun site => (hsites site).imp_right fun h => h.2⟩
  rcases hsites site with hle | ⟨hlt, -⟩
  · have hpast := hp.1
    rw [Site.paren] at hpast
    omega
  · exact ⟨hlt, hfault ▸ hp.2⟩

/-! ### Texts -/

/-- A text that has been read over the sites that no other node mentions. -/
structure TextRead (source : List Char) (terminal : Terminal) (old : List Node) (found : Token)
    (c : Cursor) : Prop where
  genuine : ∀ node ∈ old, Genuine source node
  stands : c.Stands source
  passed : ∀ site : Site source, site.Passed c → (∃ node ∈ old, node.Mentions site.line) ∨
    Terminal.Planted site.word found.text.toList
  matched : ∃ before cs w, terminal before cs = some w ∧ found.text.toList = cs.take w

theorem leads_enclosing {terminal : Terminal} (hterminal : Terminal.Enclosing terminal)
    (old : List Node) :
    Leads (Told source old) (TextRead source terminal old) (token terminal) := by
  intro c hc way hw
  obtain ⟨hstands, hfault, hsites, hmatched⟩ := enclosing_token hterminal hc.stands hw
  refine ⟨hc.genuine, hstands, fun site hp => ?_, hmatched⟩
  rcases hsites site with hle | ⟨hplanted, -⟩ | ⟨hlt, -⟩
  · have hpast := hp.1
    rw [Site.paren] at hpast
    omega
  · exact .inr hplanted
  · exact .inl (hc.passed site ⟨hlt, hfault ▸ hp.2⟩)

/-- A text whose value holds what the text holds. -/
theorem TextRead.told {terminal : Terminal} {old : List Node} {found : Token} {c : Cursor}
    (h : TextRead source terminal old found c) (node : Node) (hgenuine : Genuine source node)
    (hvalue : ∀ site : Site source, Terminal.Planted site.word found.text.toList →
      node.Mentions site.line) : Told source (old ++ [node]) c := by
  refine ⟨fun other ho => ?_, h.stands, fun site hp => ?_⟩
  · rcases List.mem_append.mp ho with ho | ho
    · exact h.genuine other ho
    · rw [List.mem_singleton.mp ho]
      exact hgenuine
  · rcases h.passed site hp with ⟨other, ho, hm⟩ | hplanted
    · exact ⟨other, List.mem_append_left _ ho, hm⟩
    · exact ⟨node, List.mem_append_right _ (List.mem_singleton_self _), hvalue site hplanted⟩

end LineScope.Grammar
