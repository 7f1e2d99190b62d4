import LineScope.Analysis.Metadata
import Mathlib.Data.List.Nodup

/-!
# Shadowing

Of the entries with one key the first one of the innermost frame that has one is in effect.  The
frames are searched from the innermost outwards, but the survivors are listed with the outer frames
first, so which entries survive and in which order they are listed are proved side by side.
-/

namespace LineScope

namespace FrameStack

variable {α κ : Type} (key : α → κ)

/-! ### Numbers in a frame -/

/-- A number in a frame whose entry has a key that has not been seen, and is the first of the frame
with it. -/
def FirstIn (seen : List κ) (frame : Frame α) (j : Nat) : Prop :=
  ∃ entry, frame[j]? = some entry ∧ key entry ∉ seen ∧
    ∀ i rival, frame[i]? = some rival → key rival = key entry → j ≤ i

theorem firstIn_zero (seen : List κ) (entry : α) (frame : Frame α) :
    FirstIn key seen (entry :: frame) 0 ↔ key entry ∉ seen := by
  simp [FirstIn]

theorem firstIn_succ (seen : List κ) (entry : α) (frame : Frame α) (j : Nat) :
    FirstIn key seen (entry :: frame) (j + 1) ↔ FirstIn key (key entry :: seen) frame j := by
  constructor
  · rintro ⟨found, hfound, hnew, hfirst⟩
    refine ⟨found, hfound, ?_, fun i rival hrival hkey =>
      Nat.le_of_succ_le_succ (hfirst (i + 1) rival hrival hkey)⟩
    rw [List.mem_cons, not_or]
    refine ⟨fun hkey => ?_, hnew⟩
    have hle := hfirst 0 entry rfl hkey.symm
    omega
  · rintro ⟨found, hfound, hnew, hfirst⟩
    rw [List.mem_cons, not_or] at hnew
    refine ⟨found, hfound, hnew.2, fun i rival hrival hkey => ?_⟩
    cases i with
    | zero =>
      obtain rfl : entry = rival := Option.some.inj hrival
      exact absurd hkey.symm hnew.1
    | succ i => exact Nat.succ_le_succ (hfirst i rival hrival hkey)

theorem firstIn_congr (seen other : List κ) (frame : Frame α) (j : Nat)
    (h : ∀ k, k ∈ seen ↔ k ∈ other) : FirstIn key seen frame j ↔ FirstIn key other frame j := by
  simp only [FirstIn, h]

/-! ### Places in a stack -/

/-- The entry at a place of a stack: the number of its frame, from the innermost on, and its number
in the frame. -/
def entryAt? (frames : FrameStack α) (place : Nat × Nat) : Option α :=
  frames[place.1]?.bind (·[place.2]?)

/-- The order in which entries are listed: outer frames first, and each frame from its newest
entry on. -/
def ListedBefore (first second : Nat × Nat) : Prop :=
  second.1 < first.1 ∨ (first.1 = second.1 ∧ first.2 < second.2)

/-- A place whose entry has a key that has not been seen, and is the first entry with it in the
innermost frame that has one. -/
def Survives (seen : List κ) (frames : FrameStack α) (place : Nat × Nat) : Prop :=
  ∃ entry, entryAt? frames place = some entry ∧ key entry ∉ seen ∧
    ∀ other rival, entryAt? frames other = some rival → key rival = key entry →
      place.1 < other.1 ∨ (place.1 = other.1 ∧ place.2 ≤ other.2)

theorem entryAt?_zero (frame : Frame α) (frames : FrameStack α) (j : Nat) :
    entryAt? (frame :: frames) (0, j) = frame[j]? := by
  simp [entryAt?]

theorem entryAt?_succ (frame : Frame α) (frames : FrameStack α) (i j : Nat) :
    entryAt? (frame :: frames) (i + 1, j) = entryAt? frames (i, j) := by
  simp [entryAt?]

theorem survives_zero (seen : List κ) (frame : Frame α) (frames : FrameStack α) (j : Nat) :
    Survives key seen (frame :: frames) (0, j) ↔ FirstIn key seen frame j := by
  constructor
  · rintro ⟨entry, hentry, hnew, hfirst⟩
    rw [entryAt?_zero] at hentry
    refine ⟨entry, hentry, hnew, fun i rival hrival hkey => ?_⟩
    have hle := hfirst (0, i) rival (by rw [entryAt?_zero, hrival]) hkey
    simpa using hle
  · rintro ⟨entry, hentry, hnew, hfirst⟩
    refine ⟨entry, by rw [entryAt?_zero, hentry], hnew, ?_⟩
    rintro ⟨i, j'⟩ rival hrival hkey
    cases i with
    | zero =>
      rw [entryAt?_zero] at hrival
      exact .inr ⟨rfl, hfirst j' rival hrival hkey⟩
    | succ i => exact .inl (Nat.succ_pos i)

/-! ### One frame -/

variable [DecidableEq κ]

theorem keepUnseen_cons_of_mem (seen : List κ) (entry : α) (frame : Frame α)
    (h : key entry ∈ seen) : keepUnseen key seen (entry :: frame) = keepUnseen key seen frame := by
  simp [keepUnseen, h]

theorem keepUnseen_cons_of_not_mem (seen : List κ) (entry : α) (frame : Frame α)
    (h : key entry ∉ seen) :
    keepUnseen key seen (entry :: frame) =
      (entry :: (keepUnseen key (key entry :: seen) frame).1,
        (keepUnseen key (key entry :: seen) frame).2) := by
  simp [keepUnseen, h]

theorem mem_seen_keepUnseen (seen : List κ) (frame : Frame α) (k : κ) :
    k ∈ (keepUnseen key seen frame).2 ↔ k ∈ seen ∨ k ∈ frame.map key := by
  induction frame generalizing seen with
  | nil => simp [keepUnseen]
  | cons entry frame ih =>
    by_cases h : key entry ∈ seen
    · rw [keepUnseen_cons_of_mem key seen entry frame h, ih, List.map_cons, List.mem_cons]
      constructor
      · rintro (hk | hk)
        · exact .inl hk
        · exact .inr (.inr hk)
      · rintro (hk | rfl | hk)
        · exact .inl hk
        · exact .inl h
        · exact .inr hk
    · rw [keepUnseen_cons_of_not_mem key seen entry frame h, ih, List.map_cons, List.mem_cons,
        List.mem_cons, or_assoc, or_left_comm]

/-- A frame keeps one entry of each key that it has and that has not been seen. -/
theorem keys_keepUnseen (seen : List κ) (frame : Frame α) :
    ((keepUnseen key seen frame).1.map key).Nodup ∧
      ∀ k, k ∈ (keepUnseen key seen frame).1.map key ↔ k ∈ frame.map key ∧ k ∉ seen := by
  induction frame generalizing seen with
  | nil => simp [keepUnseen]
  | cons entry frame ih =>
    by_cases h : key entry ∈ seen
    · obtain ⟨hnodup, hkeys⟩ := ih seen
      rw [keepUnseen_cons_of_mem key seen entry frame h]
      refine ⟨hnodup, fun k => ?_⟩
      rw [hkeys, List.map_cons, List.mem_cons]
      constructor
      · exact fun hk => ⟨.inr hk.1, hk.2⟩
      · rintro ⟨rfl | hk, hnew⟩
        · exact absurd h hnew
        · exact ⟨hk, hnew⟩
    · obtain ⟨hnodup, hkeys⟩ := ih (key entry :: seen)
      rw [keepUnseen_cons_of_not_mem key seen entry frame h, List.map_cons]
      refine ⟨List.nodup_cons.mpr ⟨fun hm => ?_, hnodup⟩, fun k => ?_⟩
      · exact ((hkeys _).mp hm).2 List.mem_cons_self
      · rw [List.mem_cons, hkeys, List.map_cons, List.mem_cons, List.mem_cons]
        by_cases hk : k = key entry
        · simp [hk, h]
        · simp [hk]

theorem keepUnseen_of_nodup (seen : List κ) (frame : Frame α) (hnodup : (frame.map key).Nodup)
    (hnew : ∀ k ∈ frame.map key, k ∉ seen) : (keepUnseen key seen frame).1 = frame := by
  induction frame generalizing seen with
  | nil => rfl
  | cons entry frame ih =>
    obtain ⟨hentry, hnodup⟩ := List.nodup_cons.mp hnodup
    rw [keepUnseen_cons_of_not_mem key seen entry frame (hnew _ List.mem_cons_self)]
    rw [ih (key entry :: seen) hnodup]
    intro k hk
    rw [List.mem_cons, not_or]
    exact ⟨fun he => hentry (he ▸ hk), hnew k (List.mem_cons_of_mem _ hk)⟩

/-- What a frame keeps stands at the numbers of the first entries with a new key, in order. -/
theorem keepUnseen_numbers (seen : List κ) (frame : Frame α) :
    ∃ numbers : List Nat, numbers.Pairwise (· < ·) ∧
      (∀ j, j ∈ numbers ↔ FirstIn key seen frame j) ∧
      numbers.map (frame[·]?) = (keepUnseen key seen frame).1.map some := by
  induction frame generalizing seen with
  | nil => exact ⟨[], .nil, by simp [FirstIn], rfl⟩
  | cons entry frame ih =>
    by_cases h : key entry ∈ seen
    · obtain ⟨numbers, hsorted, hmem, hmap⟩ := ih seen
      refine ⟨numbers.map (· + 1), ?_, fun j => ?_, ?_⟩
      · exact List.pairwise_map.mpr (hsorted.imp fun hlt => Nat.succ_lt_succ hlt)
      · cases j with
        | zero => simp [firstIn_zero, h]
        | succ j =>
          have hseen : ∀ k, k ∈ key entry :: seen ↔ k ∈ seen := by simp [h]
          rw [firstIn_succ, firstIn_congr key _ seen frame j hseen, ← hmem]
          simp
      · rw [keepUnseen_cons_of_mem key seen entry frame h, ← hmap, List.map_map]
        rfl
    · obtain ⟨numbers, hsorted, hmem, hmap⟩ := ih (key entry :: seen)
      refine ⟨0 :: numbers.map (· + 1), ?_, fun j => ?_, ?_⟩
      · refine List.pairwise_cons.mpr ⟨by simp, ?_⟩
        exact List.pairwise_map.mpr (hsorted.imp fun hlt => Nat.succ_lt_succ hlt)
      · cases j with
        | zero => simp [firstIn_zero, h]
        | succ j =>
          rw [firstIn_succ, ← hmem]
          simp
      · rw [keepUnseen_cons_of_not_mem key seen entry frame h, List.map_cons, List.map_cons, ← hmap,
          List.map_map]
        rfl

/-! ### Places that survive -/

theorem survives_succ (seen : List κ) (frame : Frame α) (frames : FrameStack α) (i j : Nat) :
    Survives key seen (frame :: frames) (i + 1, j) ↔
      Survives key (keepUnseen key seen frame).2 frames (i, j) := by
  constructor
  · rintro ⟨entry, hentry, hnew, hfirst⟩
    rw [entryAt?_succ] at hentry
    refine ⟨entry, hentry, ?_, ?_⟩
    · rw [mem_seen_keepUnseen, not_or]
      refine ⟨hnew, fun hm => ?_⟩
      obtain ⟨rival, hrival, hkey⟩ := List.mem_map.mp hm
      obtain ⟨j', hj'⟩ := List.mem_iff_getElem?.mp hrival
      have hle := hfirst (0, j') rival (by rw [entryAt?_zero, hj']) hkey
      simp at hle
    · rintro ⟨i', j'⟩ rival hrival hkey
      have hle := hfirst (i' + 1, j') rival (by rw [entryAt?_succ, hrival]) hkey
      dsimp only at hle ⊢
      omega
  · rintro ⟨entry, hentry, hnew, hfirst⟩
    rw [mem_seen_keepUnseen, not_or] at hnew
    refine ⟨entry, by rw [entryAt?_succ, hentry], hnew.1, ?_⟩
    rintro ⟨i', j'⟩ rival hrival hkey
    cases i' with
    | zero =>
      rw [entryAt?_zero] at hrival
      exact absurd (hkey ▸ List.mem_map_of_mem (List.mem_of_getElem? hrival)) hnew.2
    | succ i' =>
      rw [entryAt?_succ] at hrival
      have hle := hfirst (i', j') rival hrival hkey
      dsimp only at hle ⊢
      omega

theorem visible_places (seen : List κ) (frames : FrameStack α) :
    ∃ places : List (Nat × Nat), places.Pairwise ListedBefore ∧
      (∀ place, place ∈ places ↔ Survives key seen frames place) ∧
      places.map (entryAt? frames) = (visible key seen frames).reverse.flatten.map some := by
  induction frames generalizing seen with
  | nil => exact ⟨[], .nil, by simp [Survives, entryAt?], rfl⟩
  | cons frame frames ih =>
    obtain ⟨numbers, hnumbers, hinner, hkept⟩ := keepUnseen_numbers key seen frame
    obtain ⟨places, hplaces, houter, hrest⟩ := ih (keepUnseen key seen frame).2
    -- the places of the outer frames move one frame outwards
    refine ⟨places.map (fun place => (place.1 + 1, place.2)) ++ numbers.map (fun j => (0, j)),
      List.pairwise_append.mpr ⟨?_, ?_, ?_⟩, ?_, ?_⟩
    · refine List.pairwise_map.mpr (hplaces.imp fun {first second} h => ?_)
      simp only [ListedBefore] at h ⊢
      omega
    · refine List.pairwise_map.mpr (hnumbers.imp fun {first second} h => ?_)
      exact .inr ⟨rfl, h⟩
    · intro first hf second hs
      obtain ⟨place, -, rfl⟩ := List.mem_map.mp hf
      obtain ⟨j, -, rfl⟩ := List.mem_map.mp hs
      simp only [ListedBefore]
      omega
    · rintro ⟨i, j⟩
      cases i with
      | zero =>
        rw [survives_zero, ← hinner]
        simp
      | succ i =>
        rw [survives_succ, ← houter]
        simp
    · rw [List.map_append, List.map_map, List.map_map]
      have hshifted : places.map (entryAt? (frame :: frames) ∘ fun place => (place.1 + 1, place.2)) =
          places.map (entryAt? frames) :=
        List.map_congr_left fun place _ => entryAt?_succ frame frames place.1 place.2
      have hinnermost : numbers.map (entryAt? (frame :: frames) ∘ fun j => (0, j)) =
          numbers.map (frame[·]?) :=
        List.map_congr_left fun j _ => entryAt?_zero frame frames j
      rw [hshifted, hinnermost, hrest, hkept]
      simp [visible]

/-! ### The entries in effect -/

theorem flatten_sublist (frames : FrameStack α) :
    (flatten key frames).Sublist frames.reverse.flatten := by
  have hkept : ∀ (seen : List κ) (frame : Frame α), (keepUnseen key seen frame).1.Sublist frame := by
    intro seen frame
    induction frame generalizing seen with
    | nil => exact List.Sublist.refl _
    | cons entry frame ih =>
      by_cases h : key entry ∈ seen
      · rw [keepUnseen_cons_of_mem key seen entry frame h]
        exact (ih seen).cons entry
      · rw [keepUnseen_cons_of_not_mem key seen entry frame h]
        exact (ih _).cons_cons entry
  have hvisible : ∀ seen, (visible key seen frames).reverse.flatten.Sublist
      frames.reverse.flatten := by
    induction frames with
    | nil => exact fun seen => List.Sublist.refl _
    | cons frame frames ih =>
      intro seen
      simp only [visible, List.reverse_cons, List.flatten_append, List.flatten_singleton]
      exact (ih _).append (hkept seen frame)
  exact hvisible []

theorem keys_visible (seen : List κ) (frames : FrameStack α) :
    ((visible key seen frames).reverse.flatten.map key).Nodup ∧
      ∀ k, k ∈ (visible key seen frames).reverse.flatten.map key ↔
        (∃ frame ∈ frames, k ∈ frame.map key) ∧ k ∉ seen := by
  induction frames generalizing seen with
  | nil => simp [visible]
  | cons frame frames ih =>
    obtain ⟨hinner, hinnerKeys⟩ := keys_keepUnseen key seen frame
    obtain ⟨houter, houterKeys⟩ := ih (keepUnseen key seen frame).2
    simp only [visible, List.reverse_cons, List.flatten_append, List.flatten_singleton,
      List.map_append]
    constructor
    · refine List.nodup_append.mpr ⟨houter, hinner, fun first hf second hs he => ?_⟩
      have hnew := ((houterKeys first).mp hf).2
      rw [mem_seen_keepUnseen, not_or] at hnew
      exact hnew.2 (he ▸ ((hinnerKeys second).mp hs).1)
    · intro k
      rw [List.mem_append, houterKeys, hinnerKeys, mem_seen_keepUnseen, List.exists_mem_cons_iff]
      by_cases hk : k ∈ frame.map key <;> simp [hk]

theorem nodup_keys_flatten (frames : FrameStack α) : ((flatten key frames).map key).Nodup :=
  (keys_visible key [] frames).1

theorem flatten_singleton (frame : Frame α) (h : (frame.map key).Nodup) :
    flatten key [frame] = frame := by
  simp [flatten, visible, keepUnseen_of_nodup key [] frame h]

/-! ### Looking for a key -/

theorem find?_keepUnseen (seen : List κ) (frame : Frame α) (k : κ) (hk : k ∉ seen) :
    (keepUnseen key seen frame).1.find? (fun entry => key entry = k) =
      frame.find? (fun entry => key entry = k) := by
  induction frame generalizing seen with
  | nil => rfl
  | cons entry frame ih =>
    by_cases h : key entry ∈ seen
    · have hne : key entry ≠ k := fun he => hk (he ▸ h)
      rw [keepUnseen_cons_of_mem key seen entry frame h, ih seen hk]
      simp [hne]
    · rw [keepUnseen_cons_of_not_mem key seen entry frame h]
      by_cases he : key entry = k
      · simp [he]
      · have hnew : k ∉ key entry :: seen := by simp [Ne.symm he, hk]
        simpa [he] using ih (key entry :: seen) hnew

/-- The entry that is found for a key is the first one of the innermost frame that has one. -/
theorem find?_visible (seen : List κ) (frames : FrameStack α) (k : κ) (hk : k ∉ seen) :
    (visible key seen frames).reverse.flatten.find? (fun entry => key entry = k) =
      frames.findSome? (fun frame => frame.find? fun entry => key entry = k) := by
  induction frames generalizing seen with
  | nil => rfl
  | cons frame frames ih =>
    simp only [visible, List.reverse_cons, List.flatten_append, List.flatten_singleton,
      List.find?_append, List.findSome?_cons]
    rw [find?_keepUnseen key seen frame k hk]
    by_cases hm : k ∈ frame.map key
    · -- a key of this frame is left out of the outer ones
      have houter : (visible key (keepUnseen key seen frame).2 frames).reverse.flatten.find?
          (fun entry => key entry = k) = none := by
        rw [List.find?_eq_none]
        intro entry he
        have hnew := ((keys_visible key (keepUnseen key seen frame).2 frames).2 (key entry)).mp
          (List.mem_map_of_mem he)
        rw [mem_seen_keepUnseen, not_or] at hnew
        simpa using fun hkey : key entry = k => hnew.2.2 (hkey ▸ hm)
      obtain ⟨entry, he, hkey⟩ := List.mem_map.mp hm
      obtain ⟨found, hfound⟩ := Option.isSome_iff_exists.mp
        (List.find?_isSome.mpr ⟨entry, he, by simpa using hkey⟩ :
          (frame.find? fun entry => key entry = k).isSome = true)
      rw [houter, hfound]
      rfl
    · have hnone : (frame.find? fun entry => key entry = k) = none := by
        rw [List.find?_eq_none]
        intro entry he
        simpa using fun hkey : key entry = k => hm (hkey ▸ List.mem_map_of_mem he)
      have hnew : k ∉ (keepUnseen key seen frame).2 := by
        rw [mem_seen_keepUnseen, not_or]
        exact ⟨hk, hm⟩
      rw [hnone, ih _ hnew, Option.or_none]

theorem find?_reverse_of_nodup (entries : List α) (k : κ) (h : (entries.map key).Nodup) :
    entries.reverse.find? (fun entry => key entry = k) =
      entries.find? (fun entry => key entry = k) := by
  induction entries with
  | nil => rfl
  | cons entry entries ih =>
    obtain ⟨hentry, hnodup⟩ := List.nodup_cons.mp h
    rw [List.reverse_cons, List.find?_append, ih hnodup]
    by_cases he : key entry = k
    · have hnone : (entries.find? fun entry => key entry = k) = none := by
        rw [List.find?_eq_none]
        intro other ho
        simpa using fun hkey : key other = k =>
          hentry ((hkey.trans he.symm) ▸ List.mem_map_of_mem ho)
      simp [hnone, he]
    · simp [he]

/-- The entries in effect: they stand at the places whose entry is the first one with its key in the
innermost frame that has one, in the order of the frames from the outermost inwards; their keys are
those of the stack, each once; and they are all in effect in a frame of their own.  So a short name
is resolved by the first entry for it from the innermost frame outwards. -/
theorem flatten_shadows (frames : FrameStack α) :
    (flatten key frames).Sublist frames.reverse.flatten ∧
      ((flatten key frames).map key).Nodup ∧
      (∀ k, k ∈ (flatten key frames).map key ↔ ∃ frame ∈ frames, k ∈ frame.map key) ∧
      (∃ places : List (Nat × Nat), places.Pairwise ListedBefore ∧
        (∀ place, place ∈ places ↔ Survives key [] frames place) ∧
        places.map (entryAt? frames) = (flatten key frames).map some) ∧
      flatten key [flatten key frames] = flatten key frames ∧
      ∀ (metadata : Metadata) (withVars : Bool) (short : String),
        (metadata.scope.snapshot withVars).resolveAlias short =
          (metadata.scope.aliases.findSome? fun frame =>
            frame.find? fun entry => entry.1 = short).map (·.2) := by
  refine ⟨flatten_sublist key frames, nodup_keys_flatten key frames, fun k => ?_,
    visible_places key [] frames, flatten_singleton key _ (nodup_keys_flatten key frames), ?_⟩
  · simpa [flatten] using (keys_visible key [] frames).2 k
  · intro metadata withVars short
    have hreverse := find?_reverse_of_nodup (·.1) (metadata.scope.aliases.flatten (·.1)) short
      (nodup_keys_flatten _ metadata.scope.aliases)
    have hfind := find?_visible (·.1) [] metadata.scope.aliases short (by simp)
    rw [Context.resolveAlias]
    exact congrArg (Option.map (·.2)) (hreverse.trans hfind)

example : flatten Prod.fst [[("Repo", "App.Repo")], [("Repo", "Lib.Repo"), ("Web", "App.Web")]] =
    [("Web", "App.Web"), ("Repo", "App.Repo")] := rfl

end FrameStack

end LineScope
