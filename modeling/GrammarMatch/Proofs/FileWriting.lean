/-
  File:      GrammarMatch/Proofs/FileWriting.lean
  Subject:   What writing a file does.

  A file is written at one place: in a folder that is there, and where there is no folder
  (`target_cases`). Nothing else is found differently afterwards, since no folder comes or goes with
  the file (`entry?_put`). So the path still leads to the place, and what is read there is what was
  written (`read_write`).
-/
import GrammarMatch.CommandLine.FileTree
import GrammarMatch.Proofs.Assembly
import GrammarMatch.Proofs.Lexicon

namespace GrammarMatch.CommandLine.FileTree

open Pattern (ok_of_bind)

/-! ## 1. Folders -/

theorem inFolder_iff {t : FileTree} {p : Place} :
    t.inFolder p = .ok () ↔ t.entry? p = some .folder := by
  unfold inFolder
  split
  next h => exact iff_of_true rfl h
  next h => exact iff_of_false (fun h => by cases h) (by simp [h])
  next h => exact iff_of_false (fun h => by cases h) (by simp [h])

theorem hasFolder_iff {t : FileTree} {p : Place} : t.hasFolder p = true ↔
    p <+: t.current ∨ (∃ q ∈ t.folders, p <+: q) ∨ ∃ f ∈ t.files, p <+: f.1.dropLast := by
  simp only [hasFolder, Bool.or_eq_true, List.any_eq_true, List.isPrefixOf_iff_prefix, or_assoc]

/-- What a folder is in is a folder. -/
theorem hasFolder_of_prefix {t : FileTree} {p q : Place} (inner : p <+: q)
    (h : t.hasFolder q = true) : t.hasFolder p = true := by
  rw [hasFolder_iff] at h ⊢
  rcases h with h | ⟨r, hr, h⟩ | ⟨f, hf, h⟩
  · exact .inl (inner.trans h)
  · exact .inr (.inl ⟨r, hr, inner.trans h⟩)
  · exact .inr (.inr ⟨f, hf, inner.trans h⟩)

theorem entry?_of_some {t : FileTree} {p : Place} {content : String}
    (h : t.files.lookup p = some content) : t.entry? p = some (.file content) := by
  unfold entry?
  rw [h]

theorem entry?_of_none {t : FileTree} {p : Place} (h : t.files.lookup p = none) :
    t.entry? p = if t.hasFolder p then some .folder else none := by
  unfold entry?
  rw [h]

theorem hasFolder_of_entry {t : FileTree} {p : Place} (h : t.entry? p = some .folder) :
    t.hasFolder p = true := by
  unfold entry? at h
  split at h
  · cases h
  · split at h
    next there => exact there
    next => cases h

/-! ## 2. The tree after a file was put -/

section Put

variable {t : FileTree} {folder : Place} (there : t.entry? folder = some .folder)
  (name content : String)

include there

/-- No folder comes or goes with a file in a folder that is there. -/
theorem hasFolder_put (p : Place) :
    (t.put (folder ++ [name]) content).hasFolder p = t.hasFolder p := by
  rw [Bool.eq_iff_iff]
  constructor
  · intro h
    rcases hasFolder_iff.mp h with h | h | ⟨f, hf, h⟩
    · exact hasFolder_iff.mpr (.inl h)
    · exact hasFolder_iff.mpr (.inr (.inl h))
    rcases List.mem_cons.mp hf with rfl | kept
    · rw [List.dropLast_concat] at h
      exact hasFolder_of_prefix h (hasFolder_of_entry there)
    · exact hasFolder_iff.mpr (.inr (.inr ⟨f, (List.mem_filter.mp kept).1, h⟩))
  · intro h
    rw [hasFolder_iff]
    rcases hasFolder_iff.mp h with h | h | ⟨f, hf, h⟩
    · exact .inl h
    · exact .inr (.inl h)
    -- a file that is replaced was in the same folder
    by_cases replaced : f.1 = folder ++ [name]
    · rw [replaced] at h
      exact .inr (.inr ⟨_, List.mem_cons_self, h⟩)
    · have kept : f ∈ t.files.filter (·.1 != folder ++ [name]) :=
        List.mem_filter.mpr ⟨hf, bne_iff_ne.mpr replaced⟩
      exact .inr (.inr ⟨f, List.mem_cons_of_mem _ kept, h⟩)

/-- **Only at its own place is something else found** after a file was put. -/
theorem entry?_put (p : Place) : entry? (t.put (folder ++ [name]) content) p =
    if p = folder ++ [name] then some (.file content) else t.entry? p := by
  by_cases here : p = folder ++ [name]
  · have held : (t.put (folder ++ [name]) content).files.lookup p = some content := by
      rw [put, here, List.lookup_cons_self]
    rw [if_pos here, entry?_of_some held]
  · have kept : (t.put (folder ++ [name]) content).files.lookup p = t.files.lookup p := by
      rw [put, List.lookup_cons, beq_false_of_ne here]
      exact (lookup_filter _ _ _).trans (if_neg here)
    rw [if_neg here]
    cases found : t.files.lookup p with
    | some content' => rw [entry?_of_some found, entry?_of_some (kept.trans found)]
    | none => rw [entry?_of_none found, entry?_of_none (kept.trans found), hasFolder_put there]

end Put

/-! ## 3. Walks -/

/-- The first step of a computation succeeds. -/
theorem bind_of_ok {ε α β : Type} {v : Except ε α} {k : α → Except ε β} {a : α} {w : Except ε β}
    (h : v = .ok a) (further : k a = w) : v.bind k = w := by
  rw [h]
  exact further

theorem step_iff {t : FileTree} {here place : Place} {name : String} :
    t.step here name = .ok place ↔
      t.entry? here = some .folder ∧ name.utf8ByteSize ≤ maxNameBytes ∧ onward here name = place := by
  constructor
  · intro h
    obtain ⟨_, there, h⟩ := ok_of_bind h
    split at h
    case isTrue => cases h
    case isFalse short => exact ⟨inFolder_iff.mp there, Nat.not_lt.mp short, Except.ok.inj h⟩
  · rintro ⟨there, short, rfl⟩
    exact bind_of_ok (inFolder_iff.mpr there) (if_neg (Nat.not_lt.mpr short))

theorem walk_cons {t : FileTree} {here place : Place} {name : String} {rest : List String} :
    t.walk here (name :: rest) = .ok place ↔
      t.entry? here = some .folder ∧ name.utf8ByteSize ≤ maxNameBytes ∧
        t.walk (onward here name) rest = .ok place := by
  constructor
  · intro h
    obtain ⟨between, stepped, further⟩ := ok_of_bind h
    obtain ⟨there, short, rfl⟩ := step_iff.mp stepped
    exact ⟨there, short, further⟩
  · rintro ⟨there, short, further⟩
    exact bind_of_ok (step_iff.mpr ⟨there, short, rfl⟩) further

theorem walk_append {t : FileTree} {here place : Place} {names names' : List String} :
    t.walk here (names ++ names') = .ok place ↔
      ∃ between, t.walk here names = .ok between ∧ t.walk between names' = .ok place := by
  induction names generalizing here with
  | nil => exact ⟨fun h => ⟨here, rfl, h⟩, fun ⟨_, same, h⟩ => by cases same; exact h⟩
  | cons name names ih =>
    rw [List.cons_append, walk_cons, ih]
    constructor
    · rintro ⟨there, short, between, first, rest⟩
      exact ⟨between, walk_cons.mpr ⟨there, short, first⟩, rest⟩
    · rintro ⟨between, first, rest⟩
      obtain ⟨there, short, first⟩ := walk_cons.mp first
      exact ⟨there, short, between, first, rest⟩

/-- A walk to a folder starts in one. -/
theorem folder_of_walk {t : FileTree} {here place : Place} {names : List String}
    (walked : t.walk here names = .ok place) (there : t.entry? place = some .folder) :
    t.entry? here = some .folder := by
  cases names with
  | nil =>
    cases walked
    exact there
  | cons name names => exact (walk_cons.mp walked).1

/-- Names that are empty make no difference on a walk to a folder. -/
theorem walk_filter {t : FileTree} {here place : Place} {names : List String}
    (walked : t.walk here (names.filter (!·.isEmpty)) = .ok place)
    (there : t.entry? place = some .folder) : t.walk here names = .ok place := by
  induction names generalizing here with
  | nil => exact walked
  | cons name names ih =>
    by_cases empty : name = ""
    · subst empty
      rw [List.filter_cons_of_neg (by simp)] at walked
      have start := folder_of_walk walked there
      exact walk_cons.mpr ⟨start, by decide, ih walked⟩
    · rw [List.filter_cons_of_pos (by simpa using empty)] at walked
      obtain ⟨start, short, further⟩ := walk_cons.mp walked
      exact walk_cons.mpr ⟨start, short, ih further⟩

/-- A walk leads on where every folder on the way still is one. -/
theorem walk_mono {t t' : FileTree} (kept : ∀ p, t.entry? p = some .folder → t'.entry? p = some .folder)
    {here place : Place} {names : List String} (walked : t.walk here names = .ok place) :
    t'.walk here names = .ok place := by
  induction names generalizing here with
  | nil => exact walked
  | cons name names ih =>
    obtain ⟨there, short, further⟩ := walk_cons.mp walked
    exact walk_cons.mpr ⟨kept here there, short, ih further⟩

/-! ## 4. Writing and reading -/

/-- A path that leads to a file is not empty. -/
theorem read_named {t : FileTree} {path content : String} (h : t.read path = .ok content) :
    path ≠ "" := by
  rintro rfl
  unfold read at h
  obtain ⟨-, -, h⟩ := ok_of_bind h
  obtain ⟨place, walked, h⟩ := ok_of_bind h
  rw [show namesOf "" = [""] from rfl] at walked
  obtain ⟨folder, -, arrived⟩ := walk_cons.mp walked
  cases arrived
  rw [show onward (t.origin "") "" = t.origin "" from rfl, folder] at h
  cases h

/-- The last name of a path that names a file. -/
theorem onward_name {here : Place} {name : String} (named : name ≠ "") (other : name ≠ ".")
    (further : name ≠ "..") : onward here name = here ++ [name] := by
  unfold onward
  rw [if_neg (by simp [named, other]), if_neg (by simp [further])]

/-- Where a path leads that a file can be written to: in a folder that is there, by a name of its
    own, and to no folder. -/
structure Aims (t : FileTree) (path : String) (before : List String) (name : String)
    (folder : Place) : Prop where
  legal : checkPath path = .ok ()
  names : namesOf path = before ++ [name]
  walked : t.walk (t.origin path) before = .ok folder
  there : t.entry? folder = some .folder
  short : name.utf8ByteSize ≤ maxNameBytes
  onward : onward folder name = folder ++ [name]
  free : t.entry? (folder ++ [name]) ≠ some .folder

/-- The last name that is not empty, where the last one is not. -/
theorem last_name {names : List String} {name : String}
    (last : (names.filter (!·.isEmpty)).getLast? = some name) (whole : names.getLast? ≠ some "") :
    ∃ before, names = before ++ [name] ∧
      (names.filter (!·.isEmpty)).dropLast = before.filter (!·.isEmpty) ∧ name ≠ "" := by
  rcases List.eq_nil_or_concat names with rfl | ⟨before, l, rfl⟩
  · cases last
  · rw [List.concat_eq_append] at last whole ⊢
    have named : l ≠ "" := fun empty => whole (by rw [List.getLast?_append, empty]; rfl)
    have kept : [l].filter (!·.isEmpty) = [l] := List.filter_cons_of_pos (by simpa using named)
    rw [List.filter_append, kept, List.getLast?_append] at last
    cases last
    refine ⟨before, rfl, ?_, named⟩
    rw [List.filter_append, kept, List.dropLast_concat]

theorem target_cases {t : FileTree} {path : String} {place : Place}
    (h : t.target path = .ok place) :
    ∃ before name folder, t.Aims path before name folder ∧ place = folder ++ [name] := by
  unfold target at h
  obtain ⟨_, legal, h⟩ := ok_of_bind h
  obtain ⟨folder, walked, h⟩ := ok_of_bind h
  split at h
  case h_2 => cases h
  case h_1 name last =>
  obtain ⟨_, there, h⟩ := ok_of_bind h
  split at h
  case isTrue => cases h
  case isFalse proper =>
  obtain ⟨place', stepped, h⟩ := ok_of_bind h
  split at h
  case isTrue => cases h
  case isFalse free =>
  cases h
  obtain ⟨inside, short, reached⟩ := step_iff.mp stepped
  simp only [Bool.or_eq_true, beq_iff_eq, not_or] at proper
  obtain ⟨⟨whole, notHere⟩, notBack⟩ := proper
  obtain ⟨before, names, same, named⟩ := last_name last whole
  rw [same] at walked
  have on : onward folder name = folder ++ [name] := onward_name named notHere notBack
  rw [on] at reached
  subst reached
  refine ⟨before, name, folder, ⟨legal, names, walk_filter walked inside, inside, short, on, ?_⟩, rfl⟩
  simpa using free

/-- **What was written is read back**: the path still leads to its place, and nothing else is
    found differently. -/
theorem read_write {t t' : FileTree} {path content : String} (h : t.write path content = .ok t') :
    t'.read path = .ok content ∧ ∃ place, t.target path = .ok place ∧
      ∀ p, t'.entry? p = if p = place then some (.file content) else t.entry? p := by
  unfold write at h
  cases aimed : t.target path with
  | error fault =>
    rw [aimed] at h
    cases h
  | ok place =>
    rw [aimed] at h
    cases h
    obtain ⟨before, name, folder, aims, rfl⟩ := target_cases aimed
    have found := entry?_put aims.there name content
    refine ⟨?_, _, rfl, found⟩
    have kept (p : Place) (there : t.entry? p = some .folder) :
        entry? (t.put (folder ++ [name]) content) p = some .folder := by
      rw [found, if_neg, there]
      rintro rfl
      exact aims.free there
    have last : (t.put (folder ++ [name]) content).walk folder [name] = .ok (folder ++ [name]) :=
      walk_cons.mpr ⟨kept folder aims.there, aims.short, congrArg Except.ok aims.onward⟩
    have walked : (t.put (folder ++ [name]) content).walk (t.origin path) (namesOf path) =
        .ok (folder ++ [name]) := by
      rw [aims.names]
      exact walk_append.mpr ⟨folder, walk_mono kept aims.walked, last⟩
    have here := found (folder ++ [name])
    rw [if_pos rfl] at here
    refine bind_of_ok aims.legal (bind_of_ok walked ?_)
    dsimp only
    rw [here]
    rfl

end GrammarMatch.CommandLine.FileTree
