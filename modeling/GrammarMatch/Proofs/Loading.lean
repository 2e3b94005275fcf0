/-
  File:      GrammarMatch/Proofs/Loading.lean
  Subject:   What becomes of a grammar file when it is loaded.

  A grammar file is read, and then its declarations are defined one after the other. Reading checks
  the lines and the names of flags, so that what can go wrong later is in the text of a pattern
  (`run_declared`). Such a fault is attributed to the first declaration that has one; it does not
  depend on the flags and the kind in which the text is compiled (`compile_error_iff`). If there is
  none, the registry holds for each declared name what its last declaration says (`Enters`). No
  other outcome is possible (`loads`).
-/
import GrammarMatch.Proofs.Decoration
import GrammarMatch.Proofs.Definitions
import GrammarMatch.Proofs.FaultyLines

namespace GrammarMatch

/-! ## 1. Declarations -/

/-- A text is refused for the same fault in every kind and with any flags. -/
theorem Pattern.compile_error_iff {source : List Char} {flags flags' : Flags}
    {kind kind' : RuleKind} {e : SyntaxError} :
    compile source flags kind = .error e ↔ compile source flags' kind' = .error e := by
  have plain (flags : Flags) (kind : RuleKind) :
      compile source flags kind = .error e ↔ compile source .none .regex = .error e := by
    rw [← bare_compile source flags kind]
    cases compile source flags kind with
    | ok p => exact iff_of_false (fun h => by cases h) fun h => by cases h
    | error e' => exact Iff.rfl
  exact (plain flags kind).trans (plain flags' kind').symm

namespace Registry

/-- What a declaration declares: its flags are known, and its source compiles to a pattern. -/
structure Declaration.Makes (d : Declaration) (flags : Flags) (p : Pattern) : Prop where
  known : Flags.ofNames d.flags = .ok flags
  compiles : Pattern.compile d.source flags (Rule.compileKind d.name d.kind) = .ok p

/-- The flags of a declaration are known, and its source does not compile. -/
def Declaration.Fails (d : Declaration) (e : SyntaxError) : Prop :=
  ∃ flags, Flags.ofNames d.flags = .ok flags ∧ Pattern.compile d.source flags d.kind = .error e

/-! ## 2. One declaration -/

/-- The entries of a registry are those of some declarations: for each name what the last
    declaration of that name makes. -/
structure Enters (ds : List Declaration) (r : Registry) : Prop where
  keyed : r.Keyed
  undeclared : ∀ name, (∀ d ∈ ds, d.name ≠ name) → r.entries.lookup name = none
  declared : ∀ before d after, ds = before ++ d :: after →
    (∀ d' ∈ after, d'.name ≠ d.name) → ∃ flags p, d.Makes flags p ∧
      r.entries.lookup d.name = some (.compiled ⟨d.name, d.kind, p, flags⟩)

theorem enters_empty : Enters [] empty where
  keyed := List.nodup_nil
  undeclared _ _ := rfl
  declared _ _ _ h _ := absurd h.symm (List.append_ne_nil_of_right_ne_nil _ (List.cons_ne_nil _ _))

variable {ds : List Declaration} {d : Declaration} {r : Registry}

/-- What a declaration makes is held from then on, and the other names keep what they have. -/
theorem Enters.put {flags : Flags} {p : Pattern} (h : Enters ds r) (made : d.Makes flags p) :
    Enters (ds ++ [d]) (r.put d.name (.compiled ⟨d.name, d.kind, p, flags⟩)) where
  keyed := keyed_put h.keyed _ _
  undeclared name new := by
    obtain ⟨others, own⟩ := List.forall_mem_append.mp new
    have other : d.name ≠ name := own d List.mem_cons_self
    rw [lookup_put, if_neg other.symm]
    exact h.undeclared name others
  declared before d' after split last := by
    rcases List.eq_nil_or_concat after with rfl | ⟨after, d'', rfl⟩
    · obtain ⟨-, same⟩ := List.append_inj' split rfl
      cases same
      refine ⟨flags, p, made, ?_⟩
      rw [lookup_put, if_pos rfl]
    · rw [List.concat_eq_append, ← List.cons_append, ← List.append_assoc] at split
      rw [List.concat_eq_append] at last
      obtain ⟨earlier, same⟩ := List.append_inj' split rfl
      cases same
      obtain ⟨others, own⟩ := List.forall_mem_append.mp last
      have other : d.name ≠ d'.name := own d List.mem_cons_self
      obtain ⟨flags', p', made', held⟩ := h.declared before d' after earlier others
      refine ⟨flags', p', made', ?_⟩
      rw [lookup_put, if_neg other.symm, held]

/-- **What defining a declaration does** whose flags are known. -/
theorem defineSpec_declared {flags : Flags} (known : Flags.ofNames d.flags = .ok flags)
    (r : Registry) : (∃ p, d.Makes flags p ∧ r.defineSpec (.declared d) =
        .ok (r.put d.name (.compiled ⟨d.name, d.kind, p, flags⟩))) ∨
      ∃ e, d.Fails e ∧ r.defineSpec (.declared d) = .error (.badSyntax (e.forRule d.name)) := by
  have run : r.defineSpec (.declared d) = r.define d.name (.now (.text d.source)) d.kind flags := by
    rw [defineSpec, known]
    rfl
  rw [run, define, Rule.compile]
  cases compiled : Pattern.compile d.source flags (Rule.compileKind d.name d.kind) with
  | ok p => exact .inl ⟨p, ⟨known, compiled⟩, rfl⟩
  | error e => exact .inr ⟨e, ⟨flags, known, Pattern.compile_error_iff.mp compiled⟩, rfl⟩

/-! ## 3. All declarations -/

/-- **Declarations are defined up to the first one whose source does not compile.** -/
theorem run_declared {done rest : List Declaration} (start : Enters done r)
    (known : ∀ d ∈ rest, ∃ flags, Flags.ofNames d.flags = .ok flags) :
    (∃ r', (rest.map .declared).foldlM defineSpec r = .ok r' ∧ Enters (done ++ rest) r') ∨
      ∃ before d after e, rest = before ++ d :: after ∧
        (∀ d' ∈ before, ∃ flags p, d'.Makes flags p) ∧ d.Fails e ∧
        (rest.map .declared).foldlM defineSpec r = .error (.badSyntax (e.forRule d.name)) := by
  induction rest generalizing done r with
  | nil => exact .inl ⟨r, rfl, by rwa [List.append_nil]⟩
  | cons d rest ih =>
    obtain ⟨⟨flags, hd⟩, later⟩ := List.forall_mem_cons.mp known
    rw [List.map_cons, List.foldlM_cons]
    rcases defineSpec_declared hd r with ⟨p, made, step⟩ | ⟨e, fails, step⟩
    · rw [step]
      rcases ih (start.put made) later with
        ⟨r', run, enters⟩ | ⟨before, d', after, e, rfl, sound, fails, run⟩
      · refine .inl ⟨r', run, ?_⟩
        rwa [List.append_assoc] at enters
      · exact .inr ⟨d :: before, d', after, e, rfl,
          List.forall_mem_cons.mpr ⟨⟨flags, p, made⟩, sound⟩, fails, run⟩
    · rw [step]
      exact .inr ⟨[], d, rest, e, rfl, List.forall_mem_nil _, fails, rfl⟩

/-- What a registry answers that was made of declarations. Its names are those that are declared,
    and the lookup of a name gives what its last declaration makes, and changes nothing. -/
structure Declared (ds : List Declaration) (r : Registry) : Prop where
  nodup : r.names.Nodup
  names : ∀ name, name ∈ r.names ↔ ∃ d ∈ ds, d.name = name
  rules : ∀ before d after, ds = before ++ d :: after →
    (∀ d' ∈ after, d'.name ≠ d.name) → ∃ flags p, d.Makes flags p ∧
      Registry.rule d.name r = .ok ⟨d.name, d.kind, p, flags⟩ r

/-- Of several declarations of a name one is the last. -/
theorem last_declaration {name : String} (h : ∃ d ∈ ds, d.name = name) :
    ∃ before d after, ds = before ++ d :: after ∧ d.name = name ∧
      ∀ d' ∈ after, d'.name ≠ name := by
  induction ds with
  | nil =>
    obtain ⟨d, mem, -⟩ := h
    cases mem
  | cons d ds ih =>
    by_cases later : ∃ d ∈ ds, d.name = name
    · obtain ⟨before, d', after, rfl, named, last⟩ := ih later
      exact ⟨d :: before, d', after, rfl, named, last⟩
    · obtain ⟨d', mem, named⟩ := h
      rcases List.mem_cons.mp mem with rfl | mem
      · exact ⟨[], d', ds, rfl, named, fun d' mem' same => later ⟨d', mem', same⟩⟩
      · exact absurd ⟨d', mem, named⟩ later

theorem Enters.declares (h : Enters ds r) : Declared ds r where
  nodup := nodup_names h.keyed
  names name := by
    rw [mem_names_iff h.keyed, defines]
    constructor
    · intro held
      by_contra undeclared
      have none : r.entries.lookup name = none :=
        h.undeclared name fun d hd same => undeclared ⟨d, hd, same⟩
      rw [none] at held
      cases held
    · intro declared
      obtain ⟨before, d, after, split, rfl, last⟩ := last_declaration declared
      obtain ⟨flags, p, -, held⟩ := h.declared before d after split last
      rw [held]
      rfl
  rules before d after split last := by
    obtain ⟨flags, p, made, held⟩ := h.declared before d after split last
    refine ⟨flags, p, made, ?_⟩
    rw [rule_run, resolve_of_some held, settle, held]
    rfl

end Registry

/-! ## 4. Files -/

namespace GrammarFile

/-- Read a grammar file and make a registry of it. -/
def load (code : List Char) (path : Option String) : Except Failure Registry :=
  match read code path with
  | .error e => .error (.badSyntax e)
  | .ok file => compile file

/-- A declaration is accepted only if its flags are known. -/
theorem known_flags {code : List Char} {l : LogicalLine} {d : Registry.Declaration}
    (h : declarationOf code l = .ok d) : ∃ flags, Flags.ofNames d.flags = .ok flags := by
  rw [declarationOf] at h
  split at h
  · cases h
  · dsimp only at h
    split at h
    · cases h
    · rename_i flags known
      cases h
      exact ⟨flags, known⟩

/-- **Reading leaves no declaration whose flags are unknown.** -/
theorem known_read {code : List Char} {path : Option String} {file : GrammarFile}
    (h : read code path = .ok file) :
    ∀ d ∈ file.rules, ∃ flags, Flags.ofNames d.flags = .ok flags := by
  rw [read] at h
  split at h
  · cases h
  · rename_i first rest _
    cases version : readVersion code first with
    | error e =>
      rw [version] at h
      cases h
    | ok v =>
      rw [version] at h
      rcases mapM_cases (declarationOf code) rest with
        ⟨ds, made, each⟩ | ⟨-, -, -, -, e, -, -, -, failed⟩
      · simp only [made] at h
        cases h
        intro d hd
        obtain ⟨l, -, declares⟩ := each d hd
        exact known_flags declares
      · simp only [failed] at h
        cases h

/-- What the reader refuses is attributed to no rule. -/
theorem rule_read {code : List Char} {path : Option String} {e : SyntaxError}
    (h : read code path = .error e) : e.rule = none := by
  rcases read_error h with ⟨-, rfl⟩ | ⟨l, rejected⟩
  · rfl
  · obtain ⟨c, rfl⟩ := rejected.complaint
    rfl

/-- The outcomes of loading a grammar file. -/
inductive Loads (code : List Char) (path : Option String) : Except Failure Registry → Prop
  /-- The lines are faulty: the reader says why, and names no rule. -/
  | refused {e : SyntaxError} (reads : read code path = .error e) (unnamed : e.rule = none) :
      Loads code path (.error (.badSyntax e))
  /-- The source of a declaration does not compile, those before it do: what the compiler says of
      it is attributed to the rule. -/
  | attributed {file : GrammarFile} {before after : List Registry.Declaration}
      {d : Registry.Declaration} {e : SyntaxError} (reads : read code path = .ok file)
      (rules : file.rules = before ++ d :: after)
      (sound : ∀ d' ∈ before, ∃ flags p, d'.Makes flags p) (fails : d.Fails e) :
      Loads code path (.error (.badSyntax (e.forRule d.name)))
  /-- The registry holds what is declared. -/
  | complete {file : GrammarFile} {r : Registry} (reads : read code path = .ok file)
      (declared : Registry.Declared file.rules r) : Loads code path (.ok r)

/-- **Loading a grammar file fails only with a fault of a text**, attributed to a rule unless the
    lines are faulty; otherwise the registry holds what the file declares. -/
theorem loads (code : List Char) (path : Option String) : Loads code path (load code path) := by
  rw [load]
  cases reads : read code path with
  | error e => exact .refused reads (rule_read reads)
  | ok file =>
    show Loads code path ((file.rules.map .declared).foldlM Registry.defineSpec .empty)
    rcases Registry.run_declared Registry.enters_empty (known_read reads) with
      ⟨r, run, enters⟩ | ⟨before, d, after, e, rules, sound, fails, run⟩
    · rw [run]
      exact .complete reads enters.declares
    · rw [run]
      exact .attributed reads rules sound fails

end GrammarFile

end GrammarMatch
