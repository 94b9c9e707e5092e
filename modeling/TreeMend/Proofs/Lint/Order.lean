import Mathlib.Data.List.Basic
import TreeMend.Lint
import TreeMend.Proofs.Check.Meaning
import TreeMend.Proofs.Command.Atomic
import TreeMend.Proofs.Report.Sorting

/-!
# The order of the files does not matter

A run reads, parses and checks its files one by one and sorts what it found.  Findings of different
files are never at one place, so the sorted list does not tell in which order the files came; and
findings at one place stay in the order in which the check of their file came by them.

## Main definitions

* `Lint.relative` — the path of a file in its findings.
* `Lint.checked` — a file with what is found in it.

## Main results

* `Lint.summarize_eq`, `Lint.outcome_run` — a run over files that can be read.
* `Lint.run_perm` — **the order of the files does not matter**.
-/

namespace List

variable {α β : Type}

/-- The order of the lists that are joined does not matter if at most one of them has elements. -/
theorem flatMap_eq_of_perm {f : α → List β} {xs ys : List α} (h : xs.Perm ys)
    (hone : xs.Pairwise fun a b => f a = [] ∨ f b = []) : xs.flatMap f = ys.flatMap f := by
  induction h with
  | nil => rfl
  | cons a _ ih => rw [flatMap_cons, flatMap_cons, ih hone.of_cons]
  | swap a b xs =>
    rcases rel_of_pairwise_cons hone mem_cons_self with hb | ha
    · simp only [flatMap_cons, hb, nil_append]
    · simp only [flatMap_cons, ha, nil_append]
  | trans h _ ih ih' =>
    rw [ih hone]
    exact ih' ((h.pairwise_iff fun h => h.symm).mp hone)

end List

namespace TreeMend

namespace Traced

variable {τ ε α : Type}

theorem ext {x y : Traced τ ε α} (htrace : x.trace = y.trace) (houtcome : x.outcome = y.outcome) :
    x = y := by
  cases x
  cases y
  simp_all

/-- Steps of a computation with a trace can be grouped at will. -/
instance : LawfulMonad (Traced τ ε) := by
  refine .mk' _ (fun x => ext ?_ ?_) (fun a f => ext ?_ ?_) (fun x f g => ext ?_ ?_)
  · change (x >>= pure).trace = _
    rw [trace_bind]
    cases x.outcome <;> simp
  · change (x >>= pure).outcome = _
    rw [outcome_bind]
    cases x.outcome <;> rfl
  · simp [trace_bind]
  · simp [Except.bind]
  · simp only [trace_bind, outcome_bind, List.append_assoc]
    cases x.outcome with
    | error e => simp [Except.bind]
    | ok a => rfl
  · simp only [outcome_bind]
    cases x.outcome <;> rfl

end Traced

namespace Lint

/-! ### One file -/

/-- The path of a file in its findings: below the root of the run, if it is there. -/
def relative (root p : Path) : Path := (Path.below? p root).getD p

/-- The file with a path and a text, with what is found in it. -/
def checked (w : World) (root : Path) (config : Config) (p : Path) (content : String) : Checked :=
  let file := SourceFile.under root p content
  let tree := ParseTree.lowerProgram content (w.parser (Dialect.ofPath p) p content)
  ⟨file, ((⟨config, Catalog.checks, some file⟩ : Check.Run).check 0 tree).violations⟩

variable {w : World} {root : Path} {config : Config} {p : Path} {content : String}

theorem outcome_checkFile (h : w.files.readText w.directory p = .ok content) :
    (checkFile w root config p).outcome = .ok (checked w root config p content) := by
  rw [checkFile, Traced.outcome_bind, World.read_eq_ok_iff.mpr h]
  rfl

/-- A finding carries the path of its file. -/
theorem file_of_mem_checked {v : Violation}
    (h : v ∈ (checked w root config p content).violations) :
    v.location.file = relative root p := by
  rw [checked, Check.Run.violations_check] at h
  obtain ⟨x, -, hv⟩ := List.mem_flatMap.mp h
  obtain ⟨rule, -, hv⟩ := List.mem_filterMap.mp hv
  cases hverdict : rule.verdict x.2 with
  | clean => simp [hverdict] at hv
  | halt => simp [hverdict] at hv
  | violated message =>
    rw [hverdict] at hv
    obtain rfl := Option.some.inj hv
    rfl

/-- A file has no findings at a place in another file. -/
theorem filter_checked_eq_nil {v : Violation}
    (h : Path.components v.location.file ≠ Path.components (relative root p)) :
    (checked w root config p content).violations.filter (Summary.SamePlace v ·) = [] := by
  refine List.filter_eq_nil_iff.mpr fun u hu hplace => h ?_
  rw [(of_decide_eq_true hplace).1, file_of_mem_checked hu]

/-! ### All files -/

/-- The result of a list of checked files. -/
theorem summarize_eq (cs : List Checked) :
    summarize cs = Summary.sort ⟨cs.flatMap (·.violations), cs.length % UInt64.size⟩ := by
  have hfold : ∀ s : Summary, s.filesChecked < UInt64.size →
      cs.foldl (fun (s : Summary) c => s.extend ⟨c.violations, 1⟩) s =
        ⟨s.violations ++ cs.flatMap (·.violations),
          (s.filesChecked + cs.length) % UInt64.size⟩ := by
    induction cs with
    | nil =>
      intro s hs
      simp [Nat.mod_eq_of_lt hs]
    | cons c cs ih =>
      intro s hs
      rw [List.foldl_cons, ih _ (Nat.mod_lt _ (by decide))]
      simp [Summary.extend, Nat.add_assoc, Nat.add_comm 1]
  rw [summarize, hfold {} (by decide)]
  simp

/-- A run over files that can be read checks each of them. -/
theorem outcome_run {text : Path → String} {paths : List Path}
    (h : ∀ p ∈ paths, w.files.readText w.directory p = .ok (text p)) :
    (run w root config paths).outcome =
      .ok (summarize (paths.map fun p => checked w root config p (text p)),
        paths.map fun p => SourceFile.under root p (text p)) := by
  have hmapM : (paths.mapM (checkFile w root config)).outcome =
      .ok (paths.map fun p => checked w root config p (text p)) := by
    induction paths with
    | nil => rfl
    | cons p paths ih =>
      obtain ⟨hp, hpaths⟩ := List.forall_mem_cons.mp h
      rw [List.mapM_cons, Traced.outcome_bind, outcome_checkFile hp]
      change Traced.outcome (_ >>= _) = _
      rw [Traced.outcome_bind, ih hpaths]
      rfl
  rw [run, Traced.outcome_bind, hmapM]
  change Except.ok (_, List.map _ (List.map _ _)) = _
  rw [List.map_map]
  rfl

/-- Of files that are apart, at most one has findings at a place. -/
theorem pairwise_filter_checked {text : Path → String} {paths : List Path}
    (happart : paths.Pairwise fun p q =>
      Path.components (relative root p) ≠ Path.components (relative root q))
    (v : Violation) :
    paths.Pairwise fun p q =>
      (checked w root config p (text p)).violations.filter (Summary.SamePlace v ·) = [] ∨
      (checked w root config q (text q)).violations.filter (Summary.SamePlace v ·) = [] := by
  refine happart.imp fun {p q} h => ?_
  by_cases hp : Path.components v.location.file = Path.components (relative root p)
  · right
    refine filter_checked_eq_nil ?_
    rw [hp]
    exact h
  · left
    exact filter_checked_eq_nil hp

/-- The findings of one file at a place, among the findings of files that are apart. -/
theorem filter_flatMap_checked {text : Path → String} {paths : List Path}
    (happart : paths.Pairwise fun p q =>
      Path.components (relative root p) ≠ Path.components (relative root q))
    {p : Path} (hp : p ∈ paths) {v : Violation}
    (hv : Path.components v.location.file = Path.components (relative root p)) :
    (paths.flatMap fun p => (checked w root config p (text p)).violations).filter
        (Summary.SamePlace v ·) =
      (checked w root config p (text p)).violations.filter (Summary.SamePlace v ·) := by
  have hfront := List.perm_cons_erase hp
  have hothers := (hfront.pairwise_iff Ne.symm).mp happart
  rw [List.filter_flatMap, List.flatMap_eq_of_perm hfront (pairwise_filter_checked happart v),
    List.flatMap_cons, List.flatMap_eq_nil_iff.mpr, List.append_nil]
  intro q hq
  refine filter_checked_eq_nil ?_
  rw [hv]
  exact List.rel_of_pairwise_cons hothers hq

/-- Checked files that are apart make one result, in whatever order they come. -/
theorem summarize_perm {text : Path → String} {paths paths' : List Path}
    (happart : paths.Pairwise fun p q =>
      Path.components (relative root p) ≠ Path.components (relative root q))
    (hperm : paths.Perm paths') :
    summarize (paths'.map fun p => checked w root config p (text p)) =
      summarize (paths.map fun p => checked w root config p (text p)) := by
  rw [summarize_eq, summarize_eq, List.flatMap_map, List.flatMap_map]
  refine Summary.sort_congr ?_ fun v => ?_
  · simp [hperm.length_eq]
  · rw [List.filter_flatMap, List.filter_flatMap]
    exact (List.flatMap_eq_of_perm hperm (pairwise_filter_checked happart v)).symm

/-- **The order of the files does not matter.**  A run over files that can be read, of which no two
have the same path below the root, gives the same result for the files in any other order.  The
result has the findings of all files, which are errors if some are; it is in order; and findings at
one place of a file stay in the order in which its check came by them. -/
theorem run_perm (config : Config) {text : Path → String} {paths paths' : List Path}
    (hread : ∀ p ∈ paths, w.files.readText w.directory p = .ok (text p))
    (happart : paths.Pairwise fun p q => Path.compare (relative root p) (relative root q) ≠ .eq)
    (hperm : paths.Perm paths') :
    ∃ summary : Summary,
      (run w root config paths).outcome =
        .ok (summary, paths.map fun p => SourceFile.under root p (text p)) ∧
      (run w root config paths').outcome =
        .ok (summary, paths'.map fun p => SourceFile.under root p (text p)) ∧
      summary.filesChecked = paths.length % UInt64.size ∧
      summary.violations.Perm
        (paths.flatMap fun p => (checked w root config p (text p)).violations) ∧
      (summary.hasErrors = true ↔ ∃ p ∈ paths,
        ∃ v ∈ (checked w root config p (text p)).violations, v.severity = .error) ∧
      summary.violations.Pairwise Summary.InOrder ∧
      ∀ p ∈ paths, ∀ v : Violation,
        Path.components v.location.file = Path.components (relative root p) →
        summary.violations.filter (Summary.SamePlace v ·) =
          (checked w root config p (text p)).violations.filter (Summary.SamePlace v ·) := by
  have hread' : ∀ p ∈ paths', w.files.readText w.directory p = .ok (text p) :=
    fun p hp => hread p (hperm.mem_iff.mpr hp)
  have happart := happart.imp (mt Path.compare_eq_eq_iff.mpr)
  have hcongr := @summarize_perm w root config text _ _ happart hperm
  set summary := summarize (paths.map fun p => checked w root config p (text p)) with hsummary
  rw [summarize_eq, List.flatMap_map, List.length_map] at hsummary
  have hviolations : summary.violations.Perm
      (paths.flatMap fun p => (checked w root config p (text p)).violations) := by
    rw [hsummary]
    exact List.mergeSort_perm _ _
  refine ⟨summary, outcome_run hread, ?_, ?_, hviolations, ?_, ?_, ?_⟩
  · rw [outcome_run hread', hcongr]
  · rw [hsummary]
    rfl
  · rw [Summary.hasErrors, List.any_eq_true]
    simp only [hviolations.mem_iff, List.mem_flatMap, beq_iff_eq]
    constructor
    · rintro ⟨v, ⟨p, hp, hv⟩, herror⟩
      exact ⟨p, hp, v, hv, herror⟩
    · rintro ⟨p, hp, v, hv, herror⟩
      exact ⟨v, ⟨p, hp, hv⟩, herror⟩
  · rw [hsummary]
    exact Summary.pairwise_sort _
  · intro p hp v hv
    rw [hsummary, Summary.filter_sort]
    exact filter_flatMap_checked happart hp hv

/-- A class whose constructor calls something else. -/
def derivedSource : String := "class A extends B \x7b constructor() \x7b f(); \x7d \x7d"

/-- The parse tree of `derivedSource`. -/
def derivedTree : ParseTree :=
  ⟨⟨"program", true, false, false, false, 0, 44, none⟩, [
    ⟨⟨"class_declaration", true, false, false, false, 0, 44, none⟩, [
      ⟨⟨"class", false, false, false, false, 0, 5, none⟩, []⟩,
      ⟨⟨"type_identifier", true, false, false, false, 6, 7, some "name"⟩, []⟩,
      ⟨⟨"class_heritage", true, false, false, false, 8, 17, none⟩, [
        ⟨⟨"extends_clause", true, false, false, false, 8, 17, none⟩, [
          ⟨⟨"extends", false, false, false, false, 8, 15, none⟩, []⟩,
          ⟨⟨"identifier", true, false, false, false, 16, 17, some "value"⟩, []⟩]⟩]⟩,
      ⟨⟨"class_body", true, false, false, false, 18, 44, some "body"⟩, [
        ⟨⟨"\x7b", false, false, false, false, 18, 19, none⟩, []⟩,
        ⟨⟨"method_definition", true, false, false, false, 20, 42, none⟩, [
          ⟨⟨"property_identifier", true, false, false, false, 20, 31, some "name"⟩, []⟩,
          ⟨⟨"formal_parameters", true, false, false, false, 31, 33, some "parameters"⟩, [
            ⟨⟨"(", false, false, false, false, 31, 32, none⟩, []⟩,
            ⟨⟨")", false, false, false, false, 32, 33, none⟩, []⟩]⟩,
          ⟨⟨"statement_block", true, false, false, false, 34, 42, some "body"⟩, [
            ⟨⟨"\x7b", false, false, false, false, 34, 35, none⟩, []⟩,
            ⟨⟨"expression_statement", true, false, false, false, 36, 40, none⟩, [
              ⟨⟨"call_expression", true, false, false, false, 36, 39, none⟩, [
                ⟨⟨"identifier", true, false, false, false, 36, 37, some "function"⟩, []⟩,
                ⟨⟨"arguments", true, false, false, false, 37, 39, some "arguments"⟩, [
                  ⟨⟨"(", false, false, false, false, 37, 38, none⟩, []⟩,
                  ⟨⟨")", false, false, false, false, 38, 39, none⟩, []⟩]⟩]⟩,
              ⟨⟨";", false, false, false, false, 39, 40, none⟩, []⟩]⟩,
            ⟨⟨"\x7d", false, false, false, false, 41, 42, none⟩, []⟩]⟩]⟩,
        ⟨⟨"\x7d", false, false, false, false, 43, 44, none⟩, []⟩]⟩]⟩]⟩

/-- Two files with this source, and a parser that knows it only. -/
def derivedWorld : World where
  files := ⟨[(["src"], .directory), (["src", "a.ts"], .file derivedSource.toUTF8),
    (["src", "b.ts"], .file derivedSource.toUTF8)]⟩
  parser := fun _ _ _ => derivedTree

/-- The checks are on. -/
def derivedConfig : Config := { rules := .ofList [(SuperCall.rule.name, .error)] }

theorem run_perm_derivedWorld :
    ∃ summary : Summary,
      (run derivedWorld "src" derivedConfig ["src/b.ts", "src/a.ts"]).outcome.map (·.1) =
        .ok summary ∧
      (run derivedWorld "src" derivedConfig ["src/a.ts", "src/b.ts"]).outcome.map (·.1) =
        .ok summary ∧
      summary.filesChecked = 2 ∧ summary.violations.length = 2 := by
  have hread : ∀ p ∈ ["src/b.ts", "src/a.ts"],
      derivedWorld.files.readText derivedWorld.directory p = .ok derivedSource := by
    decide +kernel
  obtain ⟨summary, hrun, hrun', hfiles, hviolations, -⟩ :=
    @run_perm derivedWorld "src" derivedConfig (fun _ => derivedSource) _ _ hread
      (by decide +kernel) (.swap "src/a.ts" "src/b.ts" [])
  refine ⟨summary, ?_, ?_, hfiles, ?_⟩
  · rw [hrun]
    rfl
  · rw [hrun']
    rfl
  · rw [hviolations.length_eq]
    decide +kernel

end Lint

end TreeMend
