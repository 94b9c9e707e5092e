import Mathlib.Algebra.GroupWithZero.Nat
import TreeMend.Proofs.Report.Sorting

/-!
# Results built up step by step

A result is built up from the empty one by adding findings, by adding other results and by sorting.
Sorting in between moves findings, but never past another one at the same place, so each place keeps
the findings that were added there, in the order in which they were added.  This is all that a
sorted result depends on: sorting at the end gives what sorting once would have given.

## Main definitions

* `Summary.Step`, `Summary.ofSteps` — a way to change a result, and the result of several steps.
* `Summary.Step.added`, `Summary.Step.files` — what a step adds.
* `Summary.Accounts` — a result holds given findings, at each place in their order.

## Main results

* `Summary.Accounts.apply` — what a step does to a result.
* `Summary.accounts_ofSteps` — what a result of several steps holds.
* `Summary.ofSteps_holds` — **nothing is lost, and earlier sorting does not show**.
-/

namespace TreeMend.Summary

/-- A way to change a result. -/
inductive Step where
  /-- Add a finding. -/
  | push (v : Violation)
  /-- Add another result. -/
  | extend (other : Summary)
  /-- Sort the findings. -/
  | sort
  deriving DecidableEq, Repr, Inhabited

namespace Step

/-- The result after a step. -/
def apply (s : Summary) : Step → Summary
  | .push v => s.push v
  | .extend other => s.extend other
  | .sort => s.sort

/-- The findings that a step adds. -/
def added : Step → List Violation
  | .push v => [v]
  | .extend other => other.violations
  | .sort => []

/-- The number of files that a step adds. -/
def files : Step → Nat
  | .extend other => other.filesChecked
  | _ => 0

end Step

/-- The result that steps make of the empty one. -/
def ofSteps (steps : List Step) : Summary := steps.foldl Step.apply {}

/-! ### What a result holds -/

/-- A result holds the findings `found`, at each place in their order, and has counted `files`. -/
structure Accounts (found : List Violation) (files : Nat) (s : Summary) : Prop where
  /-- The findings at a place. -/
  places : ∀ v, s.violations.filter (SamePlace v ·) = found.filter (SamePlace v ·)
  /-- The number of files, as a word. -/
  counted : s.filesChecked = files % UInt64.size

variable {found : List Violation} {files : Nat} {s : Summary}

/-- A result that is sorted is the sorted list of the findings that it holds. -/
theorem Accounts.violations_sort (h : Accounts found files s) :
    s.sort.violations = found.mergeSort fun v w => (compare v w).isLE := by
  have hsort := sort_congr (s := s) (t := ⟨found, s.filesChecked⟩) rfl h.places
  rw [hsort, sort]

/-- A result has the findings that it holds in some order. -/
theorem Accounts.perm (h : Accounts found files s) : s.violations.Perm found := by
  have hsorted : s.violations.Perm s.sort.violations := (List.mergeSort_perm _ _).symm
  rw [h.violations_sort] at hsorted
  exact hsorted.trans (List.mergeSort_perm _ _)

/-- A step adds its findings behind those that a result holds. -/
theorem Accounts.apply (h : Accounts found files s) (step : Step) :
    Accounts (found ++ step.added) (files + step.files) (step.apply s) := by
  obtain ⟨hplaces, hcounted⟩ := h
  cases step with
  | push v =>
    refine ⟨?_, hcounted⟩
    intro w
    simp only [Step.apply, Step.added, push, List.filter_append, hplaces]
  | extend other =>
    refine ⟨?_, ?_⟩
    · intro w
      simp only [Step.apply, Step.added, extend, List.filter_append, hplaces]
    · simp only [Step.apply, Step.files, extend, hcounted, Nat.mod_add_mod]
  | sort =>
    refine ⟨?_, hcounted⟩
    intro w
    simp only [Step.apply, Step.added, filter_sort, List.append_nil, hplaces]

/-- Steps add their findings one behind the other. -/
theorem Accounts.foldl_apply (h : Accounts found files s) (steps : List Step) :
    Accounts (found ++ steps.flatMap Step.added) (files + (steps.map Step.files).sum)
      (steps.foldl Step.apply s) := by
  induction steps generalizing found files s with
  | nil => simpa using h
  | cons step steps ih =>
    have hstep := ih (h.apply step)
    rw [List.append_assoc, Nat.add_assoc] at hstep
    exact hstep

/-- What a result of several steps holds. -/
theorem accounts_ofSteps (steps : List Step) :
    Accounts (steps.flatMap Step.added) (steps.map Step.files).sum (ofSteps steps) := by
  have hempty : Accounts [] 0 {} := ⟨fun _ => rfl, rfl⟩
  have hall := hempty.foldl_apply steps
  rwa [List.nil_append, Nat.zero_add] at hall

/-! ### Counting -/

/-- Every finding is an error or a warning. -/
theorem errors_add_warnings (s : Summary) : s.errors + s.warnings = s.violations.length := by
  rw [errors, warnings, count, count]
  induction s.violations with
  | nil => rfl
  | cons v vs ih =>
    rw [List.countP_cons, List.countP_cons, List.length_cons, ← ih]
    cases v.severity with
    | warning => simp; omega
    | error => simp; omega

theorem hasErrors_iff (s : Summary) : s.hasErrors = true ↔ 0 < s.errors := by
  rw [hasErrors, errors, count, List.countP_pos_iff, List.any_eq_true]

/-- **Nothing is lost, and earlier sorting does not show.**  However a result was built up, it has the
findings that were added, in some order, and the sum of the files that were counted; its errors and
warnings are all of its findings, and it has errors if their number is not zero.  If it was sorted
in the end, its findings are all those that were added, sorted once: in order, and those at one
place in the order in which they were added. -/
theorem ofSteps_holds (steps : List Step) (h : (steps.map Step.files).sum < UInt64.size) :
    (ofSteps steps).violations.Perm (steps.flatMap Step.added) ∧
      (ofSteps steps).filesChecked = (steps.map Step.files).sum ∧
      (ofSteps steps).errors + (ofSteps steps).warnings = (ofSteps steps).violations.length ∧
      ((ofSteps steps).hasErrors = true ↔ 0 < (ofSteps steps).errors) ∧
      (steps.getLast? = some .sort →
        (ofSteps steps).violations =
          (steps.flatMap Step.added).mergeSort (fun v w => (compare v w).isLE) ∧
        (ofSteps steps).violations.Pairwise InOrder ∧
        ∀ v, (ofSteps steps).violations.filter (SamePlace v ·) =
          (steps.flatMap Step.added).filter (SamePlace v ·)) := by
  have haccounts := accounts_ofSteps steps
  refine ⟨haccounts.perm, ?_, errors_add_warnings _, hasErrors_iff _, ?_⟩
  · rw [haccounts.counted, Nat.mod_eq_of_lt h]
  · intro hlast
    obtain ⟨earlier, rfl⟩ := List.getLast?_eq_some_iff.mp hlast
    have hsorted : ofSteps (earlier ++ [.sort]) = (ofSteps earlier).sort := by
      rw [ofSteps, List.foldl_append]
      rfl
    refine ⟨?_, ?_, haccounts.places⟩
    · rw [hsorted, (accounts_ofSteps earlier).violations_sort, List.flatMap_append]
      simp [Step.added]
    · rw [hsorted]
      exact pairwise_sort _

/-- A finding of the rule with a code, on a line of one file. -/
def findingOn (line : Nat) (severity : Severity) (code : String) : Violation :=
  ⟨code, "double-quotes", severity, ⟨"a.ts", line, 1, 0, 0⟩, "", none⟩

/-- A result that is sorted before findings at its places are added. -/
def sortedBetween : List Step :=
  [.push (findingOn 2 .warning "A"), .push (findingOn 1 .error "B"), .sort,
    .extend ⟨[findingOn 1 .warning "C", findingOn 2 .error "D"], 2⟩,
    .push (findingOn 1 .warning "E"), .sort]

theorem ofSteps_holds_sortedBetween :
    (sortedBetween.map Step.files).sum < UInt64.size ∧ sortedBetween.getLast? = some .sort ∧
      (ofSteps sortedBetween).filesChecked = 2 ∧
      (ofSteps sortedBetween).errors + (ofSteps sortedBetween).warnings = 5 ∧
      (ofSteps sortedBetween).hasErrors = true ∧
      ((ofSteps sortedBetween).violations.filter
          (SamePlace (findingOn 1 .error "B") ·)).map (·.code) = ["B", "C", "E"] := by
  have hfiles : (sortedBetween.map Step.files).sum < UInt64.size := by decide
  have hlast : sortedBetween.getLast? = some .sort := by decide
  obtain ⟨hperm, hcounted, hall, herrors, hsorted⟩ := ofSteps_holds sortedBetween hfiles
  obtain ⟨-, -, hplaces⟩ := hsorted hlast
  refine ⟨hfiles, hlast, by rw [hcounted]; rfl, ?_, ?_, ?_⟩
  · rw [hall, hperm.length_eq]
    rfl
  · rw [herrors, errors, count, hperm.countP_eq]
    decide
  · rw [hplaces]
    decide +kernel

end TreeMend.Summary
