import TreeMend.Command.Action
import TreeMend.Proofs.Files.Writing

/-!
# How a part of a command ends

A part of a command gets to its end or is interrupted, and the files are some way in either case.
What holds then is put together along the steps: each step has its own account, and a sequence
passes on what its first part leaves.

Looking and printing leave the world alone.  They differ in how they are interrupted: looking fails
for a reason, and printing breaks off where standard output takes no more.  A part that only prints
therefore cannot fail, and it is the only sort of part that may stand behind a write.

## Main definitions

* `Action.Ends` — what holds at the end of an action and what holds when it is interrupted.
* `Action.OnlyPrints` — an action that leaves the world alone and never fails, although it may break
  off.

## Main results

* `Action.ends_bind` — a sequence ends as its second part does after the first.
* `Action.ends_look`, `Action.ends_write`, `Action.onlyPrints_print` — the account of each step.
* `Action.onlyPrints_printLines` — printing lines only prints.
-/

namespace TreeMend.Action

variable {α β : Type} {x : Action α} {f : α → Action β} {s : Situation}

/-- Begun in a situation, the action gets to its end with a value and in a situation that satisfy
`done`, or is interrupted for a reason and in a situation that satisfy `broken`. -/
def Ends (x : Action α) (s : Situation) (done : α → Situation → Prop)
    (broken : Interruption → Situation → Prop) : Prop :=
  match x.run s with
  | .ok a s' => done a s'
  | .error e s' => broken e s'

variable {done done' : α → Situation → Prop} {broken broken' : Interruption → Situation → Prop}

theorem Ends.of_ok {a : α} {s' : Situation} (hrun : x.run s = .ok a s') (h : done a s') :
    x.Ends s done broken := by
  rwa [Ends, hrun]

theorem Ends.of_error {e : Interruption} {s' : Situation} (hrun : x.run s = .error e s')
    (h : broken e s') : x.Ends s done broken := by
  rwa [Ends, hrun]

theorem Ends.imp (h : x.Ends s done broken) (hdone : ∀ a s', done a s' → done' a s')
    (hbroken : ∀ e s', broken e s' → broken' e s') : x.Ends s done' broken' := by
  unfold Ends at h ⊢
  cases hrun : x.run s with
  | ok a s' =>
    rw [hrun] at h
    exact hdone a s' h
  | error e s' =>
    rw [hrun] at h
    exact hbroken e s' h

/-- A sequence ends as its second part does after the first, or as the first if that is
interrupted. -/
theorem ends_bind {done : β → Situation → Prop} :
    (x >>= f).Ends s done broken ↔
      x.Ends s (fun a s' => (f a).Ends s' done broken) broken := by
  unfold Ends
  rw [EStateM.run_bind]
  cases x.run s <;> rfl

/-! ### The steps -/

/-- Looking leaves the world as it is, and fails if its task does. -/
theorem ends_look (task : World → Task α) (s : Situation) :
    (look task).Ends s
      (fun a s' => s'.world = s.world ∧ (task s.world).outcome = .ok a)
      (fun e s' => s'.world = s.world ∧ ∃ failure, e = .failed failure) := by
  let log := s.log ++ (task s.world).trace
  cases houtcome : (task s.world).outcome with
  | ok a =>
    have hrun : (look task).run s = .ok a { s with log } := by
      simp only [EStateM.run, look, houtcome, log]
    exact .of_ok hrun ⟨rfl, rfl⟩
  | error failure =>
    have hrun : (look task).run s = .error (.failed failure) { s with log } := by
      simp only [EStateM.run, look, houtcome, log]
    exact .of_error hrun ⟨rfl, failure, rfl⟩

/-- A write has written its text, or it fails and leaves the world as it is. -/
theorem ends_write (p : Path) (text : String) (failure : FileError → Failure) (s : Situation) :
    (write p text failure).Ends s
      (fun _ s' => s.world.files.Written s'.world.files s.world.directory p text ∧
        s'.world.takes = s.world.takes)
      (fun e s' => s'.world = s.world ∧ ∃ reason, e = .failed (failure reason)) := by
  cases hwrite : s.world.files.write s.world.directory p text with
  | ok files =>
    have hrun : (write p text failure).run s =
        .ok () { s with world := { s.world with files } } := by
      simp only [EStateM.run, write, hwrite]
    exact .of_ok hrun ⟨FileStore.written_of_write hwrite, rfl⟩
  | error reason =>
    have hrun : (write p text failure).run s = .error (.failed (failure reason)) s := by
      simp only [EStateM.run, write, hwrite]
    exact .of_error hrun ⟨rfl, reason, rfl⟩

/-- The action leaves the world as it is.  It does not fail; it breaks off where standard output
refuses some text. -/
def OnlyPrints (x : Action α) : Prop :=
  ∀ s : Situation, x.Ends s (fun _ s' => s'.world = s.world)
    (fun e s' => s'.world = s.world ∧ e = .unprinted ∧ ∃ text, s.world.takes text = false)

theorem onlyPrints_pure (a : α) : (pure a : Action α).OnlyPrints := fun _ => rfl

theorem onlyPrints_print (text : String) : (print text).OnlyPrints := by
  intro s
  by_cases htakes : s.world.takes (s.output ++ text) = true
  · have hrun : (print text).run s = .ok () { s with output := s.output ++ text } :=
      if_pos htakes
    exact .of_ok hrun rfl
  · have hrun : (print text).run s = .error .unprinted s := if_neg htakes
    exact .of_error hrun ⟨rfl, rfl, s.output ++ text, by simpa using htakes⟩

theorem OnlyPrints.bind (hx : x.OnlyPrints) (hf : ∀ a, (f a).OnlyPrints) :
    (x >>= f).OnlyPrints := by
  intro s
  refine ends_bind.mpr ((hx s).imp ?_ fun _ _ h => h)
  intro a s' hworld
  rw [← hworld]
  exact hf a s'

/-- Printing lines only prints, however many of them are taken. -/
theorem onlyPrints_printLines (lines : List String) : (printLines lines).OnlyPrints := by
  induction lines with
  | nil => exact onlyPrints_pure ()
  | cons line lines ih => exact (onlyPrints_print _).bind fun _ => ih

end TreeMend.Action
