import TreeMend.Files.Store
import TreeMend.Proofs.Program.Building

/-!
# Writing a file

A write under a path puts a file at one location: an entry of a directory that is there, where no
directory is in the way.  No directory becomes a file by it, so every path that led somewhere
before still leads there, and the path of the write leads to the new file.

## Main definitions

* `FileStore.Written` — one store is another with a text written under a path.

## Main results

* `FileStore.writeSpot_eq_ok` — where a file is written, and what is there before.
* `FileStore.follow_set` — components lead where they led before.
* `FileStore.written_of_write` — **a write changes what its path names, and nothing else.**
-/

namespace TreeMend.FileStore

/-- The second store is the first with a text written under a path: the path names a file with this
text, and at every other location is what was there. -/
def Written (s s' : FileStore) (directory : Spot) (p : Path) (text : String) : Prop :=
  ∃ spot, s'.resolve directory p = .ok spot ∧
    ∀ other, s'.get? other = if other = spot then some (.file text.toUTF8) else s.get? other

variable {s s' : FileStore} {directory : Spot} {p : Path}

/-! ### Where a file is written -/

theorem follow_concat (s : FileStore) (spot : Spot) (cs : List Path.Component)
    (c : Path.Component) :
    s.follow spot (cs ++ [c]) = (s.follow spot cs).bind fun parent => s.step parent c := by
  rw [follow, follow, List.foldlM_append]
  change Except.bind _ _ = Except.bind _ _
  congr 1
  funext parent
  simp

/-- The location of an entry of a directory. -/
theorem step_entry {spot : Spot} (h : s.get? spot = some .directory) (name : String) :
    s.step spot (.entry name) =
      if nameLimit < name.utf8ByteSize then .error .nameTooLong
      else if (s.get? (spot ++ [name])).isSome then .ok (spot ++ [name]) else .error .notFound := by
  simp only [step, h]

/-- Names and steps upwards are followed from directories only. -/
theorem directory_of_step {here there : Spot} {c : Path.Component} (h : s.step here c = .ok there)
    (hroot : c ≠ .root) (hcurrent : c ≠ .current) : s.get? here = some .directory := by
  cases hget : s.get? here with
  | none => cases c <;> simp_all [step]
  | some e =>
    cases e with
    | file bytes => cases c <;> simp_all [step]
    | directory => rfl

theorem childSpot_eq_ok {parents : List Path.Component} {name : String} {spot : Spot}
    (h : s.childSpot directory parents name = .ok spot) :
    ∃ parent, s.follow directory parents = .ok parent ∧ s.get? parent = some .directory ∧
      spot = parent ++ [name] := by
  obtain ⟨parent, hparent, hchild⟩ := Except.bind_eq_ok_iff.mp h
  refine ⟨parent, hparent, ?_⟩
  cases hget : s.get? parent with
  | none => simp [hget] at hchild
  | some e =>
    cases e with
    | file bytes => simp [hget] at hchild
    | directory =>
      simp only [hget] at hchild
      exact ⟨rfl, (Except.ok.inj hchild).symm⟩

/-- A path that ends with a name is resolved in the directory that its other components lead to. -/
theorem resolve_entry {parents : List Path.Component} {name : String} {parent : Spot}
    (hcs : Path.components p = parents ++ [.entry name]) (hlength : p.utf8ByteSize ≤ pathLimit)
    (hparent : s.follow directory parents = .ok parent)
    (hdirectory : s.get? parent = some .directory) :
    s.resolve directory p =
      if nameLimit < name.utf8ByteSize then .error .nameTooLong
      else match s.get? (parent ++ [name]) with
        | none => .error .notFound
        | some .directory => .ok (parent ++ [name])
        | some (.file _) =>
          if asksForDirectory p then .error .notDirectory else .ok (parent ++ [name]) := by
  rw [resolve, if_neg (Nat.not_lt.mpr hlength), hcs, follow_concat, hparent]
  change Except.bind (s.step parent (.entry name)) _ = _
  rw [step_entry hdirectory]
  split
  · rfl
  · cases hget : s.get? (parent ++ [name]) with
    | none => rfl
    | some e =>
      rw [Option.isSome_some, if_pos rfl]
      simp only [Except.bind, hget]
      cases e <;> rfl

/-- Only a path that ends with a name can be written to. -/
theorem exists_entry_of_writeSpot {spot : Spot} (h : s.writeSpot directory p = .ok spot) :
    ∃ parents name, Path.components p = parents ++ [.entry name] := by
  unfold writeSpot at h
  cases hlast : (Path.components p).getLast? with
  | none => cases hresolve : s.resolve directory p <;> simp [hlast, hresolve] at h
  | some c =>
    cases c with
    | entry name => exact ⟨_, name, (List.getLast?_eq_some_iff.mp hlast).choose_spec⟩
    | root | current | parent =>
      cases hresolve : s.resolve directory p <;> simp [hlast, hresolve] at h

theorem writeSpot_entry {parents : List Path.Component} {name : String}
    (hcs : Path.components p = parents ++ [.entry name]) :
    s.writeSpot directory p =
      if pathLimit < p.utf8ByteSize then .error .nameTooLong
      else (s.childSpot directory parents name).bind fun spot =>
        if endsWithSeparator p then .error .isDirectory
        else match s.resolve directory p with
          | .error .notFound => if asksForDirectory p then .error .notFound else .ok spot
          | .error e => .error e
          | .ok spot =>
            match s.get? spot with
            | some (.file _) => .ok spot
            | _ => .error .isDirectory := by
  simp only [writeSpot, hcs, List.getLast?_concat, List.dropLast_concat]
  split <;> rfl

/-- A file is written to an entry of a directory that is there, where nothing or a file is. -/
theorem writeSpot_eq_ok {spot : Spot} (h : s.writeSpot directory p = .ok spot) :
    ∃ parents parent name, Path.components p = parents ++ [.entry name] ∧
      p.utf8ByteSize ≤ pathLimit ∧ name.utf8ByteSize ≤ nameLimit ∧ asksForDirectory p = false ∧
      s.follow directory parents = .ok parent ∧ s.get? parent = some .directory ∧
      spot = parent ++ [name] ∧ s.get? spot ≠ some .directory := by
  obtain ⟨parents, name, hcs⟩ := exists_entry_of_writeSpot h
  rw [writeSpot_entry hcs] at h
  by_cases hlength : pathLimit < p.utf8ByteSize
  · simp [hlength] at h
  rw [if_neg hlength] at h
  obtain ⟨child, hchild, h⟩ := Except.bind_eq_ok_iff.mp h
  obtain ⟨parent, hparent, hdirectory, rfl⟩ := childSpot_eq_ok hchild
  by_cases hends : endsWithSeparator p = true
  · simp [hends] at h
  rw [if_neg hends, resolve_entry hcs (Nat.not_lt.mp hlength) hparent hdirectory] at h
  by_cases hname : nameLimit < name.utf8ByteSize
  · simp [hname] at h
  rw [if_neg hname] at h
  -- the way is free where nothing or a file is, and the spelling does not ask for a directory
  have hfree : asksForDirectory p = false ∧ parent ++ [name] = spot ∧
      s.get? (parent ++ [name]) ≠ some .directory := by
    cases hasks : asksForDirectory p with
    | true => cases hget : s.get? (parent ++ [name]) with
      | none => simp [hget, hasks] at h
      | some e => cases e <;> simp [hget, hasks] at h
    | false => cases hget : s.get? (parent ++ [name]) with
      | none => simpa [hget, hasks] using h
      | some e =>
        cases e with
        | directory => simp [hget] at h
        | file bytes => simpa [hget, hasks] using h
  obtain ⟨hasks, rfl, hfile⟩ := hfree
  exact ⟨parents, parent, name, hcs, Nat.not_lt.mp hlength, Nat.not_lt.mp hname, hasks, hparent,
    hdirectory, rfl, hfile⟩

/-! ### What a write leaves -/

variable {spot : Spot} {bytes : ByteArray}

/-- A directory stays one when a file is put where no directory is. -/
theorem get?_set_directory (hspot : spot ≠ []) (hfile : s.get? spot ≠ some .directory)
    {here : Spot} (h : s.get? here = some .directory) :
    (s.set spot (.file bytes)).get? here = some .directory := by
  have hne : here ≠ spot := by
    rintro rfl
    exact hfile h
  rw [get?_set s hspot, if_neg hne, h]

/-- A component leads where it led before. -/
theorem step_set (hspot : spot ≠ []) (hfile : s.get? spot ≠ some .directory) {here there : Spot}
    {c : Path.Component} (h : s.step here c = .ok there) :
    (s.set spot (.file bytes)).step here c = .ok there := by
  have hstay : s.get? here = some .directory →
      (s.set spot (.file bytes)).get? here = some .directory := get?_set_directory hspot hfile
  cases c with
  | root => exact h
  | current => exact h
  | parent =>
    have hhere := directory_of_step h (by simp) (by simp)
    simpa [step, hhere, hstay hhere] using h
  | entry name =>
    have hhere := directory_of_step h (by simp) (by simp)
    rw [step_entry hhere] at h
    rw [step_entry (hstay hhere), get?_set s hspot]
    by_cases hname : nameLimit < name.utf8ByteSize
    · simp [hname] at h
    rw [if_neg hname] at h ⊢
    by_cases hthere : (s.get? (here ++ [name])).isSome = true
    · rw [if_pos hthere] at h
      obtain rfl := Except.ok.inj h
      by_cases hsame : here ++ [name] = spot <;> simp [hsame, hthere]
    · simp [hthere] at h

/-- Components lead where they led before. -/
theorem follow_set (hspot : spot ≠ []) (hfile : s.get? spot ≠ some .directory)
    {cs : List Path.Component} {here there : Spot} (h : s.follow here cs = .ok there) :
    (s.set spot (.file bytes)).follow here cs = .ok there := by
  induction cs generalizing here with
  | nil => exact h
  | cons c cs ih =>
    rw [follow, List.foldlM_cons] at h ⊢
    obtain ⟨next, hnext, h⟩ := Except.bind_eq_ok_iff.mp h
    exact Except.bind_eq_ok_iff.mpr ⟨next, step_set hspot hfile hnext, ih h⟩

/-- **A write changes what its path names, and nothing else.** -/
theorem written_of_write {text : String} (h : s.write directory p text = .ok s') :
    s.Written s' directory p text := by
  obtain ⟨spot, hspot, hset⟩ := Except.bind_eq_ok_iff.mp h
  obtain rfl := Except.ok.inj hset
  obtain ⟨parents, parent, name, hcs, hlength, hname, hasks, hparent, hdirectory, rfl, hfile⟩ :=
    writeSpot_eq_ok hspot
  have hne : parent ++ [name] ≠ [] := List.append_ne_nil_of_right_ne_nil parent (by simp)
  have hget := s.get?_set hne
  refine ⟨parent ++ [name], ?_, fun other => hget other _⟩
  have hparent' : (s.set (parent ++ [name]) (.file text.toUTF8)).follow directory parents =
      .ok parent := follow_set hne hfile hparent
  have hdirectory' :
      (s.set (parent ++ [name]) (.file text.toUTF8)).get? parent = some .directory := by
    rw [hget, if_neg (by simp), hdirectory]
  rw [resolve_entry hcs hlength hparent' hdirectory', if_neg (Nat.not_lt.mpr hname), hget,
    if_pos rfl, hasks]
  rfl

end TreeMend.FileStore
