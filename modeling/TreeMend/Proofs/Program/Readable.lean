import TreeMend.Program.Basic
import TreeMend.Proofs.Literal.RoundTrip

/-!
# Reading printed expressions back

No parentheses are printed around an assignment, so one that is called, accessed or assigned to
would be taken for another expression.  An expression without such assignments whose names are
words can be read back from its text.

The text of a call or of an access starts with that of what is called or accessed.  Reading from
the left therefore carries along the operand that has been read so far, and each step either takes
up what follows it or stops.

## Main definitions

* `Program.Readable`, with `Expression.Readable` and its companions — names are words, and no
  assignment needs parentheses.
* `Expression.Ends` — a text at which an expression ends.
* `Expression.Reads` — reading an expression from the left.

## Main results

* `Expression.Reads.unique` — a text is read in one way only.
* `Expression.reads_render` — the text of an expression is read as that expression.
* `Expression.render_append_inj` — an expression can be told from what is printed behind it.
-/

namespace TreeMend

/-! ### Programs that can be read back -/

/-- A non-empty text of characters that a name is made of. -/
def Text.IsWord (w : String) : Prop := w.toList ≠ [] ∧ w.toList.all Text.isWordChar = true

instance (w : String) : Decidable (Text.IsWord w) :=
  inferInstanceAs (Decidable (w.toList ≠ [] ∧ w.toList.all Text.isWordChar = true))

namespace Expression

/-- Whether the expression is an assignment. -/
def isAssignment : Expression → Bool
  | .assign _ _ => true
  | _ => false

/-- The names are words, and no assignment is called, accessed or assigned to. -/
def Readable : Expression → Prop
  | .name id => Text.IsWord id
  | .literal _ => True
  | .assign target value => target.isAssignment = false ∧ target.Readable ∧ value.Readable
  | .call callee => callee.isAssignment = false ∧ callee.Readable
  | .callWith callee argument => callee.isAssignment = false ∧ callee.Readable ∧ argument.Readable
  | .member object id => object.isAssignment = false ∧ object.Readable ∧ Text.IsWord id

/-- Whether an expression is readable can be decided, part by part. -/
def decidableReadable : (e : Expression) → Decidable e.Readable
  | .name id => inferInstanceAs (Decidable (Text.IsWord id))
  | .literal _ => inferInstanceAs (Decidable True)
  | .assign target value =>
    have := decidableReadable target
    have := decidableReadable value
    inferInstanceAs (Decidable (target.isAssignment = false ∧ target.Readable ∧ value.Readable))
  | .call callee =>
    have := decidableReadable callee
    inferInstanceAs (Decidable (callee.isAssignment = false ∧ callee.Readable))
  | .callWith callee argument =>
    have := decidableReadable callee
    have := decidableReadable argument
    inferInstanceAs
      (Decidable (callee.isAssignment = false ∧ callee.Readable ∧ argument.Readable))
  | .member object id =>
    have := decidableReadable object
    inferInstanceAs (Decidable (object.isAssignment = false ∧ object.Readable ∧ Text.IsWord id))

instance : DecidablePred Readable := decidableReadable

end Expression

/-- The name is a word, and the initializer is readable. -/
def Declaration.Readable (d : Declaration) : Prop :=
  Text.IsWord d.name ∧ ∀ e ∈ d.initializer, e.Readable

instance (d : Declaration) : Decidable d.Readable :=
  inferInstanceAs (Decidable (Text.IsWord d.name ∧ ∀ e ∈ d.initializer, e.Readable))

/-- All parts of the statement are readable. -/
def Statement.Readable : Statement → Prop
  | .declare _ declarations => ∀ d ∈ declarations, d.Readable
  | .expression e => e.Readable

instance : (s : Statement) → Decidable s.Readable
  | .declare _ declarations => inferInstanceAs (Decidable (∀ d ∈ declarations, d.Readable))
  | .expression e => inferInstanceAs (Decidable e.Readable)

/-- All statements of the program are readable. -/
def Program.Readable (p : Program) : Prop := ∀ s ∈ p.statements, s.Readable

instance (p : Program) : Decidable p.Readable :=
  inferInstanceAs (Decidable (∀ s ∈ p.statements, s.Readable))

/-! ### Reading an expression from the left -/

namespace Expression

open Text (IsWord isWordChar)

/-- An expression ends at a text that starts so. -/
def Ends (cs : List Char) : Prop := ∃ c rest, cs = c :: rest ∧ c ∈ [')', ',', ';']

theorem Ends.mem {c : Char} {cs : List Char} (h : Ends (c :: cs)) : c ∈ [')', ',', ';'] := by
  obtain ⟨d, rest, heq, hd⟩ := h
  rw [(List.cons.inj heq).1]
  exact hd

/-- Punctuation ends a word. -/
theorem any_isWordChar_punctuation {c : Char} (h : c ∈ ['(', ')', '.', ',', ':', ';', ' '])
    (cs : List Char) : (c :: cs).head?.any isWordChar = false := by
  simp only [List.mem_cons, List.not_mem_nil, or_false] at h
  rcases h with rfl | rfl | rfl | rfl | rfl | rfl | rfl <;> rfl

theorem Ends.any_isWordChar {cs : List Char} (h : Ends cs) :
    cs.head?.any isWordChar = false := by
  have hmem : ∀ c ∈ [')', ',', ';'], c ∈ ['(', ')', '.', ',', ':', ';', ' '] := by simp
  obtain ⟨c, rest, rfl, hc⟩ := h
  exact any_isWordChar_punctuation (hmem c hc) rest

/-- The text is read up to the end of an expression `e`, and a rest is left.  What comes first is
an operand that has been read already, or one that is still to be read. -/
inductive Reads : Option Expression → List Char → Expression → List Char → Prop
  /-- A name is read. -/
  | name {id : String} {text cs rest : List Char} {e : Expression} (hid : IsWord id)
      (hcs : cs.head?.any isWordChar = false) (htext : text = id.toList ++ cs)
      (h : Reads (some (.name id)) cs e rest) : Reads none text e rest
  /-- A literal is read. -/
  | literal {l : Literal} {text cs rest : List Char} {e : Expression}
      (htext : text = l.render.toList ++ cs) (h : Reads (some (.literal l)) cs e rest) :
      Reads none text e rest
  /-- The operand is all. -/
  | stop {e : Expression} {cs : List Char} (hcs : Ends cs) : Reads (some e) cs e cs
  /-- The operand is called without an argument. -/
  | call {operand e : Expression} {cs rest : List Char}
      (h : Reads (some (.call operand)) cs e rest) :
      Reads (some operand) ('(' :: ')' :: cs) e rest
  /-- The operand is called with an argument. -/
  | callWith {operand argument e : Expression} {text cs rest : List Char}
      (hargument : Reads none text argument (')' :: cs))
      (h : Reads (some (.callWith operand argument)) cs e rest) :
      Reads (some operand) ('(' :: text) e rest
  /-- A member of the operand is taken. -/
  | member {operand e : Expression} {id : String} {text cs rest : List Char} (hid : IsWord id)
      (hcs : cs.head?.any isWordChar = false) (htext : text = id.toList ++ cs)
      (h : Reads (some (.member operand id)) cs e rest) : Reads (some operand) ('.' :: text) e rest
  /-- The operand is assigned to. -/
  | assign {target value : Expression} {cs rest : List Char} (h : Reads none cs value rest) :
      Reads (some target) (' ' :: '=' :: ' ' :: cs) (.assign target value) rest

theorem exists_cons_of_isWord {id : String} (h : IsWord id) :
    ∃ c cs, id.toList = c :: cs ∧ isWordChar c = true := by
  obtain ⟨hne, hall⟩ := h
  cases hid : id.toList with
  | nil => exact absurd hid hne
  | cons c cs =>
    rw [hid] at hall
    exact ⟨c, cs, rfl, List.all_eq_true.mp hall c List.mem_cons_self⟩

theorem isWordChar_quote (q : Quote) : isWordChar q.char = false := by
  cases q <;> decide

/-- What is read first is a name or a literal. -/
theorem Reads.head?_eq {text rest : List Char} {e : Expression} (h : Reads none text e rest) :
    ∃ c, text.head? = some c ∧ (isWordChar c = true ∨ ∃ q : Quote, c = q.char) := by
  cases h with
  | name hid hcs htext h =>
    obtain ⟨c, cs, hid, hc⟩ := exists_cons_of_isWord hid
    exact ⟨c, by rw [htext, hid]; rfl, Or.inl hc⟩
  | @literal l text cs rest e htext h =>
    exact ⟨l.quote.char, by rw [htext, Literal.toList_render]; rfl, Or.inr ⟨l.quote, rfl⟩⟩

/-- A word is no literal. -/
theorem word_append_ne_render_append {id : String} (hid : IsWord id) (l : Literal)
    (cs cs' : List Char) : id.toList ++ cs ≠ l.render.toList ++ cs' := by
  intro h
  obtain ⟨c, word, hword, hc⟩ := exists_cons_of_isWord hid
  rw [hword, Literal.toList_render] at h
  have hquote : c = l.quote.char := (List.cons.inj h).1
  rw [hquote, isWordChar_quote] at hc
  cases hc

/-- A text is read in one way only. -/
theorem Reads.unique {operand : Option Expression} {text rest rest' : List Char}
    {e e' : Expression} (h : Reads operand text e rest) (h' : Reads operand text e' rest') :
    e = e' ∧ rest = rest' := by
  have hclosing : ∀ {cs rest : List Char} {e : Expression}, ¬ Reads none (')' :: cs) e rest := by
    intro cs rest e h
    obtain ⟨c, hc, hword | ⟨q, rfl⟩⟩ := h.head?_eq
    · rw [← Option.some.inj hc] at hword
      exact absurd hword (by decide)
    · have hquote := Option.some.inj hc
      cases q <;> exact absurd hquote (by decide)
  induction h generalizing e' rest' with
  | @name id text cs rest e hid hcs htext h ih =>
    cases h' with
    | name hid' hcs' htext' h' =>
      obtain ⟨hsame, rfl⟩ := Text.word_append_inj hid.2 hid'.2 hcs hcs' (htext.symm.trans htext')
      rw [← String.toList_inj.mp hsame] at h'
      exact ih h'
    | literal htext' h' =>
      exact absurd (htext.symm.trans htext') (word_append_ne_render_append hid _ _ _)
  | @literal l text cs rest e htext h ih =>
    cases h' with
    | name hid' hcs' htext' h' =>
      exact absurd (htext'.symm.trans htext) (word_append_ne_render_append hid' _ _ _)
    | literal htext' h' =>
      obtain ⟨rfl, rfl⟩ := Literal.render_append_inj (htext.symm.trans htext')
      exact ih h'
  | stop hcs =>
    obtain ⟨c, rest, rfl, hc⟩ := hcs
    cases h' with
    | stop _ => exact ⟨rfl, rfl⟩
    | _ => exact absurd hc (by decide)
  | call h ih =>
    cases h' with
    | stop hcs => exact absurd hcs.mem (by decide)
    | call h' => exact ih h'
    | callWith hargument _ => exact absurd hargument hclosing
  | callWith hargument h ihargument ih =>
    cases h' with
    | stop hcs => exact absurd hcs.mem (by decide)
    | call h' => exact absurd hargument hclosing
    | callWith hargument' h' =>
      obtain ⟨rfl, hrest⟩ := ihargument hargument'
      obtain ⟨-, rfl⟩ := List.cons.inj hrest
      exact ih h'
  | member hid hcs htext h ih =>
    cases h' with
    | stop hcs => exact absurd hcs.mem (by decide)
    | member hid' hcs' htext' h' =>
      obtain ⟨hsame, rfl⟩ := Text.word_append_inj hid.2 hid'.2 hcs hcs' (htext.symm.trans htext')
      rw [← String.toList_inj.mp hsame] at h'
      exact ih h'
  | assign h ih =>
    cases h' with
    | stop hcs => exact absurd hcs.mem (by decide)
    | assign h' =>
      obtain ⟨rfl, rfl⟩ := ih h'
      exact ⟨rfl, rfl⟩

/-- An operand that is followed by something else than a word is read, and reading goes on. -/
def ReadsOn (e : Expression) : Prop :=
  ∀ ⦃cs rest : List Char⦄ ⦃e' : Expression⦄, cs.head?.any isWordChar = false →
    Reads (some e) cs e' rest → Reads none (e.render.toList ++ cs) e' rest

theorem ReadsOn.stop {e : Expression} (h : e.ReadsOn) {cs : List Char} (hcs : Ends cs) :
    Reads none (e.render.toList ++ cs) e cs :=
  h hcs.any_isWordChar (.stop hcs)

/-- What is no assignment is read on, and every expression is read up to its end. -/
theorem readsOn_and_reads_render {e : Expression} (he : e.Readable) :
    (e.isAssignment = false → e.ReadsOn) ∧
      ∀ ⦃cs : List Char⦄, Ends cs → Reads none (e.render.toList ++ cs) e cs := by
  induction e with
  | name id =>
    have hon : (name id).ReadsOn := fun cs rest e' hcs h => .name he hcs rfl h
    exact ⟨fun _ => hon, fun cs hcs => hon.stop hcs⟩
  | literal l =>
    have hon : (literal l).ReadsOn := fun cs rest e' _ h => .literal rfl h
    exact ⟨fun _ => hon, fun cs hcs => hon.stop hcs⟩
  | assign target value ihtarget ihvalue =>
    obtain ⟨hplain, htarget, hvalue⟩ := he
    refine ⟨fun h => Bool.noConfusion h, fun cs hcs => ?_⟩
    have hassign : Reads (some target) (' ' :: '=' :: ' ' :: (value.render.toList ++ cs))
        (assign target value) cs := .assign ((ihvalue hvalue).2 hcs)
    have hreads := (ihtarget htarget).1 hplain (any_isWordChar_punctuation (by decide) _) hassign
    simpa [render] using hreads
  | call callee ih =>
    obtain ⟨hplain, hcallee⟩ := he
    have hon : (call callee).ReadsOn := by
      intro cs rest e' _ h
      have hreads := (ih hcallee).1 hplain (any_isWordChar_punctuation (by decide) _) h.call
      simpa [render] using hreads
    exact ⟨fun _ => hon, fun cs hcs => hon.stop hcs⟩
  | callWith callee argument ihcallee ihargument =>
    obtain ⟨hplain, hcallee, hargument⟩ := he
    have hon : (callWith callee argument).ReadsOn := by
      intro cs rest e' _ h
      have hends : Ends (')' :: cs) := ⟨')', cs, rfl, by decide⟩
      have hcall := ((ihargument hargument).2 hends).callWith h
      have hreads := (ihcallee hcallee).1 hplain (any_isWordChar_punctuation (by decide) _) hcall
      simpa [render] using hreads
    exact ⟨fun _ => hon, fun cs hcs => hon.stop hcs⟩
  | member object id ih =>
    obtain ⟨hplain, hobject, hid⟩ := he
    have hon : (member object id).ReadsOn := by
      intro cs rest e' hcs h
      have hmember := h.member hid hcs rfl
      have hreads := (ih hobject).1 hplain (any_isWordChar_punctuation (by decide) _) hmember
      simpa [render] using hreads
    exact ⟨fun _ => hon, fun cs hcs => hon.stop hcs⟩

/-- The text of an expression is read as that expression. -/
theorem reads_render {e : Expression} (he : e.Readable) {cs : List Char} (hcs : Ends cs) :
    Reads none (e.render.toList ++ cs) e cs :=
  (readsOn_and_reads_render he).2 hcs

theorem render_append_inj {e e' : Expression} (he : e.Readable) (he' : e'.Readable)
    {rest rest' : List Char} (hrest : Ends rest) (hrest' : Ends rest')
    (h : e.render.toList ++ rest = e'.render.toList ++ rest') : e = e' ∧ rest = rest' := by
  have hreads := reads_render he hrest
  rw [h] at hreads
  exact hreads.unique (reads_render he' hrest')

end Expression

end TreeMend
