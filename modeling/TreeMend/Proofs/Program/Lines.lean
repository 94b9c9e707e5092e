import TreeMend.Proofs.Literal.Closed
import TreeMend.Proofs.Program.Unambiguous

/-!
# One line for each statement

A statement is printed on one line as long as its names are: punctuation and keywords hold no line
break, and a literal stays on its line whatever its value is.  So the line feeds of a printed file
are the ends of its statements, and the two ways to end a line are told apart by nothing else.

## Main definitions

* `Expression.names`, `Program.names` — the names in a construct.
* `Text.OneLine` — a text without line feeds and carriage returns.
* `Text.withReturns` — a text with a carriage return put in front of each line feed.

## Main results

* `Expression.oneLine_render`, `Statement.exists_oneLine` — expressions and statements are on one
  line.
* `Program.ends_of_linesText` — each line feed ends a statement.
* `Program.lines_render` — **literals are closed, and each statement has one line**.
-/

namespace TreeMend

/-! ### Texts on one line -/

namespace Text

/-- A text without line feeds and carriage returns. -/
def OneLine (cs : List Char) : Prop := '\n' ∉ cs ∧ '\r' ∉ cs

instance (cs : List Char) : Decidable (OneLine cs) := inferInstanceAs (Decidable (_ ∧ _))

@[simp] theorem oneLine_nil : OneLine [] := by
  simp [OneLine]

@[simp] theorem oneLine_append {cs ds : List Char} :
    OneLine (cs ++ ds) ↔ OneLine cs ∧ OneLine ds := by
  simp only [OneLine, List.mem_append, not_or]
  tauto

theorem oneLine_cons {c : Char} {cs : List Char} :
    OneLine (c :: cs) ↔ OneLine [c] ∧ OneLine cs :=
  @oneLine_append [c] cs

/-- Characters that stay on the line make a text on one line. -/
theorem oneLine_of_staysOnLine {cs : List Char} (h : ∀ c ∈ cs, StaysOnLine c) : OneLine cs := by
  constructor
  · intro hfeed
    exact absurd (h _ hfeed) (by decide)
  · intro hreturn
    exact absurd (h _ hreturn) (by decide)

/-- The text with a carriage return in front of each line feed. -/
def withReturns (cs : List Char) : List Char :=
  cs.flatMap fun c => if c = '\n' then ['\r', '\n'] else [c]

@[simp] theorem withReturns_append (cs ds : List Char) :
    withReturns (cs ++ ds) = withReturns cs ++ withReturns ds :=
  List.flatMap_append

theorem withReturns_of_oneLine {cs : List Char} (h : OneLine cs) : withReturns cs = cs := by
  induction cs with
  | nil => rfl
  | cons c cs ih =>
    obtain ⟨hc, hcs⟩ := oneLine_cons.mp h
    have hfeed : c ≠ '\n' := by
      rintro rfl
      exact absurd hc (by decide)
    have hfirst : withReturns [c] = [c] := by
      rw [withReturns, List.flatMap_singleton, if_neg hfeed]
    calc withReturns ([c] ++ cs) = withReturns [c] ++ withReturns cs := withReturns_append [c] cs
      _ = [c] ++ cs := by rw [hfirst, ih hcs]

/-- A line feed in a text is the first one of it or stands behind that. -/
theorem feed_cases {front rest before after : List Char} (hfront : '\n' ∉ front)
    (h : front ++ '\n' :: rest = before ++ '\n' :: after) :
    front = before ∨ ∃ between, before = front ++ '\n' :: between ∧
      rest = between ++ '\n' :: after := by
  rcases List.append_eq_append_iff.mp h with ⟨mid, hbefore, hrest⟩ | ⟨mid, hfirst, hafter⟩
  · cases mid with
    | nil =>
      rw [List.append_nil] at hbefore
      exact Or.inl hbefore.symm
    | cons c mid =>
      obtain ⟨rfl, hlater⟩ := List.cons.inj hrest
      exact Or.inr ⟨mid, hbefore, hlater⟩
  · cases mid with
    | nil =>
      rw [List.append_nil] at hfirst
      exact Or.inl hfirst
    | cons c mid =>
      obtain ⟨rfl, -⟩ := List.cons.inj hafter
      rw [hfirst] at hfront
      simp at hfront

end Text

open Text (OneLine)

/-! ### Names -/

/-- The names in an expression. -/
def Expression.names : Expression → List String
  | .name id => [id]
  | .literal _ => []
  | .assign target value => target.names ++ value.names
  | .call callee => callee.names
  | .callWith callee argument => callee.names ++ argument.names
  | .member object id => object.names ++ [id]

/-- The names in a binding. -/
def Declaration.names (d : Declaration) : List String :=
  d.name :: d.initializer.toList.flatMap Expression.names

/-- The names in a statement. -/
def Statement.names : Statement → List String
  | .declare _ declarations => declarations.flatMap Declaration.names
  | .expression e => e.names

/-- The names in a file. -/
def Program.names (p : Program) : List String := p.statements.flatMap Statement.names

/-! ### Constructs on one line -/

theorem Expression.oneLine_render {e : Expression} (h : ∀ id ∈ e.names, OneLine id.toList) :
    OneLine e.render.toList := by
  have hpunctuation : ∀ s ∈ [" = ", "()", "(", ")", "."], OneLine s.toList := by decide
  simp only [List.forall_mem_cons] at hpunctuation
  obtain ⟨hassign, hcall, hopen, hclose, hdot, -⟩ := hpunctuation
  induction e with
  | name id => exact h id List.mem_cons_self
  | literal l => exact Text.oneLine_of_staysOnLine l.staysOnLine_render
  | assign target value ihtarget ihvalue =>
    obtain ⟨htarget, hvalue⟩ := List.forall_mem_append.mp h
    simp only [render, String.toList_append, Text.oneLine_append]
    exact ⟨⟨ihtarget htarget, hassign⟩, ihvalue hvalue⟩
  | call callee ih =>
    simp only [render, String.toList_append, Text.oneLine_append]
    exact ⟨ih h, hcall⟩
  | callWith callee argument ihcallee ihargument =>
    obtain ⟨hcallee, hargument⟩ := List.forall_mem_append.mp h
    simp only [render, String.toList_append, Text.oneLine_append]
    exact ⟨⟨⟨ihcallee hcallee, hopen⟩, ihargument hargument⟩, hclose⟩
  | member object id ih =>
    obtain ⟨hobject, hid⟩ := List.forall_mem_append.mp h
    simp only [render, String.toList_append, Text.oneLine_append]
    exact ⟨⟨ih hobject, hdot⟩, hid id List.mem_cons_self⟩

theorem Declaration.oneLine_render {d : Declaration} (h : ∀ id ∈ d.names, OneLine id.toList) :
    OneLine d.render.toList := by
  obtain ⟨name, type, initializer⟩ := d
  obtain ⟨hname, hinitializer⟩ := List.forall_mem_cons.mp h
  rw [toList_render, Text.oneLine_append, Text.oneLine_append]
  refine ⟨hname, ?_, ?_⟩
  · cases type with
    | none => exact Text.oneLine_nil
    | some t =>
      cases t
      show OneLine (typeText (some .string))
      decide
  · cases initializer with
    | none => exact Text.oneLine_nil
    | some e =>
      have he : OneLine e.render.toList := by
        apply Expression.oneLine_render
        simpa using hinitializer
      exact Text.oneLine_append.mpr ⟨(by decide : OneLine [' ', '=', ' ']), he⟩

theorem Declaration.oneLine_listText {ds : List Declaration}
    (h : ∀ d ∈ ds, OneLine d.render.toList) : OneLine (listText ds) := by
  have hlater : ∀ ds : List Declaration, (∀ d ∈ ds, OneLine d.render.toList) →
      OneLine (laterText ds) := by
    intro ds hds
    induction ds with
    | nil => exact Text.oneLine_nil
    | cons d ds ih =>
      obtain ⟨hd, hrest⟩ := List.forall_mem_cons.mp hds
      have hcomma : OneLine [',', ' '] := by decide
      exact Text.oneLine_append.mpr ⟨Text.oneLine_append.mpr ⟨hcomma, hd⟩, ih hrest⟩
  cases ds with
  | nil => exact Text.oneLine_nil
  | cons d ds =>
    obtain ⟨hd, hrest⟩ := List.forall_mem_cons.mp h
    exact Text.oneLine_append.mpr ⟨hd, hlater ds hrest⟩

/-- A statement is a text on one line that a semicolon closes. -/
theorem Statement.exists_oneLine {s : Statement} (h : ∀ id ∈ s.names, OneLine id.toList) :
    ∃ line, OneLine line ∧ s.render.toList = line ++ [';'] := by
  cases s with
  | declare keyword ds =>
    have hkeyword : OneLine (keyword.text.toList ++ [' ']) := by cases keyword <;> decide
    have hlist : OneLine (Declaration.listText ds) := by
      apply Declaration.oneLine_listText
      intro d hd
      apply Declaration.oneLine_render
      intro id hid
      exact h id (List.mem_flatMap.mpr ⟨d, hd, hid⟩)
    refine ⟨_, Text.oneLine_append.mpr ⟨hkeyword, hlist⟩, ?_⟩
    rw [toList_render_declare]
    simp
  | expression e =>
    exact ⟨e.render.toList, Expression.oneLine_render h, toList_render_expression e⟩

/-! ### Files -/

namespace Program

theorem linesText_cons (nl : NewLine) (s : Statement) (ss : List Statement) :
    linesText nl (s :: ss) = s.render.toList ++ nl.text.toList ++ linesText nl ss :=
  List.flatMap_cons

/-- A line end holds one line feed, its last character. -/
theorem text_eq_concat (nl : NewLine) :
    ∃ start, nl.text.toList = start ++ ['\n'] ∧ '\n' ∉ start := by
  cases nl with
  | lineFeed => exact ⟨[], rfl, by decide⟩
  | carriageReturnLineFeed => exact ⟨['\r'], rfl, by decide⟩

variable {ss : List Statement}

theorem count_linesText (h : ∀ s ∈ ss, ∀ id ∈ s.names, OneLine id.toList) (nl : NewLine) :
    (linesText nl ss).count '\n' = ss.length := by
  obtain ⟨start, htext, hstart⟩ := text_eq_concat nl
  induction ss with
  | nil => rfl
  | cons s ss ih =>
    obtain ⟨hs, hss⟩ := List.forall_mem_cons.mp h
    obtain ⟨line, hline, hrender⟩ := Statement.exists_oneLine hs
    have hfirst : (s.render.toList ++ nl.text.toList).count '\n' = 1 := by
      rw [hrender, htext]
      simp [List.count_eq_zero_of_not_mem hline.1, List.count_eq_zero_of_not_mem hstart]
    rw [linesText_cons, List.count_append, hfirst, ih hss, List.length_cons, Nat.add_comm]

/-- Each line feed ends a statement: a semicolon and the start of the line end are in front of
it. -/
theorem ends_of_linesText (h : ∀ s ∈ ss, ∀ id ∈ s.names, OneLine id.toList) {nl : NewLine}
    {before after : List Char} (htext : linesText nl ss = before ++ '\n' :: after) :
    ∃ front, before ++ ['\n'] = front ++ ';' :: nl.text.toList := by
  obtain ⟨start, hend, hstart⟩ := text_eq_concat nl
  induction ss generalizing before with
  | nil => simp [linesText] at htext
  | cons s ss ih =>
    obtain ⟨hs, hss⟩ := List.forall_mem_cons.mp h
    obtain ⟨line, hline, hrender⟩ := Statement.exists_oneLine hs
    have hopening : '\n' ∉ line ++ ';' :: start := by
      simp [hline.1, hstart]
    have hsplit : (line ++ ';' :: start) ++ '\n' :: linesText nl ss =
        before ++ '\n' :: after := by
      rw [← htext, linesText_cons, hrender, hend]
      simp
    rcases Text.feed_cases hopening hsplit with rfl | ⟨between, rfl, hlater⟩
    · exact ⟨line, by rw [hend]; simp⟩
    · obtain ⟨front, hfront⟩ := ih hss hlater
      refine ⟨line ++ ';' :: start ++ '\n' :: front, ?_⟩
      rw [List.append_assoc, List.cons_append, hfront]
      simp

theorem withReturns_linesText (h : ∀ s ∈ ss, ∀ id ∈ s.names, OneLine id.toList) :
    Text.withReturns (linesText .lineFeed ss) = linesText .carriageReturnLineFeed ss := by
  induction ss with
  | nil => rfl
  | cons s ss ih =>
    obtain ⟨hs, hss⟩ := List.forall_mem_cons.mp h
    obtain ⟨line, hline, hrender⟩ := Statement.exists_oneLine hs
    have hstatement : OneLine s.render.toList := by
      rw [hrender, Text.oneLine_append]
      exact ⟨hline, by decide⟩
    rw [linesText_cons, linesText_cons, Text.withReturns_append, Text.withReturns_append, ih hss,
      Text.withReturns_of_oneLine hstatement]
    rfl

/-- **Literals are closed, and each statement has one line.**  A written literal holds no control
character and no separator of lines or paragraphs, and of the quotes behind its opening one exactly
the last character is not escaped.  A file whose names hold no line break is therefore printed with
one line feed for each statement, each behind a semicolon and what else a line ends with, and
printing it with carriage returns puts one in front of each line feed and changes nothing else. -/
theorem lines_render :
    (∀ l : Literal,
      (∀ c ∈ l.render.toList, Text.isControl c = false ∧ c.toNat ≠ 0x2028 ∧ c.toNat ≠ 0x2029) ∧
      (∃ body, l.render.toList = l.quote.char :: body ++ [l.quote.char]) ∧
      ∀ before after, l.render.toList = l.quote.char :: before ++ l.quote.char :: after →
        (¬ Literal.Escapes (l.quote.char :: before) ↔ after = [])) ∧
    ∀ p : Program, (∀ id ∈ p.names, '\n' ∉ id.toList ∧ '\r' ∉ id.toList) →
      (∀ nl : NewLine,
        (p.render nl).toList.count '\n' = p.statements.length ∧
        ∀ before after, (p.render nl).toList = before ++ '\n' :: after →
          ∃ front, before ++ ['\n'] = front ++ ';' :: nl.text.toList) ∧
      (p.render .carriageReturnLineFeed).toList =
        (p.render .lineFeed).toList.flatMap fun c => if c = '\n' then ['\r', '\n'] else [c] := by
  constructor
  · intro l
    refine ⟨l.staysOnLine_render, ⟨_, l.toList_render⟩, ?_⟩
    intro before after h
    rw [l.escapes_render_iff h, not_not]
  · intro p hnames
    have hstatements : ∀ s ∈ p.statements, ∀ id ∈ s.names, OneLine id.toList := by
      intro s hs id hid
      exact hnames id (List.mem_flatMap.mpr ⟨s, hs, hid⟩)
    simp only [toList_render]
    refine ⟨?_, (withReturns_linesText hstatements).symm⟩
    intro nl
    refine ⟨count_linesText hstatements nl, ?_⟩
    intro before after h
    exact ends_of_linesText hstatements h

/-- A literal of a quote, a line feed, a semicolon and a backslash. -/
def breakingLiteral : Literal := ⟨"'\n;\\", .single⟩

/-- Two statements, the first of which holds `breakingLiteral`. -/
def breakingProgram : Program :=
  ⟨[.expression (.assign (.name "a") (.literal breakingLiteral)),
    .expression (.call (.member (.name "b") "c"))]⟩

theorem lines_render_breakingProgram :
    (∀ id ∈ breakingProgram.names, '\n' ∉ id.toList ∧ '\r' ∉ id.toList) ∧
      breakingLiteral.render.toList = ['\'', '\\', '\'', '\\', 'n', ';', '\\', '\\', '\''] ∧
      ¬ Literal.Escapes ['\'', '\\', '\'', '\\', 'n', ';', '\\', '\\'] ∧
      Literal.Escapes ['\'', '\\'] ∧
      (breakingProgram.render .lineFeed).toList =
        ['a', ' ', '=', ' '] ++ breakingLiteral.render.toList ++
          [';', '\n', 'b', '.', 'c', '(', ')', ';', '\n'] ∧
      (breakingProgram.render .carriageReturnLineFeed).toList.count '\n' = 2 ∧
      (breakingProgram.render .carriageReturnLineFeed).toList =
        (breakingProgram.render .lineFeed).toList.flatMap
          fun c => if c = '\n' then ['\r', '\n'] else [c] := by
  obtain ⟨hliteral, hprogram⟩ := lines_render
  obtain ⟨-, -, hquotes⟩ := hliteral breakingLiteral
  have htext : breakingLiteral.render.toList =
      ['\'', '\\', '\'', '\\', 'n', ';', '\\', '\\', '\''] := by decide +kernel
  have hnames : ∀ id ∈ breakingProgram.names, '\n' ∉ id.toList ∧ '\r' ∉ id.toList := by decide
  obtain ⟨hlines, hreturns⟩ := hprogram breakingProgram hnames
  refine ⟨hnames, htext, ?_, ?_, by decide +kernel, (hlines .carriageReturnLineFeed).1, hreturns⟩
  · exact (hquotes ['\\', '\'', '\\', 'n', ';', '\\', '\\'] [] htext).mpr rfl
  · have hescaped := hquotes ['\\'] ['\\', 'n', ';', '\\', '\\', '\''] htext
    by_contra hnot
    exact absurd (hescaped.mp hnot) (by decide)

end Program

end TreeMend
