import TreeMend.Proofs.Program.Readable

/-!
# Printed programs are unambiguous

Declarations, statements and programs are made of words, punctuation and expressions, each of which
ends where its text ends.  So what is printed can be told from what is printed behind it, level by
level, and a readable program is the only one with its text.

## Main results

* `Declaration.render_append_inj`, `Declaration.listText_append_inj`,
  `Statement.render_append_inj` — what is printed can be told from what is printed behind it.
* `Statement.render_declare_append_ne` — a declaration list is never taken for an expression.
* `Program.render_inj` — **two readable programs with the same text are the same**.
-/

namespace TreeMend

/-! ### Declarations -/

namespace Declaration

open Expression (Ends)

/-- The text between the name of a declaration and its initializer. -/
def typeText : Option TypeAnnotation → List Char
  | some t => ':' :: ' ' :: t.text.toList
  | none => []

/-- The text behind the name and the type of a declaration. -/
def initializerText : Option Expression → List Char
  | some e => ' ' :: '=' :: ' ' :: e.render.toList
  | none => []

theorem toList_render (d : Declaration) :
    d.render.toList = d.name.toList ++ (typeText d.type ++ initializerText d.initializer) := by
  obtain ⟨name, type, initializer⟩ := d
  cases type <;> cases initializer <;> simp [render, typeText, initializerText]

theorem initializerText_append_inj {i i' : Option Expression} (hi : ∀ e ∈ i, e.Readable)
    (hi' : ∀ e ∈ i', e.Readable) {rest rest' : List Char} (hrest : Ends rest)
    (hrest' : Ends rest') (h : initializerText i ++ rest = initializerText i' ++ rest') :
    i = i' ∧ rest = rest' := by
  cases i with
  | none =>
    cases i' with
    | none => exact ⟨rfl, h⟩
    | some e' =>
      rw [show rest = _ from h] at hrest
      exact absurd hrest.mem (by decide)
  | some e =>
    cases i' with
    | none =>
      rw [show rest' = _ from h.symm] at hrest'
      exact absurd hrest'.mem (by decide)
    | some e' =>
      have htail : e.render.toList ++ rest = e'.render.toList ++ rest' := by
        simpa [initializerText] using h
      obtain ⟨rfl, rfl⟩ := Expression.render_append_inj (hi e rfl) (hi' e' rfl) hrest hrest' htail
      exact ⟨rfl, rfl⟩

/-- What follows the type of a declaration starts with no colon. -/
theorem head?_initializerText_append_ne (i : Option Expression) {rest : List Char}
    (hrest : Ends rest) : (initializerText i ++ rest).head? ≠ some ':' := by
  cases i with
  | none =>
    obtain ⟨c, cs, rfl, hc⟩ := hrest
    intro h
    obtain rfl : c = ':' := Option.some.inj h
    exact absurd hc (by decide)
  | some e => exact fun h => absurd (Option.some.inj h) (by decide)

theorem typeText_append_inj {t t' : Option TypeAnnotation} {rest rest' : List Char}
    (hrest : rest.head? ≠ some ':') (hrest' : rest'.head? ≠ some ':')
    (h : typeText t ++ rest = typeText t' ++ rest') : t = t' ∧ rest = rest' := by
  cases t with
  | none =>
    cases t' with
    | none => exact ⟨rfl, h⟩
    | some u => exact absurd (congrArg List.head? h) hrest
  | some u =>
    cases t' with
    | none => exact absurd (congrArg List.head? h.symm) hrest'
    | some u' =>
      cases u
      cases u'
      exact ⟨rfl, List.append_cancel_left h⟩

theorem any_isWordChar_tail (t : Option TypeAnnotation) (i : Option Expression) {rest : List Char}
    (hrest : Ends rest) :
    (typeText t ++ (initializerText i ++ rest)).head?.any Text.isWordChar = false := by
  cases t with
  | some u => exact Expression.any_isWordChar_punctuation (c := ':') (by decide) _
  | none =>
    cases i with
    | some e => exact Expression.any_isWordChar_punctuation (c := ' ') (by decide) _
    | none => exact hrest.any_isWordChar

theorem render_append_inj {d d' : Declaration} (hd : d.Readable) (hd' : d'.Readable)
    {rest rest' : List Char} (hrest : Ends rest) (hrest' : Ends rest')
    (h : d.render.toList ++ rest = d'.render.toList ++ rest') : d = d' ∧ rest = rest' := by
  obtain ⟨name, type, initializer⟩ := d
  obtain ⟨name', type', initializer'⟩ := d'
  obtain ⟨hword, hinitializer⟩ : Text.IsWord name ∧ ∀ e ∈ initializer, e.Readable := hd
  obtain ⟨hword', hinitializer'⟩ : Text.IsWord name' ∧ ∀ e ∈ initializer', e.Readable := hd'
  simp only [toList_render, List.append_assoc] at h
  obtain ⟨hname, htail⟩ := Text.word_append_inj hword.2 hword'.2
    (any_isWordChar_tail type initializer hrest) (any_isWordChar_tail type' initializer' hrest') h
  obtain ⟨rfl, hlast⟩ := typeText_append_inj (head?_initializerText_append_ne initializer hrest)
    (head?_initializerText_append_ne initializer' hrest') htail
  obtain ⟨rfl, rfl⟩ := initializerText_append_inj hinitializer hinitializer' hrest hrest' hlast
  rw [String.toList_inj.mp hname]
  exact ⟨rfl, rfl⟩

/-! ### Lists of declarations -/

/-- The text of declarations behind a first one. -/
def laterText (ds : List Declaration) : List Char :=
  ds.flatMap fun d => ',' :: ' ' :: d.render.toList

/-- The text of a list of declarations. -/
def listText : List Declaration → List Char
  | [] => []
  | d :: ds => d.render.toList ++ laterText ds

theorem toList_intercalate_render (ds : List Declaration) :
    (", ".intercalate (ds.map render)).toList = listText ds := by
  rw [String.toList_intercalate, List.map_map]
  cases ds with
  | nil => rfl
  | cons d ds =>
    induction ds generalizing d with
    | nil => simp [listText, laterText]
    | cons d' ds ih =>
      have hrest := ih d'
      simp only [List.map_cons, List.intercalate_cons_cons] at hrest ⊢
      rw [hrest]
      simp [listText, laterText]

theorem ends_laterText_append (ds : List Declaration) (rest : List Char) :
    Ends (laterText ds ++ ';' :: rest) := by
  cases ds with
  | nil => exact ⟨';', rest, rfl, by decide⟩
  | cons d ds => exact ⟨',', _, rfl, by decide⟩

theorem laterText_append_inj {ds ds' : List Declaration} (hds : ∀ d ∈ ds, d.Readable)
    (hds' : ∀ d ∈ ds', d.Readable) {rest rest' : List Char}
    (h : laterText ds ++ ';' :: rest = laterText ds' ++ ';' :: rest') :
    ds = ds' ∧ rest = rest' := by
  induction ds generalizing ds' with
  | nil =>
    cases ds' with
    | nil => exact ⟨rfl, (List.cons.inj h).2⟩
    | cons d' ds' => exact absurd (List.cons.inj h).1 (by decide)
  | cons d ds ih =>
    cases ds' with
    | nil => exact absurd (List.cons.inj h).1 (by decide)
    | cons d' ds' =>
      have htail : d.render.toList ++ (laterText ds ++ ';' :: rest) =
          d'.render.toList ++ (laterText ds' ++ ';' :: rest') := by
        simpa [laterText] using h
      obtain ⟨hfirst, hlater⟩ := List.forall_mem_cons.mp hds
      obtain ⟨hfirst', hlater'⟩ := List.forall_mem_cons.mp hds'
      obtain ⟨rfl, hrest⟩ := render_append_inj hfirst hfirst' (ends_laterText_append ds rest)
        (ends_laterText_append ds' rest') htail
      obtain ⟨rfl, rfl⟩ := ih hlater hlater' hrest
      exact ⟨rfl, rfl⟩

/-- A declaration starts with its name. -/
theorem head?_listText_cons {d : Declaration} (hd : d.Readable) (ds : List Declaration)
    (rest : List Char) :
    ∃ c, (listText (d :: ds) ++ rest).head? = some c ∧ Text.isWordChar c = true := by
  obtain ⟨c, cs, hname, hc⟩ := Expression.exists_cons_of_isWord hd.1
  refine ⟨c, ?_, hc⟩
  rw [listText, toList_render, hname]
  rfl

theorem listText_append_inj {ds ds' : List Declaration} (hds : ∀ d ∈ ds, d.Readable)
    (hds' : ∀ d ∈ ds', d.Readable) {rest rest' : List Char}
    (h : listText ds ++ ';' :: rest = listText ds' ++ ';' :: rest') :
    ds = ds' ∧ rest = rest' := by
  have hsemicolon : ¬ Text.isWordChar ';' = true := by decide
  cases ds with
  | nil =>
    cases ds' with
    | nil => exact ⟨rfl, (List.cons.inj h).2⟩
    | cons d' ds' =>
      obtain ⟨c, hc, hword⟩ := head?_listText_cons (hds' d' List.mem_cons_self) ds' (';' :: rest')
      rw [← h] at hc
      exact absurd hword (Option.some.inj hc ▸ hsemicolon)
  | cons d ds =>
    cases ds' with
    | nil =>
      obtain ⟨c, hc, hword⟩ := head?_listText_cons (hds d List.mem_cons_self) ds (';' :: rest)
      rw [h] at hc
      exact absurd hword (Option.some.inj hc ▸ hsemicolon)
    | cons d' ds' =>
      -- a first declaration is one behind a comma
      have hlater : laterText (d :: ds) ++ ';' :: rest = laterText (d' :: ds') ++ ';' :: rest' := by
        simpa [listText, laterText] using h
      exact laterText_append_inj hds hds' hlater

end Declaration

/-! ### Statements and programs -/

namespace Statement

theorem toList_render_declare (keyword : BindingKeyword) (ds : List Declaration) :
    (declare keyword ds).render.toList =
      keyword.text.toList ++ ' ' :: (Declaration.listText ds ++ [';']) := by
  rw [render, String.toList_append, String.toList_append, String.toList_append,
    Declaration.toList_intercalate_render]
  simp

theorem toList_render_expression (e : Expression) :
    (expression e).render.toList = e.render.toList ++ [';'] := by
  rw [render, String.toList_append]
  rfl

theorem all_isWordChar_keyword (k : BindingKeyword) : k.text.toList.all Text.isWordChar = true := by
  cases k <;> decide

theorem keyword_text_inj {k k' : BindingKeyword} (h : k.text.toList = k'.text.toList) : k = k' := by
  cases k <;> cases k' <;> first | rfl | exact absurd h (by decide)

/-- An expression may start with a name that is a keyword, but then an assignment follows, and no
list of declarations starts so. -/
theorem render_declare_append_ne {keyword : BindingKeyword} {ds : List Declaration}
    {e : Expression} (hds : ∀ d ∈ ds, d.Readable) (he : e.Readable) (rest rest' : List Char) :
    (declare keyword ds).render.toList ++ rest ≠ (expression e).render.toList ++ rest' := by
  intro h
  rw [toList_render_declare, toList_render_expression] at h
  simp only [List.append_assoc, List.cons_append, List.nil_append] at h
  have hends : Expression.Ends (';' :: rest') := ⟨';', rest', rfl, by decide⟩
  have hreads := Expression.reads_render he hends
  rw [← h] at hreads
  cases hreads with
  | @name id text cs rest'' e hid hcs htext hreads =>
    have hspace := Expression.any_isWordChar_punctuation (c := ' ') (by decide)
      (Declaration.listText ds ++ ';' :: rest)
    obtain ⟨-, rfl⟩ := Text.word_append_inj (all_isWordChar_keyword keyword) hid.2 hspace hcs htext
    generalize hlist : Declaration.listText ds ++ ';' :: rest = list at hreads
    cases hreads with
    | assign hreads =>
      have hequals : ¬ Text.isWordChar '=' = true := by decide
      cases ds with
      | nil => exact absurd (List.cons.inj hlist).1 (by decide)
      | cons d ds =>
        obtain ⟨c, hc, hword⟩ :=
          Declaration.head?_listText_cons (hds d List.mem_cons_self) ds (';' :: rest)
        rw [hlist] at hc
        exact absurd hword (Option.some.inj hc ▸ hequals)
  | literal htext hreads =>
    exact Expression.word_append_ne_render_append
      ⟨by cases keyword <;> decide, all_isWordChar_keyword keyword⟩ _ _ _ htext

theorem render_append_inj {s s' : Statement} (hs : s.Readable) (hs' : s'.Readable)
    {rest rest' : List Char} (h : s.render.toList ++ rest = s'.render.toList ++ rest') :
    s = s' ∧ rest = rest' := by
  cases s with
  | declare keyword ds =>
    cases s' with
    | declare keyword' ds' =>
      rw [toList_render_declare, toList_render_declare] at h
      simp only [List.append_assoc, List.cons_append, List.nil_append] at h
      obtain ⟨hkeyword, htail⟩ := Text.word_append_inj (all_isWordChar_keyword keyword)
        (all_isWordChar_keyword keyword')
        (Expression.any_isWordChar_punctuation (c := ' ') (by decide) _)
        (Expression.any_isWordChar_punctuation (c := ' ') (by decide) _) h
      obtain ⟨rfl, rfl⟩ := Declaration.listText_append_inj hs hs' (List.cons.inj htail).2
      rw [keyword_text_inj hkeyword]
      exact ⟨rfl, rfl⟩
    | expression e' => exact absurd h (render_declare_append_ne hs hs' rest rest')
  | expression e =>
    cases s' with
    | declare keyword' ds' => exact absurd h.symm (render_declare_append_ne hs' hs rest' rest)
    | expression e' =>
      rw [toList_render_expression, toList_render_expression, List.append_assoc,
        List.append_assoc] at h
      have hends : ∀ cs : List Char, Expression.Ends ([';'] ++ cs) := fun cs =>
        ⟨';', cs, rfl, by decide⟩
      obtain ⟨rfl, htail⟩ := Expression.render_append_inj hs hs' (hends rest) (hends rest') h
      exact ⟨rfl, (List.cons.inj htail).2⟩

theorem toList_render_ne_nil (s : Statement) : s.render.toList ≠ [] := by
  cases s with
  | declare keyword ds => rw [toList_render_declare]; simp
  | expression e => rw [toList_render_expression]; simp

end Statement

namespace Program

/-- The text of statements, each on a line of its own. -/
def linesText (nl : NewLine) (ss : List Statement) : List Char :=
  ss.flatMap fun s => s.render.toList ++ nl.text.toList

theorem toList_render (nl : NewLine) (p : Program) :
    (p.render nl).toList = linesText nl p.statements := by
  rw [render, String.toList_join, List.flatMap_map]
  simp only [String.toList_append]
  rfl

theorem linesText_inj {nl : NewLine} {ss ss' : List Statement} (hss : ∀ s ∈ ss, s.Readable)
    (hss' : ∀ s ∈ ss', s.Readable) (h : linesText nl ss = linesText nl ss') : ss = ss' := by
  induction ss generalizing ss' with
  | nil =>
    cases ss' with
    | nil => rfl
    | cons s' ss' => simp [linesText, s'.toList_render_ne_nil] at h
  | cons s ss ih =>
    cases ss' with
    | nil => simp [linesText, s.toList_render_ne_nil] at h
    | cons s' ss' =>
      obtain ⟨hfirst, hlater⟩ := List.forall_mem_cons.mp hss
      obtain ⟨hfirst', hlater'⟩ := List.forall_mem_cons.mp hss'
      have hlines : s.render.toList ++ (nl.text.toList ++ linesText nl ss) =
          s'.render.toList ++ (nl.text.toList ++ linesText nl ss') := by
        simpa [linesText] using h
      obtain ⟨rfl, hrest⟩ := Statement.render_append_inj hfirst hfirst' hlines
      rw [ih hlater hlater' (List.append_cancel_left hrest)]

/-- **Two readable programs with the same text are the same**, in lines that end one way or the
other. -/
theorem render_inj {p p' : Program} (hp : p.Readable) (hp' : p'.Readable) (nl : NewLine) :
    p.render nl = p'.render nl ↔ p = p' := by
  constructor
  · intro h
    have htext := congrArg String.toList h
    rw [toList_render, toList_render] at htext
    exact congrArg Program.mk (linesText_inj hp hp' htext)
  · intro h
    rw [h]

/-- One call, of whose argument the characters look like the end of the line and another call. -/
def oneCall : Program := ⟨[.expression (.callWith (.name "f") (.literal ⟨"a');\ng('", .single⟩))]⟩

/-- Two calls, whose text is that of `oneCall` but for escapes. -/
def twoCalls : Program :=
  ⟨[.expression (.callWith (.name "f") (.literal ⟨"a", .single⟩)),
    .expression (.callWith (.name "g") (.literal ⟨"", .single⟩))]⟩

theorem render_oneCall_ne_twoCalls :
    oneCall.Readable ∧ twoCalls.Readable ∧
      oneCall.render .lineFeed ≠ twoCalls.render .lineFeed := by
  have hone : oneCall.Readable := by decide
  have htwo : twoCalls.Readable := by decide
  refine ⟨hone, htwo, fun h => ?_⟩
  exact absurd ((render_inj hone htwo .lineFeed).mp h) (by decide)

/-- A call of an assignment has the text of an assignment of a call. -/
example :
    (Expression.callWith (.assign (.name "a") (.name "f")) (.name "b")).render =
      (Expression.assign (.name "a") (.callWith (.name "f") (.name "b"))).render := by
  decide

end Program

end TreeMend
