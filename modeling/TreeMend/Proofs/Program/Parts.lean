import Mathlib.Data.List.Forall2
import TreeMend.Program.Reading

/-!
# The literals and the keywords of a program

A construct can be changed at its string literals and at its binding keywords without touching
anything else, and it is determined by its keywords and by what is left when they are all alike.

## Main definitions

* `Construct.mapLiterals` — a construct with a function applied to each string literal.
* `Construct.keywords` — the binding keywords of a construct, in source order.
* `Construct.lists` — the declaration lists of a construct, each with its keyword.
* `Construct.withoutKeywords` — a construct whose binding keywords are all alike.
* `Construct.converted` — a construct with some of its declaration lists made constant.

## Main results

* `Construct.eq_of_keywords` — a construct is its keywords and the rest.
* `Construct.keywords_converted`, `Construct.withoutKeywords_converted` — making lists constant
  changes the marked keywords and nothing else.
-/

namespace TreeMend

/-! ### Literals -/

/-- The expression with `f` applied to each string literal. -/
def Expression.mapLiterals (f : Literal → Literal) : Expression → Expression
  | .name id => .name id
  | .literal l => .literal (f l)
  | .assign target value => .assign (target.mapLiterals f) (value.mapLiterals f)
  | .call callee => .call (callee.mapLiterals f)
  | .callWith callee argument => .callWith (callee.mapLiterals f) (argument.mapLiterals f)
  | .member object id => .member (object.mapLiterals f) id

/-- The binding with `f` applied to each string literal. -/
def Declaration.mapLiterals (f : Literal → Literal) (d : Declaration) : Declaration :=
  { d with initializer := d.initializer.map (Expression.mapLiterals f) }

/-- The statement with `f` applied to each string literal. -/
def Statement.mapLiterals (f : Literal → Literal) : Statement → Statement
  | .declare keyword declarations =>
    .declare keyword (declarations.map (Declaration.mapLiterals f))
  | .expression e => .expression (e.mapLiterals f)

/-- The construct with `f` applied to each string literal. -/
def Construct.mapLiterals (f : Literal → Literal) : Construct → Construct
  | .program p => .program ⟨p.statements.map (Statement.mapLiterals f)⟩
  | .statement s => .statement (s.mapLiterals f)
  | .declaration d => .declaration (d.mapLiterals f)
  | .type t => .type t
  | .expression e => .expression (e.mapLiterals f)

/-! ### Keywords -/

/-- The binding keyword of a statement, if it has one. -/
def Statement.keywords : Statement → List BindingKeyword
  | .declare keyword _ => [keyword]
  | .expression _ => []

/-- The binding keywords of a construct, in source order. -/
def Construct.keywords : Construct → List BindingKeyword
  | .program p => p.statements.flatMap Statement.keywords
  | .statement s => s.keywords
  | _ => []

/-- The declaration list that a statement is, if it is one: the keyword and the declarations. -/
def Statement.lists : Statement → List (BindingKeyword × List Declaration)
  | .declare keyword declarations => [(keyword, declarations)]
  | .expression _ => []

/-- The declaration lists of a construct, in source order. -/
def Construct.lists : Construct → List (BindingKeyword × List Declaration)
  | .program p => p.statements.flatMap Statement.lists
  | .statement s => s.lists
  | _ => []

/-- The statement with the keyword `const`, if it has one. -/
def Statement.withoutKeyword : Statement → Statement
  | .declare _ declarations => .declare .constWord declarations
  | .expression e => .expression e

/-- The construct with the keyword `const` in all places of keywords. -/
def Construct.withoutKeywords : Construct → Construct
  | .program p => .program ⟨p.statements.map Statement.withoutKeyword⟩
  | .statement s => .statement s.withoutKeyword
  | c => c

theorem Statement.map_fst_lists (s : Statement) : s.lists.map (·.1) = s.keywords := by
  cases s <;> rfl

theorem Construct.map_fst_lists (c : Construct) : c.lists.map (·.1) = c.keywords := by
  cases c with
  | program p => simp [lists, keywords, List.map_flatMap, Statement.map_fst_lists]
  | statement s => exact s.map_fst_lists
  | _ => rfl

theorem Statement.eq_of_keywords {s s' : Statement} (hkeywords : s.keywords = s'.keywords)
    (hrest : s.withoutKeyword = s'.withoutKeyword) : s = s' := by
  cases s with
  | declare k ds =>
    cases s' with
    | declare k' ds' =>
      obtain rfl : k = k' := (List.cons.inj hkeywords).1
      obtain rfl : ds = ds' := by injection hrest
      rfl
    | expression e' => cases hkeywords
  | expression e =>
    cases s' with
    | declare k' ds' => cases hkeywords
    | expression e' => exact hrest

theorem Statement.length_keywords_of_withoutKeyword {s s' : Statement}
    (h : s.withoutKeyword = s'.withoutKeyword) : s.keywords.length = s'.keywords.length := by
  cases s <;> cases s' <;> first | rfl | cases h

theorem Statement.list_eq_of_keywords {ss ss' : List Statement}
    (hkeywords : ss.flatMap keywords = ss'.flatMap keywords)
    (hrest : ss.map withoutKeyword = ss'.map withoutKeyword) : ss = ss' := by
  induction ss generalizing ss' with
  | nil =>
    cases ss' with
    | nil => rfl
    | cons s' ss' => cases hrest
  | cons s ss ih =>
    cases ss' with
    | nil => cases hrest
    | cons s' ss' =>
      obtain ⟨hhead, htail⟩ := List.cons.inj hrest
      rw [List.flatMap_cons, List.flatMap_cons] at hkeywords
      -- equal shapes have equally many keywords, so the two lists split at the same place
      obtain ⟨hk, hks⟩ := List.append_inj hkeywords (length_keywords_of_withoutKeyword hhead)
      rw [eq_of_keywords hk hhead, ih hks htail]

/-- A construct is determined by its keywords and by what is left without them. -/
theorem Construct.eq_of_keywords {c c' : Construct} (hkeywords : c.keywords = c'.keywords)
    (hrest : c.withoutKeywords = c'.withoutKeywords) : c = c' := by
  cases c with
  | program p =>
    cases c' with
    | program p' =>
      obtain ⟨ss⟩ := p
      obtain ⟨ss'⟩ := p'
      have hstatements : ss.map Statement.withoutKeyword = ss'.map Statement.withoutKeyword := by
        simpa [withoutKeywords] using hrest
      obtain rfl : ss = ss' := Statement.list_eq_of_keywords hkeywords hstatements
      rfl
    | _ => cases hrest
  | statement s =>
    cases c' with
    | statement s' =>
      have hstatement : s.withoutKeyword = s'.withoutKeyword := by
        simpa [withoutKeywords] using hrest
      rw [Statement.eq_of_keywords hkeywords hstatement]
    | _ => cases hrest
  | declaration d => cases c' <;> first | exact hrest | cases hrest
  | type t => cases c' <;> first | exact hrest | cases hrest
  | expression e => cases c' <;> first | exact hrest | cases hrest

/-! ### Making lists constant -/

/-- The statements with the keyword `const` in the declaration lists that are marked; the marks
stand in the order of the lists. -/
def Statement.convertAll : List Bool → List Statement → List Statement
  | _, [] => []
  | mark :: marks, .declare keyword declarations :: ss =>
    .declare (if mark then .constWord else keyword) declarations :: convertAll marks ss
  | marks, s :: ss => s :: convertAll marks ss

/-- The construct with the keyword `const` in the declaration lists that are marked. -/
def Construct.converted (marks : List Bool) : Construct → Construct
  | .program p => .program ⟨Statement.convertAll marks p.statements⟩
  | .statement s => .statement ((Statement.convertAll marks [s]).headD s)
  | c => c

theorem Statement.map_withoutKeyword_convertAll (marks : List Bool) (ss : List Statement) :
    (convertAll marks ss).map withoutKeyword = ss.map withoutKeyword := by
  induction ss generalizing marks with
  | nil => cases marks <;> rfl
  | cons s ss ih =>
    cases s with
    | declare k ds =>
      cases marks with
      | nil => simp [convertAll, ih]
      | cons mark marks => simp [convertAll, withoutKeyword, ih]
    | expression e => cases marks <;> simp [convertAll, ih]

theorem Statement.flatMap_keywords_convertAll {marks : List Bool} {ss : List Statement}
    (h : marks.length = (ss.flatMap keywords).length) :
    (convertAll marks ss).flatMap keywords =
      List.zipWith (fun mark k => if mark then .constWord else k) marks (ss.flatMap keywords) := by
  induction ss generalizing marks with
  | nil =>
    cases marks with
    | nil => rfl
    | cons mark marks => cases h
  | cons s ss ih =>
    cases s with
    | declare k ds =>
      cases marks with
      | nil => simp [keywords] at h
      | cons mark marks =>
        have hlength : marks.length = (ss.flatMap keywords).length := by
          simpa [keywords] using h
        simp [convertAll, keywords, ih hlength]
    | expression e =>
      have hlength : marks.length = (ss.flatMap keywords).length := by
        simpa [keywords] using h
      cases marks <;> simpa [convertAll, keywords] using ih hlength

/-- Making lists constant changes nothing but keywords. -/
theorem Construct.withoutKeywords_converted (marks : List Bool) (c : Construct) :
    (c.converted marks).withoutKeywords = c.withoutKeywords := by
  cases c with
  | program p => simp [converted, withoutKeywords, Statement.map_withoutKeyword_convertAll]
  | statement s =>
    cases s with
    | declare k ds => cases marks <;> rfl
    | expression e => cases marks <;> rfl
  | _ => rfl

/-- The keywords after making lists constant. -/
theorem Construct.keywords_converted {marks : List Bool} {c : Construct}
    (h : marks.length = c.keywords.length) :
    (c.converted marks).keywords =
      List.zipWith (fun mark k => if mark then .constWord else k) marks c.keywords := by
  cases c with
  | program p => exact Statement.flatMap_keywords_convertAll h
  | statement s =>
    have hlength : marks.length = ([s].flatMap Statement.keywords).length := by
      simpa [keywords] using h
    have hall := Statement.flatMap_keywords_convertAll hlength
    cases s with
    | declare k ds => cases marks <;> simpa [converted, keywords, Statement.convertAll] using hall
    | expression e => cases marks <;> simpa [converted, keywords, Statement.convertAll] using hall
  | _ => simp [converted, keywords]

/-! ### The two changes together -/

theorem Statement.keywords_mapLiterals (f : Literal → Literal) (s : Statement) :
    (s.mapLiterals f).keywords = s.keywords := by
  cases s <;> rfl

theorem Construct.keywords_mapLiterals (f : Literal → Literal) (c : Construct) :
    (c.mapLiterals f).keywords = c.keywords := by
  cases c with
  | program p =>
    simp [mapLiterals, keywords, List.flatMap_map, Statement.keywords_mapLiterals]
  | statement s => exact Statement.keywords_mapLiterals f s
  | _ => rfl

end TreeMend
