import TreeMend.Proofs.Literal.Regenerated

/-!
# Written literals are read back

The characters of a literal are never surrogates, so reading a text that was written loses
nothing.  Nor does a written literal run on into what follows it: the first quote that no backslash
escapes is the one that closes it, for every text between quotes that the grammar allows.

## Main definitions

* `Literal.closed?` — a text cut at the first quote that is not escaped.

## Main results

* `Literal.unescape_escape`, `Literal.ofSource?_render` — **a literal that is written is read back**
  as it was.
* `Literal.closed?_of_spells` — the text of a valid literal ends at its own quote.
* `Literal.render_append_inj` — two literals with something behind them are written alike only if
  they are the same, with the same behind them.
-/

namespace TreeMend.Literal

/-! ### Reading what was written -/

theorem unescape_escape (q : Quote) (cs : List Char) : unescape (escape q cs) = cs := by
  have hregained := (spells_escape q cs).regained
  rcases hregained with ⟨-, heq⟩ | ⟨⟨p, hp, hsurrogate⟩, -⟩
  · have hinjective : Function.Injective (List.map Char.toNat) :=
      List.map_injective_iff.mpr fun _ _ => Char.toNat_inj.mp
    exact hinjective heq
  · -- what is not regained would be a character that is a surrogate
    obtain ⟨c, -, rfl⟩ := List.mem_map.mp hp
    exact absurd hsurrogate (not_isSurrogate_toNat c)

/-- **A literal that is written is read back**: the same value in the same quotes. -/
theorem ofSource?_render (l : Literal) : ofSource? l.render = some l := by
  have hsource := ofSource?_quoted l.quote (escape l.quote l.value.toList)
  rw [unescape_escape, String.ofList_toList] at hsource
  exact hsource

/-- A zero before a digit, a backslash before the closing quote. -/
example : ofSource? (render ⟨"\x001'\\", .single⟩) = some ⟨"\x001'\\", .single⟩ := by
  decide +kernel

/-! ### Where a literal ends -/

/-- What stands before the first quote that no backslash escapes, and what follows that quote. -/
def closed? (q : Quote) : List Char → Option (List Char × List Char)
  | [] => none
  | '\\' :: c :: cs => (closed? q cs).map fun p => ('\\' :: c :: p.1, p.2)
  | c :: cs => if c = q.char then some ([], cs) else (closed? q cs).map fun p => (c :: p.1, p.2)

theorem closed?_escaped (q : Quote) (c : Char) (cs : List Char) :
    closed? q ('\\' :: c :: cs) = (closed? q cs).map fun p => ('\\' :: c :: p.1, p.2) := rfl

theorem closed?_quote (q : Quote) (cs : List Char) : closed? q (q.char :: cs) = some ([], cs) := by
  rw [closed?]
  · rw [if_pos rfl]
  · intro c ds h
    cases q <;> exact absurd h (by decide)

theorem closed?_plain {q : Quote} {c : Char} (hquote : c ≠ q.char) (hescape : c ≠ '\\')
    (cs : List Char) : closed? q (c :: cs) = (closed? q cs).map fun p => (c :: p.1, p.2) := by
  rw [closed?]
  · rw [if_neg hquote]
  · intro d ds h
    exact absurd h hescape

theorem closed?_append {q : Quote} {ds : List Char} (h : ∀ d ∈ ds, d ≠ q.char ∧ d ≠ '\\')
    (cs : List Char) :
    closed? q (ds ++ cs) = (closed? q cs).map fun p => (ds ++ p.1, p.2) := by
  induction ds with
  | nil => simp
  | cons d ds ih =>
    obtain ⟨hquote, hescape⟩ := h d List.mem_cons_self
    rw [List.cons_append, closed?_plain hquote hescape,
      ih fun e he => h e (List.mem_cons_of_mem d he), Option.map_map]
    rfl

/-- No digit closes a literal or starts an escape, in whatever quotes. -/
theorem Numeral.ne_quote {ds : List Char} {n : Nat} (h : Numeral ds n) (q : Quote) :
    ∀ d ∈ ds, d ≠ q.char ∧ d ≠ '\\' := by
  intro d hd
  have hdigit := h.isHexDigit d hd
  refine ⟨?_, hdigit.ne_backslash⟩
  cases q with
  | single => exact hdigit.ne_apostrophe
  | double => exact hdigit.ne_of_hexDigit?_eq_none (by decide)

/-- The text of a valid literal ends at its own quote. -/
theorem closed?_of_spells {q : Quote} {body : List Char} {ps : List Nat} (h : Spells q body ps)
    (rest : List Char) : closed? q (body ++ q.char :: rest) = some (body, rest) := by
  -- an escape is a backslash, the character that it hides, and characters that hide nothing
  have hlong : ∀ {c : Char} {ds cs : List Char}, (∀ d ∈ ds, d ≠ q.char ∧ d ≠ '\\') →
      closed? q (cs ++ q.char :: rest) = some (cs, rest) →
      closed? q ('\\' :: c :: (ds ++ cs) ++ q.char :: rest) =
        some ('\\' :: c :: (ds ++ cs), rest) := by
    intro c ds cs hds hcs
    rw [List.cons_append, List.cons_append, closed?_escaped, List.append_assoc, closed?_append hds,
      hcs]
    rfl
  have hnone : ∀ d ∈ ([] : List Char), d ≠ q.char ∧ d ≠ '\\' := fun d hd => by cases hd
  induction h with
  | nil => exact closed?_quote q rest
  | plain hquote hescape _ _ _ ih =>
    rw [List.cons_append, closed?_plain hquote hescape, ih]
    rfl
  | escape _ _ _ _ _ ih | zero _ _ ih | continued _ _ _ ih => exact hlong hnone ih
  | hex2 hp _ ih | hex4 hp _ ih => exact hlong (hp.ne_quote q) ih
  | @braced ds cs text p ps hp _ htext _ ih =>
    have hbraced : ∀ d ∈ '\x7b' :: (ds ++ ['\x7d']), d ≠ q.char ∧ d ≠ '\\' := by
      intro d hd
      rcases List.mem_cons.mp hd with rfl | hd
      · cases q <;> decide
      · rcases List.mem_append.mp hd with hd | hd
        · exact hp.ne_quote q d hd
        · rw [List.mem_singleton.mp hd]
          cases q <;> decide
    have hsplit : '\x7b' :: text = '\x7b' :: (ds ++ ['\x7d']) ++ cs := by
      rw [htext]
      simp
    rw [hsplit]
    exact hlong hbraced ih
  | @continuedReturnFeed cs ps _ ih =>
    have hfeed : ∀ d ∈ ['\n'], d ≠ q.char ∧ d ≠ '\\' := by
      intro d hd
      rw [List.mem_singleton.mp hd]
      cases q <;> decide
    exact hlong hfeed ih

theorem toList_render (l : Literal) :
    l.render.toList = l.quote.char :: (escape l.quote l.value.toList ++ [l.quote.char]) :=
  String.toList_ofList

/-- Two literals with something behind them are written alike only if they are the same, with the
same behind them. -/
theorem render_append_inj {l l' : Literal} {rest rest' : List Char}
    (h : l.render.toList ++ rest = l'.render.toList ++ rest') : l = l' ∧ rest = rest' := by
  obtain ⟨value, q⟩ := l
  obtain ⟨value', q'⟩ := l'
  rw [toList_render, toList_render, List.cons_append, List.cons_append] at h
  obtain ⟨hquote, hbody⟩ := List.cons.inj h
  obtain rfl : q = q' := by simpa using congrArg Quote.ofChar? hquote
  rw [List.append_assoc, List.append_assoc] at hbody
  have hclosed := closed?_of_spells (spells_escape q value.toList) rest
  have hclosed' := closed?_of_spells (spells_escape q value'.toList) rest'
  have hsame := hclosed.symm.trans ((congrArg (closed? q) hbody).trans hclosed')
  obtain ⟨hescape, rfl⟩ := Prod.mk.inj (Option.some.inj hsame)
  have hvalue : value.toList = value'.toList := by
    rw [← unescape_escape q value.toList, ← unescape_escape q value'.toList]
    exact congrArg unescape hescape
  rw [String.toList_inj.mp hvalue]
  exact ⟨rfl, rfl⟩

end TreeMend.Literal
