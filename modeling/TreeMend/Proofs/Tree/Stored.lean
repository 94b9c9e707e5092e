import TreeMend.Format
import TreeMend.Proofs.Json.RoundTrip
import TreeMend.Proofs.Program.Unread
import TreeMend.Report.Display

/-!
# Stored trees

A tree that is printed as JSON can be read again unless it nests too deeply: each level of the tree
takes two levels of JSON, the object of the node and the array of its children.  What is read is
the tree itself, except that an empty byte range is not stored and comes back as the one at the
start.  Byte ranges do not matter to the text of a tree, so the stored tree has the same text, or
lacks one for the same reason.

## Main definitions

* `Node.height` — the number of nodes on the longest way down.
* `Span.IsWord` — a byte range whose ends are machine words.
* `Span.tidied`, `Node.tidied` — a range and a tree as they come back.

## Main results

* `Node.depth_toJson`, `Node.plain_toJson` — the shape of a stored tree.
* `Node.ofJson?_toJson` — what is read of a stored tree.
* `Generate.run_stored` — **the tree comes back, and its text with it**.
-/

namespace TreeMend

/-! ### Byte ranges -/

namespace Span

/-- Both ends are machine words. -/
def IsWord (s : Span) : Prop := s.start < UInt64.size ∧ s.stop < UInt64.size

instance (s : Span) : Decidable s.IsWord := inferInstanceAs (Decidable (_ ∧ _))

/-- The range, or the empty one at the start in place of an empty one. -/
def tidied (s : Span) : Span := if s.stop ≤ s.start then ⟨0, 0⟩ else s

theorem isEmpty_iff (s : Span) : s.isEmpty = true ↔ s.stop ≤ s.start := by
  simp [isEmpty, length, Nat.sub_eq_zero_iff_le]

theorem plain_toJson (s : Span) : s.toJson.Plain := by
  refine .obj fun m hm => ?_
  rcases List.mem_pair.mp hm with rfl | rfl
  · exact .nat s.start
  · exact .nat s.stop

theorem depth_toJson (s : Span) : s.toJson.depth = 1 := rfl

theorem ofJson?_toJson {s : Span} (h : s.IsWord) : ofJson? s.toJson = some s := by
  have hnat : ∀ {k : Nat}, k < UInt64.size → (Json.nat k).nat? = some k := by
    intro k hk
    simp [Json.nat, Json.nat?, Json.Number.ofNat, Json.Number.nat?, hk]
  have hstart : Json.single? [(some "start", .nat s.start), (some "end", .nat s.stop)] "start" =
      some (.nat s.start) := rfl
  have hstop : Json.single? [(some "start", .nat s.start), (some "end", .nat s.stop)] "end" =
      some (.nat s.stop) := rfl
  change ofJson? (.object [(some "start", .nat s.start), (some "end", .nat s.stop)]) = _
  rw [ofJson?, hstart, hstop]
  simp [hnat h.1, hnat h.2]

end Span

namespace Node

/-! ### Heights -/

mutual

/-- The number of nodes on the longest way down. -/
def height : Node → Nat
  | ⟨_, _, _, children⟩ => heightList children + 1

/-- The greatest height of the trees. -/
def heightList : List Node → Nat
  | [] => 0
  | n :: ns => max (height n) (heightList ns)

end

/-- The tree with its empty byte ranges at the start. -/
def tidied (n : Node) : Node := n.mapSpans Span.tidied

/-! ### The shape of a stored tree -/

theorem toJsonList_eq_map (cs : List Node) : toJsonList cs = cs.map toJson := by
  induction cs with
  | nil => rfl
  | cons c cs ih => rw [toJsonList, ih, List.map_cons]

/-- The members of a stored node: the range is there unless it is empty. -/
def members (kind : Kind) (text : String) (span : Span) (children : List Json) :
    List (String × Json) :=
  [("kind", .str kind), ("text", .str text)] ++
    (if span.stop ≤ span.start then [] else [("span", span.toJson)]) ++
    [("children", .array children)]

theorem toJson_eq (kind : Kind) (text : String) (span : Span) (children : List Node) :
    toJson ⟨kind, text, span, children⟩ =
      .obj (members kind text span (children.map toJson)) := by
  rw [toJson, toJsonList_eq_map, members]
  by_cases h : span.stop ≤ span.start
  · rw [if_pos h, if_pos ((span.isEmpty_iff).mpr h)]
  · rw [if_neg h, if_neg (mt (span.isEmpty_iff).mp h)]

theorem mem_members {kind : Kind} {text : String} {span : Span} {children : List Json}
    {m : String × Json} (h : m ∈ members kind text span children) :
    m = ("kind", .str kind) ∨ m = ("text", .str text) ∨ m = ("span", span.toJson) ∨
      m = ("children", .array children) := by
  unfold members at h
  split at h
  · rcases List.mem_cons.mp h with rfl | h
    · exact .inl rfl
    · exact .inr ((List.mem_pair.mp h).imp_right .inr)
  · simpa using h

theorem plain_toJson (n : Node) : n.toJson.Plain := by
  induction n using inductionOn with
  | step n ih =>
    obtain ⟨kind, text, span, children⟩ := n
    rw [toJson_eq]
    refine .obj fun m hm => ?_
    rcases mem_members hm with rfl | rfl | rfl | rfl
    · exact .str kind
    · exact .str text
    · exact span.plain_toJson
    · refine .array fun v hv => ?_
      obtain ⟨c, hc, rfl⟩ := List.mem_map.mp hv
      exact ih c hc

theorem depthItems_map_toJson {cs : List Node} (h : ∀ c ∈ cs, c.toJson.depth = 2 * c.height) :
    Json.depthItems (cs.map toJson) = 2 * heightList cs := by
  induction cs with
  | nil => rfl
  | cons c cs ih =>
    obtain ⟨hc, hcs⟩ := List.forall_mem_cons.mp h
    rw [List.map_cons, Json.depthItems, hc, ih hcs, heightList]
    omega

/-- Each level of a tree takes two levels of JSON. -/
theorem depth_toJson (n : Node) : n.toJson.depth = 2 * n.height := by
  induction n using inductionOn with
  | step n ih =>
    obtain ⟨kind, text, span, children⟩ := n
    have hchildren := depthItems_map_toJson ih
    rw [toJson_eq, members, height]
    by_cases h : span.stop ≤ span.start
    · simp [h, Json.obj, Json.str, Json.depth, Json.depthMembers, hchildren]
      omega
    · simp [h, Json.obj, Json.str, Json.depth, Json.depthMembers, hchildren, Span.depth_toJson]
      omega

/-! ### Reading a stored tree -/

theorem ofMembers?_of_none {rest : List (Option String × Json)} {room : Nat}
    (h : ofMembers? room rest = none) (m : Option String × Json) :
    ofMembers? room (m :: rest) = none := by
  rw [ofMembers?, h]
  rfl

theorem ofMembers?_children (room : Nat) (v : Json) :
    ofMembers? room [(some "children", v)] =
      (listOfJson? room v).map fun cs => { children := some cs } := by
  cases hchildren : listOfJson? room v <;> simp [ofMembers?, Draft.fill, hchildren]

theorem ofMembers?_span {span : Span} (h : span.IsWord) {rest : List (Option String × Json)}
    {room : Nat} (hroom : room ≠ 0) {d : Draft} (hrest : ofMembers? room rest = some d)
    (hd : d.span = none) :
    ofMembers? room ((some "span", span.toJson) :: rest) = some { d with span := some span } := by
  simp [ofMembers?, hrest, hroom, Draft.fill, hd, span.ofJson?_toJson h]

theorem ofMembers?_named (kind : Kind) (text : String) {rest : List (Option String × Json)}
    {room : Nat} {d : Draft} (hrest : ofMembers? room rest = some d) (hkind : d.kind = none)
    (htext : d.text = none) :
    ofMembers? room ((some "kind", .str kind) :: (some "text", .str text) :: rest) =
      some { d with kind := some kind, text := some text } := by
  simp [ofMembers?, hrest, Draft.fill, hkind, htext, Json.str, Json.text?]

/-- A stored node is read if its children are. -/
theorem ofJson?_members {kind : Kind} {text : String} {span : Span} (hspan : span.IsWord)
    (children : List Json) (room : Nat) :
    ofJson? (room + 1) (.obj (members kind text span children)) =
      (listOfJson? room (.array children)).map fun cs => ⟨kind, text, span.tidied, cs⟩ := by
  have hlast := ofMembers?_children room (.array children)
  rw [Json.obj, ofJson?, if_neg (Nat.succ_ne_zero room), Nat.add_sub_cancel, members]
  cases hchildren : listOfJson? room (.array children) with
  | none =>
    rw [hchildren, Option.map_none] at hlast
    by_cases hempty : span.stop ≤ span.start
    · rw [if_pos hempty]
      exact congrArg (·.bind Draft.finish?)
        (ofMembers?_of_none (ofMembers?_of_none hlast _) (some "kind", .str kind))
    · rw [if_neg hempty]
      exact congrArg (·.bind Draft.finish?)
        (ofMembers?_of_none (ofMembers?_of_none (ofMembers?_of_none hlast _) _)
          (some "kind", .str kind))
  | some cs =>
    rw [hchildren, Option.map_some] at hlast
    have hroom : room ≠ 0 := by
      rintro rfl
      simp [listOfJson?] at hchildren
    by_cases hempty : span.stop ≤ span.start
    · have hread := ofMembers?_named kind text hlast rfl rfl
      rw [if_pos hempty]
      refine (congrArg (·.bind Draft.finish?) hread).trans ?_
      simp [Draft.finish?, Span.tidied, hempty]
    · have hread := ofMembers?_named kind text (ofMembers?_span hspan hroom hlast rfl) rfl rfl
      rw [if_neg hempty]
      refine (congrArg (·.bind Draft.finish?) hread).trans ?_
      simp [Draft.finish?, Span.tidied, hempty]

theorem listOfItems?_map_toJson {cs : List Node} {room : Nat}
    (h : ∀ c ∈ cs, ofJson? room c.toJson =
      if 2 * c.height ≤ room then some c.tidied else none) :
    listOfItems? room (cs.map toJson) =
      if 2 * heightList cs ≤ room then some (cs.map tidied) else none := by
  induction cs with
  | nil => simp [listOfItems?, heightList]
  | cons c cs ih =>
    obtain ⟨hc, hcs⟩ := List.forall_mem_cons.mp h
    rw [List.map_cons, listOfItems?, hc, ih hcs, heightList]
    by_cases hheight : 2 * c.height ≤ room
    · by_cases hheights : 2 * heightList cs ≤ room
      · rw [if_pos hheight, if_pos hheights, if_pos (by omega)]
        rfl
      · rw [if_pos hheight, if_neg hheights, if_neg (by omega)]
        rfl
    · have hheights : ¬ 2 * max c.height (heightList cs) ≤ room := by omega
      rw [if_neg hheight, if_neg hheights]
      rfl

/-- What is read of a stored tree, in a place that leaves room for some levels of JSON. -/
theorem ofJson?_toJson {n : Node} (h : n.Everywhere fun m => m.span.IsWord) (room : Nat) :
    ofJson? room n.toJson = if 2 * n.height ≤ room then some n.tidied else none := by
  induction n using inductionOn generalizing room with
  | step n ih =>
    obtain ⟨hspan, hchildren⟩ := everywhere_iff.mp h
    obtain ⟨kind, text, span, children⟩ := n
    rw [toJson_eq, height, tidied, mapSpans, mapSpansList_eq_map]
    rcases room with _ | _ | room
    · simp [Json.obj, ofJson?]
    · rw [ofJson?_members hspan, listOfJson?, if_pos rfl, if_neg (by omega)]
      rfl
    · rw [ofJson?_members hspan, listOfJson?, if_neg (Nat.succ_ne_zero room), Nat.add_sub_cancel,
        listOfItems?_map_toJson fun c hc => ih c hc (hchildren c hc) room]
      by_cases hheight : 2 * heightList children ≤ room
      · rw [if_pos hheight, if_pos (by omega)]
        rfl
      · rw [if_neg hheight, if_neg (by omega)]
        rfl

end Node

/-! ### The text of a stored tree -/

namespace Generate

/-- **A tree comes back, and its text with it.**  Stored as JSON, on one line or over several and
with or without a line feed at the end, a tree with byte ranges of machine words can be read again
if and only if its JSON nests no deeper than a reader accepts, which means that no way down has
more than 63 nodes.  What is read is the tree with its empty byte ranges at the start, and what is
generated is the text of the tree, or the error that it has none. -/
theorem run_stored {n : Node} (hspans : n.Everywhere fun m => m.span.IsWord) {stored : String}
    (hstored : stored ∈ [n.toJson.compact, n.toJson.pretty, unlines [n.toJson.pretty]]) :
    (n.toJson.depth ≤ Json.depthLimit ↔ n.height ≤ 63) ∧
    Node.parseJson? stored = (if n.height ≤ 63 then some n.tidied else none) ∧
    ∀ verbosity, (run verbosity stored).outcome =
      if n.height ≤ 63 then (n.render .lineFeed).outcome.mapError .notRendered
      else .error .malformed := by
  have hdepth := n.depth_toJson
  have hlimit : 2 * n.height ≤ Json.depthLimit ↔ n.height ≤ 63 := by
    rw [Json.depthLimit]
    omega
  have hvalue : Json.parse? stored = some n.toJson := by
    simp only [List.mem_cons, List.not_mem_nil, or_false] at hstored
    rcases hstored with rfl | rfl | rfl
    · rw [← String.append_empty (s := n.toJson.compact)]
      exact Json.parse?_compact n.plain_toJson (by simp)
    · rw [← String.append_empty (s := n.toJson.pretty)]
      exact Json.parse?_pretty n.plain_toJson (by simp)
    · exact @Json.parse?_pretty _ n.plain_toJson "\n" (by simp [Json.Reader.isBlank])
  have hparse : Node.parseJson? stored = if n.height ≤ 63 then some n.tidied else none := by
    rw [Node.parseJson?, hvalue, Option.bind_some, Node.ofJson?_toJson hspans]
    simp only [hlimit]
  refine ⟨by rw [hdepth, hlimit], hparse, fun verbosity => ?_⟩
  rw [run, hparse]
  by_cases hheight : n.height ≤ 63
  · rw [if_pos hheight, if_pos hheight]
    change ((n.tidied.render .lineFeed).run verbosity).outcome.mapError _ = _
    rw [Node.steady_render, Node.tidied, Node.outcome_render_mapSpans]
  · rw [if_neg hheight, if_neg hheight]
    rfl

/-- The tree of a file with one call, whose end is an empty range. -/
def callTree (stop : Span) : Node :=
  ⟨Kind.sourceFile, "f();", ⟨0, 4⟩, [
    ⟨Kind.expressionStatement, "f();", ⟨0, 4⟩, [
      ⟨Kind.callExpression, "f()", ⟨0, 3⟩, [⟨Kind.identifier, "f", ⟨0, 1⟩, []⟩]⟩]⟩,
    ⟨Kind.endOfFile, "", stop, []⟩]⟩

theorem run_stored_callTree :
    (callTree ⟨4, 4⟩).Everywhere (fun m => m.span.IsWord) ∧
    Node.parseJson? (unlines [(callTree ⟨4, 4⟩).toJson.pretty]) = some (callTree ⟨0, 0⟩) ∧
    (run .debug (unlines [(callTree ⟨4, 4⟩).toJson.pretty])).outcome = .ok "f();\n" := by
  have hspans : (callTree ⟨4, 4⟩).Everywhere fun m => m.span.IsWord := by
    unfold Node.Everywhere
    decide +kernel
  obtain ⟨-, hparse, hrun⟩ := run_stored hspans
    (List.mem_cons_of_mem _ (List.mem_pair.mpr (.inr rfl)))
  refine ⟨hspans, hparse, (hrun .debug).trans ?_⟩
  decide +kernel

end Generate

end TreeMend
