import Mathlib.Data.List.Basic
import Schemata.DecodeError
import Schemata.Proofs.Indentation

/-!
# A drawn failure loses nothing

**Input.**  A decode failure: a forest of any shape.

**Algorithm.**  A node is found by the way to it, which is a list of visits: the index of each
node among its siblings, and whether one more sibling follows.  The ways are enumerated as the
forest is drawn, a node before the nodes below it (`ErrorNode.waysFrom`).  A line of the drawing
and an entry of the paths are each read off one way, without the rest of the forest.

**Results.**

* `ErrorNode.mem_waysFrom_zero` and `ErrorNode.waysFrom_sorted`: every way stands in the
  enumeration once, in the order of the indices.
* `ErrorNode.linesOfAll_eq` and `ErrorNode.pathsOfAll_eq`: the two traversals are one enumeration.
* `ErrorNode.oneLine_label`: the text of a node is a single line.
* `DecodeError.drawn_completely`: the drawing and the paths of a failure.
-/

namespace Schemata

/-! ## Texts of one line -/

namespace Text

/-- A text without line breaks. -/
def OneLine (text : String) : Prop := '\n' ∉ text.toList

instance (text : String) : Decidable (OneLine text) := inferInstanceAs (Decidable (¬ _))

variable {text other : String}

theorem oneLine_append : OneLine (text ++ other) ↔ OneLine text ∧ OneLine other := by
  rw [OneLine, String.toList_append, List.mem_append, not_or]
  rfl

/-- Characters of a single line make a single line. -/
theorem OneLine.of_subset (h : OneLine text) (hsubset : other.toList ⊆ text.toList) :
    OneLine other := fun hmem => h (hsubset hmem)

theorem OneLine.append (h : OneLine text) (h' : OneLine other) : OneLine (text ++ other) :=
  oneLine_append.2 ⟨h, h'⟩

theorem OneLine.intercalate (h : OneLine text) : ∀ {texts : List String},
    (∀ other ∈ texts, OneLine other) → OneLine (text.intercalate texts)
  | [], _ => by simp [OneLine]
  | [other], hall => by simpa using hall
  | other :: next :: rest, hall => by
      rw [String.intercalate_cons_cons]
      refine ((hall _ List.mem_cons_self).append h).append ?_
      exact OneLine.intercalate h fun d hd => hall d (List.mem_cons_of_mem _ hd)

theorem oneLine_repr (n : Nat) : OneLine (toString n) := by
  have hdigits : (toString n).toList = Nat.toDigits 10 n := Nat.toList_repr
  rw [OneLine, hdigits]
  exact break_notMem Char.isDigit (by decide) (Decimal.isDigit_of_mem_toDigits n)

/-- A text as messages show it is a single line. -/
theorem oneLine_display (text : String) : OneLine (display text) := by
  have hdigits : ∀ n, '\n' ∉ hexDigits n := fun n =>
    break_notMem Node.isPlain (by decide) Node.isPlain_of_mem_hexDigits
  have hchar : ∀ c, '\n' ∉ displayChar c := by
    intro c
    unfold displayChar
    split
    case h_7 hbreak =>
      split
      case isTrue => simp only [List.mem_append, hdigits]; decide
      case isFalse => exact fun hmem => hbreak (List.mem_singleton.1 hmem).symm
    all_goals decide
  rw [OneLine, display, String.toList_ofList]
  simp [hchar]

end Text

open Text (OneLine)

namespace Decimal

theorem oneLine_zeros (n : Nat) : OneLine (String.ofList (List.replicate n '0')) := by
  rw [OneLine, String.toList_ofList]
  exact Text.break_notMem Char.isDigit (by decide) (isDigit_of_mem_zeros n)

theorem oneLine_take {text : String} (h : OneLine text) (n : Nat) :
    OneLine (text.take n).toString :=
  h.of_subset (by simpa using List.take_subset n text.toList)

theorem oneLine_drop {text : String} (h : OneLine text) (n : Nat) :
    OneLine (text.drop n).toString :=
  h.of_subset (by simpa using List.drop_subset n text.toList)

theorem oneLine_positional (d : Scientific) (alwaysPoint : Bool) :
    OneLine (d.positional alwaysPoint) := by
  have hdigits := Text.oneLine_repr d.digits
  rw [Scientific.positional]
  split
  · refine (hdigits.append (oneLine_zeros _)).append ?_
    cases alwaysPoint <;> decide
  · dsimp only
    split
    · exact ((oneLine_take hdigits _).append (by decide)).append (oneLine_drop hdigits _)
    · exact .append (by decide) ((Text.OneLine.append (by decide) (oneLine_zeros _)).append hdigits)

theorem oneLine_exponential (d : Scientific) : OneLine d.exponential := by
  have hdigits := Text.oneLine_repr d.digits
  rw [Scientific.exponential]
  refine .append (.append (.append (.append (oneLine_take hdigits _) ?_) (by decide)) ?_)
    (Text.oneLine_repr _)
  · split
    · decide
    · exact .append (by decide) (oneLine_drop hdigits _)
  · split <;> decide

/-- The text of a float is a single line. -/
theorem oneLine_render (layout : Layout) (x : Float) : OneLine (layout.render x) := by
  rw [Layout.render]
  refine .append ?_ ?_
  · split <;> decide
  · rw [Layout.text]
    split
    · exact oneLine_positional _ _
    · exact oneLine_exponential _

end Decimal

namespace Json

theorem oneLine_stringText (text : String) : OneLine (stringText text) :=
  Text.break_notMem_quote (by decide) (by decide) text

theorem Number.oneLine_text (number : Number) : OneLine number.text := by
  cases number with
  | integer value =>
      cases value with
      | ofNat n => exact Text.oneLine_repr n
      | negSucc n =>
          have hsign : OneLine "-" := by decide
          exact hsign.append (Text.oneLine_repr (n + 1))
  | float value =>
      rw [Number.text]
      split
      · exact Decimal.oneLine_render _ _
      · decide

namespace Value

mutual
/-- The compact text of a value is a single line. -/
theorem oneLine_compact : ∀ value : Value, OneLine value.compact
  | .null => by decide
  | .bool value => by cases value <;> decide
  | .number value => value.oneLine_text
  | .string text => oneLine_stringText text
  | .array items => by
      rw [compact]
      have hitems := (show OneLine "," by decide).intercalate (oneLine_compactItems items)
      exact .append (.append (by decide) hitems) (by decide)
  | .object members => by
      rw [compact]
      have hmembers := (show OneLine "," by decide).intercalate (oneLine_compactMembers members)
      exact .append (.append (by decide) hmembers) (by decide)

theorem oneLine_compactItems : ∀ (items : List Value), ∀ text ∈ compactItems items, OneLine text
  | [] => nofun
  | item :: rest => by
      rw [compactItems, List.forall_mem_cons]
      exact ⟨oneLine_compact item, oneLine_compactItems rest⟩

theorem oneLine_compactMembers : ∀ (members : List (String × Value)),
    ∀ text ∈ compactMembers members, OneLine text
  | [] => nofun
  | (key, value) :: rest => by
      rw [compactMembers, List.forall_mem_cons]
      exact ⟨.append (.append (oneLine_stringText key) (by decide)) (oneLine_compact value),
        oneLine_compactMembers rest⟩
end

end Value
end Json

namespace ErrorNode

/-! ## Nodes by themselves -/

/-- The nodes right below a node. -/
def children : ErrorNode → List ErrorNode
  | .under _ errors => errors.toList
  | _ => []

/-- The text of a node in a drawing. -/
def label : ErrorNode → String
  | .leaf actual expected => leafMessage actual expected
  | .missing => missingMessage
  | .under step _ => step.label

/-- The message of a node that stands among the paths. -/
def message? : ErrorNode → Option String
  | .under step _ => step.message?
  | node => some node.label

/-- What a node adds to the paths of the nodes below it. -/
def segment : ErrorNode → String
  | .under step _ => step.segment
  | _ => ""

/-- What holds of a forest if it holds of the nodes below its first node and of the others holds
of every forest. -/
theorem forest_induction {motive : List ErrorNode → Prop} (nil : motive [])
    (cons : ∀ node rest, motive node.children → motive rest → motive (node :: rest)) :
    ∀ forest, motive forest
  | [] => nil
  | node :: rest => cons node rest (below node) (forest_induction nil cons rest)
where
  below : ∀ node : ErrorNode, motive node.children
    | .leaf _ _ => nil
    | .missing => nil
    | .under _ ⟨head, tail⟩ => cons head tail (below head) (forest_induction nil cons tail)

variable (guide path : String) (node : ErrorNode) (rest : List ErrorNode)

theorem lines_eq (lead : String) :
    node.lines lead guide = (lead ++ node.label) :: linesOfAll guide node.children := by
  cases node <;> rfl

theorem paths_eq : node.paths path =
    node.message?.toList.map (path, ·) ++ pathsOfAll (path ++ node.segment) node.children := by
  cases node with
  | leaf => rfl
  | missing => rfl
  | under step errors => rfl

theorem linesOfAll_cons : linesOfAll guide (node :: rest) =
    (branch guide rest.isEmpty ++ node.label) ::
      (linesOfAll (extend guide rest.isEmpty) node.children ++ linesOfAll guide rest) := by
  rw [linesOfAll, lines_eq, List.cons_append]

theorem pathsOfAll_cons : pathsOfAll path (node :: rest) =
    node.message?.toList.map (path, ·) ++ pathsOfAll (path ++ node.segment) node.children ++
      pathsOfAll path rest := by
  rw [pathsOfAll, paths_eq]

end ErrorNode

/-! ## Ways into a forest -/

/-- A node on the way into a forest. -/
structure Visit where
  /-- Its place among its siblings. -/
  index : Nat
  /-- Whether one more sibling follows it. -/
  followed : Bool
  node : ErrorNode

namespace Visit

/-- What stands right before the label of a node that is not at the top. -/
def corner (visit : Visit) : String := if visit.followed then "├─ " else "└─ "

/-- What a node that is not at the top adds to the left of all below it. -/
def guide (visit : Visit) : String := if visit.followed then "│  " else "   "

end Visit

namespace ErrorNode

/-- A way leads through a forest: each visit is of a node below the one before it. -/
def Leads : List ErrorNode → List Visit → Prop
  | _, [] => True
  | forest, visit :: rest =>
      forest[visit.index]? = some visit.node ∧
        (visit.followed = true ↔ visit.index + 1 < forest.length) ∧
          Leads visit.node.children rest

/-- The indices of a way. -/
def address (way : List Visit) : List Nat := way.map Visit.index

/-- The line of the last node of a way, from the second visit on. -/
def lineBelow : List Visit → String
  | [] => ""
  | [last] => last.corner ++ last.node.label
  | visit :: rest => visit.guide ++ lineBelow rest

/-- The line of the last node of a way: bare at the top, after guides and a corner below. -/
def line : List Visit → String
  | [] => ""
  | [top] => top.node.label
  | _ :: rest => lineBelow rest

/-- The entry of the last node of a way, if it has a message, after the segments of the nodes
before it. -/
def entry (path : String) : List Visit → Option (String × String)
  | [] => none
  | [last] => last.node.message?.map (path, ·)
  | visit :: rest => entry (path ++ visit.node.segment) rest

mutual
/-- The ways from a node to itself and all below it, in the order in which they are drawn. -/
def waysBelow : ErrorNode → List (List Visit)
  | .leaf _ _ => [[]]
  | .missing => [[]]
  | .under _ ⟨head, tail⟩ =>
      [] :: ((waysBelow head).map (⟨0, !tail.isEmpty, head⟩ :: ·) ++ waysFrom 1 tail)

/-- The ways into a forest whose first node has an index. -/
def waysFrom (index : Nat) : List ErrorNode → List (List Visit)
  | [] => []
  | node :: rest =>
      (waysBelow node).map (⟨index, !rest.isEmpty, node⟩ :: ·) ++ waysFrom (index + 1) rest
end

variable {index k : Nat} {followed : Bool} {node visited : ErrorNode} {forest rest : List ErrorNode}
  {visit : Visit} {way : List Visit}

theorem waysBelow_eq (node : ErrorNode) : node.waysBelow = [] :: waysFrom 0 node.children := by
  cases node <;> rfl

theorem waysFrom_cons : waysFrom index (node :: rest) =
    [⟨index, !rest.isEmpty, node⟩] ::
      ((waysFrom 0 node.children).map (⟨index, !rest.isEmpty, node⟩ :: ·) ++
        waysFrom (index + 1) rest) := by
  rw [waysFrom, waysBelow_eq, List.map_cons, List.cons_append]

/-- A way of the enumeration is through the first node, or past it. -/
theorem mem_waysFrom_cons : way ∈ waysFrom index (node :: rest) ↔
    (∃ below, (below = [] ∨ below ∈ waysFrom 0 node.children) ∧
      way = ⟨index, !rest.isEmpty, node⟩ :: below) ∨ way ∈ waysFrom (index + 1) rest := by
  rw [waysFrom_cons, List.mem_cons, List.mem_append, List.mem_map, ← or_assoc]
  refine or_congr_left ?_
  simp only [or_and_right, exists_or, exists_eq_left, eq_comm]

/-- A way of the enumeration begins at an index that is counted from. -/
theorem exists_of_mem_waysFrom : ∀ {forest : List ErrorNode} {index : Nat},
    way ∈ waysFrom index forest → ∃ visit below, way = visit :: below ∧ index ≤ visit.index
  | node :: rest, index, h => by
      rcases mem_waysFrom_cons.1 h with ⟨below, _, rfl⟩ | h
      · exact ⟨_, below, rfl, le_rfl⟩
      · obtain ⟨visit, below, rfl, hle⟩ := exists_of_mem_waysFrom h
        exact ⟨visit, below, rfl, by omega⟩

theorem le_of_mem_waysFrom (h : visit :: way ∈ waysFrom index forest) : index ≤ visit.index := by
  obtain ⟨_, _, heq, hle⟩ := exists_of_mem_waysFrom h
  rwa [(List.cons.inj heq).1]

theorem ne_nil_of_mem_waysFrom (h : way ∈ waysFrom index forest) : way ≠ [] := by
  obtain ⟨visit, below, rfl, _⟩ := exists_of_mem_waysFrom h
  exact List.cons_ne_nil visit below

theorem leads_zero : Leads (node :: rest) (⟨0, followed, visited⟩ :: way) ↔
    (followed = !rest.isEmpty ∧ visited = node) ∧ Leads node.children way := by
  have hfollowed : (followed = true ↔ 0 + 1 < (node :: rest).length) ↔
      followed = !rest.isEmpty := by
    cases rest <;> simp
  rw [Leads, hfollowed, List.getElem?_cons_zero, Option.some.injEq, and_assoc, eq_comm (a := node)]
  constructor
  · rintro ⟨rfl, hnext, hbelow⟩
    exact ⟨hnext, rfl, hbelow⟩
  · rintro ⟨hnext, rfl, hbelow⟩
    exact ⟨rfl, hnext, hbelow⟩

theorem leads_succ : Leads (node :: rest) (⟨k + 1, followed, visited⟩ :: way) ↔
    Leads rest (⟨k, followed, visited⟩ :: way) := by
  rw [Leads, Leads, List.getElem?_cons_succ, List.length_cons, Nat.add_lt_add_iff_right]

/-- **The ways of the enumeration are those that lead into the forest.** -/
theorem mem_waysFrom : ∀ (forest : List ErrorNode) (index : Nat) {k followed visited way},
    ⟨index + k, followed, visited⟩ :: way ∈ waysFrom index forest ↔
      Leads forest (⟨k, followed, visited⟩ :: way) := by
  refine forest_induction ?nil ?cons
  case nil =>
    intro index k followed visited way
    simp [waysFrom, Leads]
  case cons =>
    intro node rest ihchildren ihrest index k followed visited way
    have hbelow : way = [] ∨ way ∈ waysFrom 0 node.children ↔ Leads node.children way := by
      cases way with
      | nil => exact iff_of_true (.inl rfl) trivial
      | cons next way =>
          rw [← ihchildren 0, Nat.zero_add, or_iff_right (List.cons_ne_nil next way)]
    rw [mem_waysFrom_cons]
    simp only [List.cons.injEq, Visit.mk.injEq]
    -- The first node has the index itself, the others have greater ones.
    cases k with
    | zero =>
        have hpast : ¬ (⟨index + 0, followed, visited⟩ :: way) ∈ waysFrom (index + 1) rest :=
          fun h => absurd (le_of_mem_waysFrom h) (by simp)
        rw [or_iff_left hpast, leads_zero, ← hbelow]
        constructor
        · rintro ⟨below, hbelow, ⟨_, hnext, hnode⟩, rfl⟩
          exact ⟨⟨hnext, hnode⟩, hbelow⟩
        · rintro ⟨⟨hnext, hnode⟩, hbelow⟩
          exact ⟨way, hbelow, ⟨rfl, hnext, hnode⟩, rfl⟩
    | succ k =>
        rw [or_iff_right, leads_succ, ← ihrest (index + 1), Nat.add_right_comm,
          Nat.add_assoc]
        rintro ⟨_, _, ⟨hindex, _⟩, _⟩
        omega

theorem mem_waysFrom_zero : way ∈ waysFrom 0 forest ↔ way ≠ [] ∧ Leads forest way := by
  constructor
  · intro h
    obtain ⟨⟨k, followed, visited⟩, below, rfl, _⟩ := exists_of_mem_waysFrom h
    refine ⟨List.cons_ne_nil _ _, (mem_waysFrom forest 0).1 ?_⟩
    rwa [Nat.zero_add]
  · rintro ⟨hne, h⟩
    obtain ⟨⟨k, followed, visited⟩, below, rfl⟩ := List.exists_cons_of_ne_nil hne
    have hmem := (mem_waysFrom forest 0).2 h
    rwa [Nat.zero_add] at hmem

/-- **The ways of the enumeration are in order**, each of them once: a way before those that go
on from it, and those through a node before those through its later siblings. -/
theorem waysFrom_sorted : ∀ (forest : List ErrorNode) (index : Nat),
    (waysFrom index forest).Pairwise fun way next => address way < address next := by
  refine forest_induction ?nil ?cons
  case nil => exact fun _ => .nil
  case cons =>
    intro node rest ihchildren ihrest index
    have hchildren : ([] :: waysFrom 0 node.children).Pairwise
        fun way next => address way < address next := by
      refine .cons (fun next hnext => ?_) (ihchildren 0)
      obtain ⟨visit, below, rfl, _⟩ := exists_of_mem_waysFrom hnext
      exact List.nil_lt_cons _ _
    rw [waysFrom, waysBelow_eq]
    refine List.pairwise_append.2 ⟨?_, ihrest (index + 1), ?_⟩
    · refine List.pairwise_map.2 (hchildren.imp fun hlt => ?_)
      exact List.cons_lt_cons_iff.2 (.inr ⟨rfl, hlt⟩)
    · intro way hway next hnext
      obtain ⟨below, _, rfl⟩ := List.mem_map.1 hway
      obtain ⟨visit, below', rfl, hle⟩ := exists_of_mem_waysFrom hnext
      exact List.cons_lt_cons_iff.2 (.inl hle)

/-! ## Both traversals are the enumeration -/

theorem branch_eq (guide : String) (last : Bool) (index : Nat) (node : ErrorNode) :
    branch guide last = guide ++ (Visit.mk index (!last) node).corner := by
  cases last <;> rfl

theorem extend_eq (guide : String) (last : Bool) (index : Nat) (node : ErrorNode) :
    extend guide last = guide ++ (Visit.mk index (!last) node).guide := by
  cases last <;> rfl

theorem lineBelow_cons (h : way ≠ []) :
    lineBelow (visit :: way) = visit.guide ++ lineBelow way := by
  cases way with
  | nil => exact absurd rfl h
  | cons _ _ => rfl

theorem entry_cons (path : String) (h : way ≠ []) :
    entry path (visit :: way) = entry (path ++ visit.node.segment) way := by
  cases way with
  | nil => exact absurd rfl h
  | cons _ _ => rfl

/-- **The lines below a guide are those of the ways.** -/
theorem linesOfAll_eq : ∀ (forest : List ErrorNode) (index : Nat) {guide : String},
    linesOfAll guide forest = (waysFrom index forest).map (guide ++ lineBelow ·) := by
  refine forest_induction ?nil ?cons
  case nil => exact fun _ _ => rfl
  case cons =>
    intro node rest ihchildren ihrest index guide
    rw [linesOfAll_cons, waysFrom_cons, List.map_cons, List.map_append, List.map_map,
      ihrest (index + 1), ihchildren 0]
    congr 1
    · rw [branch_eq guide rest.isEmpty index node, String.append_assoc]
      rfl
    · congr 1
      refine List.map_congr_left fun way hway => ?_
      rw [Function.comp_apply, lineBelow_cons (ne_nil_of_mem_waysFrom hway),
        extend_eq guide rest.isEmpty index node, String.append_assoc]

/-- **The paths are the entries of the ways.** -/
theorem pathsOfAll_eq : ∀ (forest : List ErrorNode) (index : Nat) {path : String},
    pathsOfAll path forest = (waysFrom index forest).filterMap (entry path) := by
  refine forest_induction ?nil ?cons
  case nil => exact fun _ _ => rfl
  case cons =>
    intro node rest ihchildren ihrest index path
    have hnode : node.message?.toList.map (path, ·) =
        [[Visit.mk index (!rest.isEmpty) node]].filterMap (entry path) := by
      cases hmessage : node.message? <;> simp [entry, hmessage]
    have hchildren : (waysFrom 0 node.children).filterMap (entry (path ++ node.segment)) =
        ((waysFrom 0 node.children).map (⟨index, !rest.isEmpty, node⟩ :: ·)).filterMap
          (entry path) := by
      rw [List.filterMap_map]
      refine List.filterMap_congr fun way hway => ?_
      rw [Function.comp_apply, entry_cons path (ne_nil_of_mem_waysFrom hway)]
    rw [pathsOfAll_cons, waysFrom_cons, hnode, ihchildren 0, hchildren, ihrest (index + 1),
      ← List.filterMap_append, ← List.filterMap_append]
    rfl

/-! ## Labels of one line -/

/-- Whether a step takes no line break over, from the id of a lazy schema or from a message. -/
def unbrokenStep : Step → Bool
  | .lazy id => decide (OneLine id)
  | .wrap message => decide (OneLine message)
  | _ => true

mutual
/-- Whether no id, expected label or message of a node or below it has a line break. -/
def unbroken : ErrorNode → Bool
  | .leaf _ expected => decide (OneLine expected)
  | .missing => true
  | .under step ⟨head, tail⟩ => unbrokenStep step && (unbroken head && unbrokenAll tail)

def unbrokenAll : List ErrorNode → Bool
  | [] => true
  | node :: rest => unbroken node && unbrokenAll rest
end

theorem unbroken_of_getElem? : ∀ {forest : List ErrorNode} {i : Nat},
    unbrokenAll forest = true → forest[i]? = some node → node.unbroken = true
  | first :: rest, 0, h, hnode => by
      rw [unbrokenAll, Bool.and_eq_true] at h
      obtain rfl := Option.some.inj hnode
      exact h.1
  | first :: rest, i + 1, h, hnode => by
      rw [unbrokenAll, Bool.and_eq_true] at h
      exact unbroken_of_getElem? h.2 hnode

theorem unbrokenAll_children (h : node.unbroken = true) : unbrokenAll node.children = true := by
  cases node with
  | leaf => rfl
  | missing => rfl
  | under step errors =>
      rw [unbroken, Bool.and_eq_true] at h
      exact h.2

theorem unbroken_of_leads : ∀ {way : List Visit} {forest : List ErrorNode},
    unbrokenAll forest = true → Leads forest way → ∀ visit ∈ way, visit.node.unbroken = true
  | [], _, _, _ => nofun
  | visit :: way, forest, h, ⟨hnode, _, hway⟩ => by
      have hvisit := unbroken_of_getElem? h hnode
      exact List.forall_mem_cons.2 ⟨hvisit, unbroken_of_leads (unbrokenAll_children hvisit) hway⟩

theorem oneLine_stepLabel {step : Step} (h : unbrokenStep step = true) : OneLine step.label := by
  cases step with
  | key name kind =>
      refine .append (.append ?_ (by decide)) (Text.oneLine_display name)
      cases kind <;> decide
  | index position kind =>
      refine .append (.append ?_ (by decide)) (Text.oneLine_repr position)
      cases kind <;> decide
  | member position => exact .append (by decide) (Text.oneLine_repr position)
  | lazy id => exact .append (by decide) (of_decide_eq_true h)
  | wrap message => exact of_decide_eq_true h

/-- **The text of a node is a single line**, whatever the value and the key in it are. -/
theorem oneLine_label (h : node.unbroken = true) : OneLine node.label := by
  cases node with
  | leaf actual expected =>
      have hexpected : OneLine expected := of_decide_eq_true h
      exact .append (.append (.append (by decide) hexpected) (by decide)) actual.oneLine_compact
  | missing => decide
  | under step errors =>
      rw [unbroken, Bool.and_eq_true] at h
      exact oneLine_stepLabel h.1

theorem oneLine_lineBelow : ∀ {way : List Visit},
    (∀ visit ∈ way, OneLine visit.node.label) → OneLine (lineBelow way)
  | [], _ => by decide
  | [last], h => by
      refine .append ?_ (h last List.mem_cons_self)
      rw [Visit.corner]
      split <;> decide
  | visit :: next :: rest, h => by
      refine .append ?_ (oneLine_lineBelow fun visit hvisit => h visit (.tail _ hvisit))
      rw [Visit.guide]
      split <;> decide

theorem oneLine_line {way : List Visit} (h : ∀ visit ∈ way, OneLine visit.node.label) :
    OneLine (line way) := by
  match way with
  | [] => decide
  | [top] => exact h top List.mem_cons_self
  | _ :: next :: rest => exact oneLine_lineBelow fun visit hvisit => h visit (.tail _ hvisit)

end ErrorNode

namespace DecodeError

open ErrorNode

theorem flatMap_lines_eq : ∀ (forest : List ErrorNode) (index : Nat),
    forest.flatMap (ErrorNode.lines "" "") = (waysFrom index forest).map line
  | [], _ => rfl
  | node :: rest, index => by
      rw [List.flatMap_cons, lines_eq, waysFrom_cons, List.map_cons, List.map_append, List.map_map,
        flatMap_lines_eq rest (index + 1), linesOfAll_eq node.children 0,
        List.cons_append, String.empty_append]
      refine congrArg (node.label :: · ++ _) (List.map_congr_left fun way hway => ?_)
      obtain ⟨visit, below, rfl, _⟩ := exists_of_mem_waysFrom hway
      exact String.empty_append

theorem lines_eq (error : DecodeError) : error.lines = (waysFrom 0 error.toList).map line :=
  flatMap_lines_eq error.toList 0

/-- **A drawn failure loses nothing.**  There is a list of all the ways into the forest, each of
them once, a node before the nodes below it and those before its later siblings.  The lines of
the drawing are the lines of these ways, and the paths are their entries, one for each node that
has a message. -/
theorem drawn_completely (error : DecodeError) (h : unbrokenAll error.toList = true) :
    ∃ ways : List (List Visit),
      ways.Pairwise (fun way next => address way < address next) ∧
      (∀ way, way ∈ ways ↔ way ≠ [] ∧ Leads error.toList way) ∧
      error.draw.toList.splitOn '\n' = ways.map (fun way => (line way).toList) ∧
      error.paths = ways.filterMap (entry "") := by
  refine ⟨waysFrom 0 error.toList, waysFrom_sorted _ 0, fun _ => mem_waysFrom_zero, ?_,
    pathsOfAll_eq _ 0⟩
  have hlines : error.draw.toList =
      ['\n'].intercalate ((waysFrom 0 error.toList).map fun way => (line way).toList) := by
    rw [draw, lines_eq, String.toList_intercalate, List.map_map]
    rfl
  rw [hlines]
  refine List.splitOn_intercalate '\n' ?_ ?_
  · intro text htext
    obtain ⟨way, hway, rfl⟩ := List.mem_map.1 htext
    exact oneLine_line fun visit hvisit =>
      oneLine_label (unbroken_of_leads h (mem_waysFrom_zero.1 hway).2 visit hvisit)
  · rw [NonEmpty.toList, waysFrom_cons]
    exact List.cons_ne_nil _ _

/-- Two properties, two indices below the second one. -/
def sampleForest : DecodeError :=
  ⟨.under (.key "name" .required) (leaf (.number (.integer 42)) "string"),
    [.under (.key "tags" .required)
      ⟨.under (.index 0 .optional) (leaf .null "string"), [.under (.index 2 .optional) missing]⟩]⟩

example : sampleForest.lines = [
    "required property \"name\"",
    "└─ expected string, got 42",
    "required property \"tags\"",
    "├─ optional index 0",
    "│  └─ expected string, got null",
    "└─ optional index 2",
    "   └─ missing required value"] := by decide +kernel

theorem sampleForest_drawn_completely :
    unbrokenAll sampleForest.toList = true ∧
      ∃ ways : List (List Visit),
        ways.Pairwise (fun way next => address way < address next) ∧
        (∀ way, way ∈ ways ↔ way ≠ [] ∧ Leads sampleForest.toList way) ∧
        sampleForest.draw.toList.splitOn '\n' = ways.map (fun way => (line way).toList) ∧
        sampleForest.paths = ways.filterMap (entry "") :=
  have h : unbrokenAll sampleForest.toList = true := by decide
  ⟨h, drawn_completely sampleForest h⟩

end DecodeError
end Schemata
