import Schemata.Node.Printer
import Schemata.Proofs.Spelling

/-!
# Trees of one text are the same

**Input.**  Trees of the forms of which generated source is made (`Regular`), in either style.

**Algorithm.**  A text is read from the left.  The first word and the character after it tell
the form of the expression with which it begins (`formOf`), since no expression is followed by
a bracket that opens.  Then the parts are read one after the other.  A list goes on after a
separator and ends before another character, neither of which begins an item.

**Results.**

* `Separates.listed_unique`: a list is read in one way if its items are.
* `Callee.unique`: what is called is read in one way.
* `Regular.formOf_chars`: the first characters of a regular tree tell its form.
* `Regular.reads`: a regular tree is read in one way from the start of a text.
* `Regular.eq_of_write`: regular trees of one text are the same.
-/

namespace Schemata

namespace Node

open Literal (isWordPart)

/-! ## Lists in source -/

/-- What can follow an expression in source. -/
def Ends (rest : List Char) : Prop := ∀ c ∈ rest.head?, c ∈ [',', ')', ']', ';', ' ', '\n']

/-- An item of a kind is read in one way from the start of a text, where an end follows. -/
def Reads {α : Type} (kind : α → Prop) (text : α → List Char) (item : α) : Prop :=
  ∀ other, kind other → ∀ rest rest', Ends rest → Ends rest' →
    text item ++ rest = text other ++ rest' → item = other ∧ rest = rest'

/-- A separator and what comes after the last item are told apart, and both are ends. -/
structure Separates (separator close : List Char) : Prop where
  separator_ends : ∀ rest, Ends (separator ++ rest)
  close_ends : ∀ rest, Ends (close ++ rest)
  ne : ∀ rest rest', separator ++ rest ≠ close ++ rest'

/-- Further items of a list, each after a separator, and what comes after the last one. -/
def further {α : Type} (separator close : List Char) (text : α → List Char) (rest : List Char) :
    List α → List Char
  | [] => close ++ rest
  | item :: others => separator ++ (text item ++ further separator close text rest others)

/-- The items of a list with a separator between them, and what comes after the last one. -/
def listed {α : Type} (separator close : List Char) (text : α → List Char) (rest : List Char) :
    List α → List Char
  | [] => close ++ rest
  | item :: others => text item ++ further separator close text rest others

theorem not_isWordPart_of_ends {rest : List Char} (h : Ends rest) :
    ∀ c ∈ rest.head?, isWordPart c = false := by
  have hends : [',', ')', ']', ';', ' ', '\n'].all (fun c => !isWordPart c) = true := by decide
  exact fun c hc => (Bool.not_eq_true' _).mp (List.all_eq_true.1 hends c (h c hc))

theorem ends_cons {c : Char} (h : c ∈ [',', ')', ']', ';', ' ', '\n']) (rest : List Char) :
    Ends (c :: rest) := by
  rintro d ⟨⟩
  exact h

section Lists

variable {α : Type} {kind : α → Prop} {text : α → List Char} {separator close : List Char}
  {rest rest' : List Char}

theorem Separates.further_ends (h : Separates separator close) (items : List α) :
    Ends (further separator close text rest items) := by
  cases items with
  | nil => exact h.close_ends rest
  | cons item others => exact h.separator_ends _

/-- Lists that are not empty are read in one way if what comes after their first items is. -/
theorem Separates.cons_unique (h : Separates separator close) {item other : α}
    {items others : List α} (hitem : Reads kind text item) (hother : kind other)
    (hfurther : further separator close text rest items =
      further separator close text rest' others → items = others ∧ rest = rest')
    (heq : listed separator close text rest (item :: items) =
      listed separator close text rest' (other :: others)) :
    item :: items = other :: others ∧ rest = rest' := by
  obtain ⟨rfl, hafter⟩ := hitem other hother _ _ (h.further_ends items) (h.further_ends others) heq
  obtain ⟨rfl, hrest⟩ := hfurther hafter
  exact ⟨rfl, hrest⟩

theorem Separates.further_unique (h : Separates separator close) : ∀ {items others : List α},
    (∀ item ∈ items, Reads kind text item) → (∀ other ∈ others, kind other) →
    further separator close text rest items = further separator close text rest' others →
    items = others ∧ rest = rest'
  | [], [], _, _, heq => ⟨rfl, List.append_cancel_left heq⟩
  | [], other :: others, _, _, heq => absurd heq.symm (h.ne _ _)
  | item :: items, [], _, _, heq => absurd heq (h.ne _ _)
  | item :: items, other :: others, hitems, hothers, heq => by
      obtain ⟨hitem, hitems⟩ := List.forall_mem_cons.1 hitems
      obtain ⟨hother, hothers⟩ := List.forall_mem_cons.1 hothers
      exact h.cons_unique hitem hother (h.further_unique hitems hothers)
        (List.append_cancel_left heq)

/-- **A list is read in one way** if its items are, and no item begins with an end. -/
theorem Separates.listed_unique (h : Separates separator close) (kind : α → Prop)
    {items others : List α} (hends : ∀ item, kind item → ∀ rest, ¬ Ends (text item ++ rest))
    (hkind : ∀ item ∈ items, kind item) (hitems : ∀ item ∈ items, Reads kind text item)
    (hothers : ∀ other ∈ others, kind other)
    (heq : listed separator close text rest items = listed separator close text rest' others) :
    items = others ∧ rest = rest' := by
  cases items with
  | nil =>
      cases others with
      | nil => exact ⟨rfl, List.append_cancel_left heq⟩
      | cons other others =>
          have hclose := h.close_ends rest
          rw [listed, listed] at heq
          rw [heq] at hclose
          exact absurd hclose (hends other (hothers other List.mem_cons_self) _)
  | cons item items =>
      cases others with
      | nil =>
          have hclose := h.close_ends rest'
          rw [listed, listed] at heq
          rw [← heq] at hclose
          exact absurd hclose (hends item (hkind item List.mem_cons_self) _)
      | cons other others =>
          obtain ⟨hitem, hitems⟩ := List.forall_mem_cons.1 hitems
          obtain ⟨hother, hothers⟩ := List.forall_mem_cons.1 hothers
          exact h.cons_unique hitem hother (h.further_unique hitems hothers) heq

/-- The text of a list, and what follows it. -/
theorem toList_intercalate_append (separator : String) (text : α → String) (close rest : List Char)
    (items : List α) :
    (separator.intercalate (items.map text)).toList ++ (close ++ rest) =
      listed separator.toList close (fun item => (text item).toList) rest items := by
  have hfurther : ∀ others : List α,
      (others.flatMap fun other => separator.toList ++ (text other).toList) ++ (close ++ rest) =
        further separator.toList close (fun item => (text item).toList) rest others := by
    intro others
    induction others with
    | nil => rfl
    | cons other others ih =>
        rw [List.flatMap_cons, List.append_assoc, ih, further, List.append_assoc]
  have hcons : ∀ (item : List Char) (others : List α),
      separator.toList.intercalate (item :: others.map fun other => (text other).toList) =
        item ++ others.flatMap fun other => separator.toList ++ (text other).toList := by
    intro item others
    induction others generalizing item with
    | nil => simp [List.intercalate]
    | cons other others ih =>
        rw [List.map_cons, List.intercalate_cons_cons, ih, List.flatMap_cons]
        simp
  rw [String.toList_intercalate]
  cases items with
  | nil => rfl
  | cons item others =>
      rw [List.map_cons, List.map_cons, List.map_map]
      simp only [Function.comp_def]
      rw [hcons, List.append_assoc, hfurther, listed]

end Lists

/-! ## Texts of trees -/

section Texts

variable (style : Style) (depth : Nat)

/-- The characters of a tree that stands at a depth. -/
def chars (node : Node) : List Char := (node.write style depth).toList

theorem chars_eq (node : Node) : chars style depth node = (node.write style depth).toList := rfl

def fieldChars (field : String × Node) : List Char :=
  (propertyKey field.1).toList ++ ':' :: ' ' :: chars style depth field.2

def gapChars : List Char := (style.gap depth).toList

theorem gapChars_begins : ∃ c rest, gapChars style depth = c :: rest ∧ c ∈ [' ', '\n'] := by
  cases style with
  | line => exact ⟨' ', [], by simp [gapChars, Style.gap], by decide⟩
  | indented => exact ⟨'\n', _, String.toList_append, by decide⟩

variable {style depth}

theorem writeAll_eq_map (nodes : List Node) :
    writeAll style depth nodes = nodes.map (write style depth) := by
  induction nodes with
  | nil => rw [writeAll, List.map_nil]
  | cons node nodes ih => rw [writeAll, ih, List.map_cons]

theorem writeFields_eq_map (fields : List (String × Node)) :
    writeFields style depth fields =
      fields.map fun field => propertyKey field.1 ++ ": " ++ field.2.write style depth := by
  induction fields with
  | nil => rw [writeFields, List.map_nil]
  | cons field fields ih =>
      obtain ⟨key, node⟩ := field
      rw [writeFields, ih, List.map_cons]

variable (rest : List Char)

theorem chars_array (items : List Node) :
    chars style depth (.array items) ++ rest =
      '[' :: listed [',', ' '] [']'] (chars style depth) rest items := by
  have hitems := toList_intercalate_append ", " (write style depth) [']'] rest items
  rw [chars, write, writeAll_eq_map]
  simpa [← chars_eq] using hitems

theorem chars_call (callee : Node) (args : List Node) :
    chars style depth (.call callee args) ++ rest =
      chars style depth callee ++
        '(' :: listed [',', ' '] [')'] (chars style depth) rest args := by
  have hargs := toList_intercalate_append ", " (write style depth) [')'] rest args
  rw [chars, write, writeAll_eq_map]
  simpa [← chars_eq] using hargs

theorem chars_object (field : String × Node) (fields : List (String × Node)) :
    chars style depth (.object (field :: fields)) ++ rest =
      '\x7b' :: (gapChars style (depth + 1) ++
        listed (',' :: gapChars style (depth + 1)) (gapChars style depth ++ ['\x7d'])
          (fieldChars style (depth + 1)) rest (field :: fields)) := by
  have hfields := toList_intercalate_append ("," ++ style.gap (depth + 1))
    (fun field : String × Node => propertyKey field.1 ++ ": " ++ field.2.write style (depth + 1))
    (gapChars style depth ++ ['\x7d']) rest (field :: fields)
  have hfield : (fun field : String × Node =>
      (propertyKey field.1 ++ ": " ++ field.2.write style (depth + 1)).toList) =
      fieldChars style (depth + 1) := by
    funext field
    simp [fieldChars, chars]
  rw [hfield] at hfields
  rw [chars, write, writeFields_eq_map]
  simpa [gapChars] using hfields

theorem chars_function (name : String) (body : Node) :
    chars style depth (.function name body) ++ rest =
      "function".toList ++ ' ' :: ((identifier name).toList ++ '(' :: ')' :: ' ' :: '\x7b' ::
        (gapChars style (depth + 1) ++ ("return ".toList ++ (chars style (depth + 1) body ++
          ';' :: (gapChars style depth ++ '\x7d' :: rest))))) := by
  rw [chars, write]
  simp [gapChars, chars]

end Texts

/-! ## Regular trees -/

/-- What is called: an identifier, or a method of one. -/
inductive Callee : Node → Prop
  | ident (name : String) : Callee (.ident name)
  | method (root : String) {name : String} : name.toList.all isPart = true →
      Callee (.member (.ident root) name)

/-- Trees that are read in one way: what generated source is made of. -/
inductive Regular : Node → Prop
  | text (text : String) : Regular (.literal (.string text))
  | word {value : Literal} : value.isText = false → value.isNaN = false →
      Regular (.literal value)
  | array {items : List Node} : (∀ item ∈ items, Regular item) → Regular (.array items)
  | object {fields : List (String × Node)} : (∀ field ∈ fields, Regular field.2) →
      Regular (.object fields)
  | function (name : String) {body : Node} : Regular body → Regular (.function name body)
  | call {callee : Node} {args : List Node} : Callee callee → (∀ arg ∈ args, Regular arg) →
      Regular (.call callee args)
  /-- A call of what a call gives. -/
  | curried {callee : Node} {args others : List Node} : Callee callee →
      (∀ arg ∈ args, Regular arg) → (∀ other ∈ others, Regular other) →
      Regular (.call (.call callee args) others)

/-- What the first characters of an expression tell about it. -/
inductive Form where
  | text
  | word
  | array
  | object
  | function
  | call
deriving DecidableEq, Repr

def form : Node → Form
  | .literal (.string _) => .text
  | .literal _ => .word
  | .array _ => .array
  | .object _ => .object
  | .function _ _ => .function
  | _ => .call

theorem form_word {value : Literal} (h : value.isText = false) :
    (literal value).form = .word := by
  cases value with
  | string text => cases h
  | _ => rfl

/-- The form of the expression with which a text begins: it goes by the character after the
first word. -/
def formOf (text : List Char) : Form :=
  match (text.dropWhile isWordPart).head? with
  | some '"' => .text
  | some '[' => .array
  | some '\x7b' => .object
  | some '(' => .call
  | _ => if text.takeWhile isWordPart = "function".toList then .function else .word

section Forms

variable {style : Style} {depth : Nat} {rest rest' : List Char}

theorem takeWhile_word {word : List Char} (hword : ∀ c ∈ word, isWordPart c = true)
    (hrest : ∀ c ∈ rest.head?, isWordPart c = false) :
    (word ++ rest).takeWhile isWordPart = word ∧ (word ++ rest).dropWhile isWordPart = rest := by
  rw [List.takeWhile_append_of_pos hword, List.dropWhile_append_of_pos hword]
  cases rest with
  | nil => exact ⟨List.append_nil _, rfl⟩
  | cons c rest => simp [hrest c rfl]

theorem Callee.parts {callee : Node} (h : Callee callee) :
    chars style depth callee ≠ [] ∧ ∀ c ∈ chars style depth callee, isWordPart c = true := by
  cases h with
  | ident name =>
      obtain ⟨hne, hparts⟩ := identifier_parts name
      rw [chars, write]
      exact ⟨hne, fun c hc => Literal.isWordPart_of_isPart (hparts c hc)⟩
  | @method root name hname =>
      obtain ⟨hne, hparts⟩ := identifier_parts root
      have htext : chars style depth (.member (.ident root) name) =
          (identifier root).toList ++ '.' :: name.toList := by
        simp [chars, write]
      rw [htext]
      refine ⟨List.append_ne_nil_of_left_ne_nil hne _, fun c hc => ?_⟩
      rcases List.mem_append.1 hc with hc | hc
      · exact Literal.isWordPart_of_isPart (hparts c hc)
      · rcases List.mem_cons.1 hc with rfl | hc
        · decide
        · exact Literal.isWordPart_of_isPart (List.all_eq_true.1 hname c hc)

/-- A callee is read in one way, up to the bracket after it. -/
theorem Callee.unique {callee other : Node} (h : Callee callee) (h' : Callee other)
    (heq : chars style depth callee ++ '(' :: rest = chars style depth other ++ '(' :: rest') :
    callee = other ∧ rest = rest' := by
  have hbracket := Text.head?_cons_kind isPart (c := '(') (by decide)
  have hpoint := Text.head?_cons_kind isPart (c := '.') (by decide)
  have hmember : ∀ root name, chars style depth (.member (.ident root) name) =
      (identifier root).toList ++ '.' :: name.toList := by
    intro root name
    simp [chars, write]
  have hident : ∀ name, chars style depth (.ident name) = (identifier name).toList := by
    intro name
    rw [chars, write]
  cases h with
  | ident name =>
      cases h' with
      | ident name' =>
          rw [hident, hident] at heq
          obtain ⟨hname, hrest⟩ := Text.run_unique isPart (identifier_parts name).2
            (identifier_parts name').2 (hbracket _) (hbracket _) heq
          rw [identifier_injective (String.toList_inj.1 hname)]
          exact ⟨rfl, (List.cons.inj hrest).2⟩
      | @method root name' _ =>
          rw [hident, hmember, List.append_assoc] at heq
          obtain ⟨_, hrest⟩ := Text.run_unique isPart (identifier_parts name).2
            (identifier_parts root).2 (hbracket _) (hpoint _) heq
          exact absurd (List.cons.inj hrest).1 (by decide)
  | @method root name hname =>
      cases h' with
      | ident name' =>
          rw [hident, hmember, List.append_assoc] at heq
          obtain ⟨_, hrest⟩ := Text.run_unique isPart (identifier_parts root).2
            (identifier_parts name').2 (hpoint _) (hbracket _) heq
          exact absurd (List.cons.inj hrest).1 (by decide)
      | @method root' name' hname' =>
          rw [hmember, hmember, List.append_assoc, List.append_assoc] at heq
          obtain ⟨hroot, hrest⟩ := Text.run_unique isPart (identifier_parts root).2
            (identifier_parts root').2 (hpoint _) (hpoint _) heq
          obtain ⟨hname, hrest⟩ := Text.run_unique isPart (List.all_eq_true.1 hname)
            (List.all_eq_true.1 hname') (hbracket _) (hbracket _) (List.cons.inj hrest).2
          rw [identifier_injective (String.toList_inj.1 hroot), String.toList_inj.1 hname]
          exact ⟨rfl, (List.cons.inj hrest).2⟩

/-- A word and the character after it tell the form of an expression. -/
theorem formOf_append (word : List Char) (hword : ∀ c ∈ word, isWordPart c = true)
    (hrest : ∀ c ∈ rest.head?, isWordPart c = false) :
    formOf (word ++ rest) =
      match rest.head? with
      | some '"' => .text
      | some '[' => .array
      | some '\x7b' => .object
      | some '(' => .call
      | _ => if word = "function".toList then .function else .word := by
  obtain ⟨htake, hdrop⟩ := takeWhile_word hword hrest
  rw [formOf, htake, hdrop]

theorem function_word : ∀ c ∈ "function".toList, isWordPart c = true :=
  List.all_eq_true.1 (by decide)

theorem formOf_of_ends {word : List Char} (hword : ∀ c ∈ word, isWordPart c = true)
    (hends : Ends rest) :
    formOf (word ++ rest) = if word = "function".toList then .function else .word := by
  rw [formOf_append word hword (not_isWordPart_of_ends hends)]
  cases rest with
  | nil => rfl
  | cons c rest =>
      have hc := hends c rfl
      simp only [List.mem_cons, List.not_mem_nil, or_false] at hc
      rcases hc with rfl | rfl | rfl | rfl | rfl | rfl <;> rfl

/-- **The first characters of a regular tree tell its form.** -/
theorem Regular.formOf_chars {node : Node} (h : Regular node) (hends : Ends rest) :
    formOf (chars style depth node ++ rest) = node.form := by
  cases h with
  | text text =>
      rw [chars, write, Literal.source, toList_stringSource]
      exact formOf_append [] nofun (Text.head?_cons_kind _ (by decide) _)
  | @word value htext _ =>
      obtain ⟨hword, _, hfunction⟩ := Literal.source_word htext
      rw [chars, write, formOf_of_ends hword hends, form_word htext,
        if_neg fun h => hfunction (String.toList_inj.1 h)]
  | array _ =>
      rw [chars_array]
      exact formOf_append [] nofun (Text.head?_cons_kind _ (by decide) _)
  | @object fields _ =>
      cases fields with
      | nil =>
          rw [chars, write]
          exact formOf_append [] nofun (Text.head?_cons_kind _ (by decide) _)
      | cons field fields =>
          rw [chars_object]
          exact formOf_append [] nofun (Text.head?_cons_kind _ (by decide) _)
  | function name _ =>
      rw [chars_function, formOf_of_ends function_word (ends_cons (by decide) _), if_pos rfl]
      rfl
  | call hcallee _ =>
      rw [chars_call]
      exact formOf_append _ hcallee.parts.2 (Text.head?_cons_kind _ (by decide) _)
  | curried hcallee _ _ =>
      rw [chars_call, chars_call]
      exact formOf_append _ hcallee.parts.2 (Text.head?_cons_kind _ (by decide) _)

theorem not_ends_cons {c : Char} (h : c ∉ [',', ')', ']', ';', ' ', '\n']) :
    ¬ Ends (c :: rest) := fun hends => h (hends c rfl)

theorem not_ends_word {word : List Char} (hne : word ≠ [])
    (hword : ∀ c ∈ word, isWordPart c = true) : ¬ Ends (word ++ rest) := by
  obtain ⟨c, others, rfl⟩ := List.exists_cons_of_ne_nil hne
  intro hends
  have hc := not_isWordPart_of_ends hends c rfl
  rw [hword c List.mem_cons_self] at hc
  cases hc

/-- No regular tree begins as the end of another one. -/
theorem Regular.not_ends {node : Node} (h : Regular node) :
    ¬ Ends (chars style depth node ++ rest) := by
  cases h with
  | text text =>
      rw [chars, write, Literal.source, toList_stringSource]
      exact not_ends_cons (by decide)
  | word htext _ =>
      obtain ⟨hword, hne, _⟩ := Literal.source_word htext
      rw [chars, write]
      exact not_ends_word hne hword
  | array _ =>
      rw [chars_array]
      exact not_ends_cons (by decide)
  | @object fields _ =>
      cases fields with
      | nil =>
          rw [chars, write]
          exact not_ends_cons (by decide)
      | cons field fields =>
          rw [chars_object]
          exact not_ends_cons (by decide)
  | function name _ =>
      rw [chars_function]
      exact not_ends_word (by decide) function_word
  | call hcallee _ =>
      rw [chars_call]
      exact not_ends_word hcallee.parts.1 hcallee.parts.2
  | curried hcallee _ _ =>
      rw [chars_call, chars_call]
      exact not_ends_word hcallee.parts.1 hcallee.parts.2

/-! ## One way to read -/

theorem separates_items {close : Char} (h : close ∈ [')', ']']) : Separates [',', ' '] [close] where
  separator_ends _ := ends_cons (by decide) _
  close_ends rest := ends_cons ((by decide : [')', ']'] ⊆ [',', ')', ']', ';', ' ', '\n']) h) rest
  ne rest rest' heq := by
    rw [← (List.cons.inj heq).1] at h
    exact absurd h (by decide)

theorem separates_fields (depth' : Nat) :
    Separates (',' :: gapChars style depth') (gapChars style depth ++ ['\x7d']) := by
  obtain ⟨c, others, hgap, hc⟩ := gapChars_begins style depth
  have hsubset : ([' ', '\n'] : List Char) ⊆ [',', ')', ']', ';', ' ', '\n'] := by decide
  rw [hgap]
  constructor
  · exact fun _ => ends_cons (by decide) _
  · exact fun _ => ends_cons (hsubset hc) _
  · intro _ _ heq
    rw [← (List.cons.inj heq).1] at hc
    exact absurd hc (by decide)

/-- Arguments are read in one way, up to the bracket that closes them. -/
theorem args_unique (close : Char) (hclose : close ∈ [')', ']']) {items others : List Node}
    (hregular : ∀ item ∈ items, Regular item)
    (hitems : ∀ item ∈ items, Reads Regular (chars style depth) item)
    (hothers : ∀ other ∈ others, Regular other)
    (heq : listed [',', ' '] [close] (chars style depth) rest items =
      listed [',', ' '] [close] (chars style depth) rest' others) :
    items = others ∧ rest = rest' :=
  (separates_items hclose).listed_unique Regular (fun _ h _ => h.not_ends) hregular hitems hothers
    heq

theorem fieldChars_not_ends (field : String × Node) :
    ¬ Ends (fieldChars style depth field ++ rest) := by
  obtain ⟨c, others, hkey, hc⟩ := propertyKey_begins field.1
  rw [fieldChars, hkey]
  refine not_ends_cons fun hmem => ?_
  rcases hc with hc | rfl
  · have hstops : [',', ')', ']', ';', ' ', '\n'].all (fun c => !isKeyPart c) = true := by decide
    have hstop := List.all_eq_true.1 hstops c hmem
    rw [hc] at hstop
    cases hstop
  · exact absurd hmem (by decide)

theorem field_reads {field : String × Node} (h : Reads Regular (chars style depth) field.2) :
    Reads (fun field : String × Node => Regular field.2) (fieldChars style depth) field := by
  intro other hother rest rest' hends hends' heq
  rw [fieldChars, fieldChars, List.append_assoc, List.append_assoc] at heq
  obtain ⟨hkey, hrest⟩ := propertyKey_unique heq
  obtain ⟨hnode, hrest⟩ := h other.2 hother rest rest' hends hends' (List.cons.inj hrest).2
  exact ⟨Prod.ext hkey hnode, hrest⟩

/-- Fields are read in one way, up to the brace that closes them; without any the brace stands
in the place of the gap before the first. -/
theorem object_unique {fields others : List (String × Node)}
    (hfields : ∀ field ∈ fields, Regular field.2)
    (hreads : ∀ field ∈ fields, Reads Regular (chars style (depth + 1)) field.2)
    (hothers : ∀ other ∈ others, Regular other.2)
    (heq : chars style depth (.object fields) ++ rest =
      chars style depth (.object others) ++ rest') :
    fields = others ∧ rest = rest' := by
  have hempty : ∀ after : List Char,
      chars style depth (.object []) ++ after = '\x7b' :: '\x7d' :: after := by
    intro after
    simp [chars, write]
  obtain ⟨c, gap, hgap, hc⟩ := gapChars_begins style (depth + 1)
  have hbrace : c ≠ '\x7d' := by
    rintro rfl
    exact absurd hc (by decide)
  cases fields with
  | nil =>
      cases others with
      | nil =>
          rw [hempty, hempty] at heq
          exact ⟨rfl, (List.cons.inj (List.cons.inj heq).2).2⟩
      | cons other others =>
          rw [hempty, chars_object, hgap] at heq
          exact absurd (List.cons.inj (List.cons.inj heq).2).1.symm hbrace
  | cons field fields =>
      cases others with
      | nil =>
          rw [hempty, chars_object, hgap] at heq
          exact absurd (List.cons.inj (List.cons.inj heq).2).1 hbrace
      | cons other others =>
          rw [chars_object, chars_object] at heq
          exact (separates_fields (depth + 1)).listed_unique
            (fun field : String × Node => Regular field.2)
            (fun item _ _ => fieldChars_not_ends item) hfields
            (fun item hitem => field_reads (hreads item hitem)) hothers
            (List.append_cancel_left (List.cons.inj heq).2)

/-- A function is read in one way if its body is. -/
theorem function_unique {name name' : String} {body body' : Node}
    (hreads : Reads Regular (chars style (depth + 1)) body) (hbody' : Regular body')
    (heq : chars style depth (.function name body) ++ rest =
      chars style depth (.function name' body') ++ rest') :
    name = name' ∧ body = body' ∧ rest = rest' := by
  rw [chars_function, chars_function] at heq
  have hbracket := Text.head?_cons_kind isPart (c := '(') (by decide)
  obtain ⟨hname, hfunction⟩ := Text.run_unique isPart (identifier_parts name).2
    (identifier_parts name').2 (hbracket _) (hbracket _)
    (List.cons.inj (List.append_cancel_left heq)).2
  simp only [List.cons.injEq, true_and] at hfunction
  obtain ⟨hbody, hclose⟩ := hreads body' hbody' _ _ (ends_cons (by decide) _)
    (ends_cons (by decide) _) (List.append_cancel_left (List.append_cancel_left hfunction))
  have hrest := List.append_cancel_left (List.cons.inj hclose).2
  exact ⟨identifier_injective (String.toList_inj.1 hname), hbody, (List.cons.inj hrest).2⟩

/-- A call is read in one way if its arguments are, also where no end follows. -/
theorem call_unique {callee callee' : Node} {args args' : List Node} (hcallee : Callee callee)
    (hcallee' : Callee callee') (hargs : ∀ arg ∈ args, Regular arg)
    (hreads : ∀ arg ∈ args, Reads Regular (chars style depth) arg)
    (hargs' : ∀ arg ∈ args', Regular arg)
    (heq : chars style depth (.call callee args) ++ rest =
      chars style depth (.call callee' args') ++ rest') :
    callee = callee' ∧ args = args' ∧ rest = rest' := by
  rw [chars_call, chars_call] at heq
  obtain ⟨hsame, hlist⟩ := hcallee.unique hcallee' heq
  exact ⟨hsame, args_unique ')' (by decide) hargs hreads hargs' hlist⟩

/-- Regular trees of one text, up to an end, have one form. -/
theorem Regular.form_eq {node other : Node} (h : Regular node) (hother : Regular other)
    (hends : Ends rest) (hends' : Ends rest')
    (heq : chars style depth node ++ rest = chars style depth other ++ rest') :
    node.form = other.form := by
  rw [← h.formOf_chars hends, heq, hother.formOf_chars hends']

/-- **A regular tree is read in one way** from the start of a text, where an end follows. -/
theorem Regular.reads {node : Node} (h : Regular node) :
    ∀ depth, Reads Regular (chars style depth) node := by
  -- The other tree has the form of this one, which leaves its constructor open for calls only.
  induction h with
  | text text =>
      intro depth other hother rest rest' hends hends' heq
      have hform := Regular.form_eq (.text text) hother hends hends' heq
      cases hother with
      | text text' =>
          obtain ⟨rfl, hrest⟩ := stringSource_unique heq
          exact ⟨rfl, hrest⟩
      | word htext' _ => cases hform.trans (form_word htext')
      | _ => cases hform
  | @word value htext hnan =>
      intro depth other hother rest rest' hends hends' heq
      have hform := Regular.form_eq (.word htext hnan) hother hends hends' heq
      rw [form_word htext] at hform
      cases hother with
      | @word value' htext' hnan' =>
          rw [chars, chars, write, write] at heq
          obtain ⟨hword, hrest⟩ := Text.run_unique isWordPart (Literal.source_word htext).1
            (Literal.source_word htext').1 (not_isWordPart_of_ends hends)
            (not_isWordPart_of_ends hends') heq
          rw [Literal.word_injective htext htext' hnan hnan' (String.toList_inj.1 hword)]
          exact ⟨rfl, hrest⟩
      | _ => cases hform
  | @array items hitems ih =>
      intro depth other hother rest rest' hends hends' heq
      have hform := Regular.form_eq (.array hitems) hother hends hends' heq
      cases hother with
      | array hitems' =>
          rw [chars_array, chars_array] at heq
          obtain ⟨rfl, hrest⟩ := args_unique ']' (by decide) hitems
            (fun item hitem => ih item hitem depth) hitems' (List.cons.inj heq).2
          exact ⟨rfl, hrest⟩
      | word htext' _ => cases hform.trans (form_word htext')
      | _ => cases hform
  | @object fields hfields ih =>
      intro depth other hother rest rest' hends hends' heq
      have hform := Regular.form_eq (.object hfields) hother hends hends' heq
      cases hother with
      | object hfields' =>
          obtain ⟨rfl, hrest⟩ := object_unique hfields
            (fun field hfield => ih field hfield (depth + 1)) hfields' heq
          exact ⟨rfl, hrest⟩
      | word htext' _ => cases hform.trans (form_word htext')
      | _ => cases hform
  | @function name body hbody ih =>
      intro depth other hother rest rest' hends hends' heq
      have hform := Regular.form_eq (.function name hbody) hother hends hends' heq
      cases hother with
      | function name' hbody' =>
          obtain ⟨rfl, rfl, hrest⟩ := function_unique (ih (depth + 1)) hbody' heq
          exact ⟨rfl, hrest⟩
      | word htext' _ => cases hform.trans (form_word htext')
      | _ => cases hform
  | @call callee args hcallee hargs ih =>
      intro depth other hother rest rest' hends hends' heq
      have hform := Regular.form_eq (.call hcallee hargs) hother hends hends' heq
      cases hother with
      | call hcallee' hargs' =>
          obtain ⟨rfl, rfl, hrest⟩ := call_unique hcallee hcallee' hargs
            (fun arg harg => ih arg harg depth) hargs' heq
          exact ⟨rfl, hrest⟩
      | curried hcallee' hargs' _ =>
          -- An end follows this call, and a bracket the one that the other tree calls.
          rw [chars_call _ (.call _ _)] at heq
          obtain ⟨_, _, hrest⟩ := call_unique hcallee hcallee' hargs
            (fun arg harg => ih arg harg depth) hargs' heq
          exact absurd (hrest ▸ hends) (not_ends_cons (by decide))
      | word htext' _ => cases hform.trans (form_word htext')
      | _ => cases hform
  | @curried callee args others hcallee hargs hothers ih ih' =>
      intro depth other hother rest rest' hends hends' heq
      have hform := Regular.form_eq (.curried hcallee hargs hothers) hother hends hends' heq
      cases hother with
      | call hcallee' hargs' =>
          rw [chars_call _ (.call _ _)] at heq
          obtain ⟨_, _, hrest⟩ := call_unique hcallee hcallee' hargs
            (fun arg harg => ih arg harg depth) hargs' heq
          exact absurd (hrest ▸ hends') (not_ends_cons (by decide))
      | curried hcallee' hargs' hothers' =>
          rw [chars_call _ (.call _ _), chars_call _ (.call _ _)] at heq
          obtain ⟨rfl, rfl, hlist⟩ := call_unique hcallee hcallee' hargs
            (fun arg harg => ih arg harg depth) hargs' heq
          obtain ⟨rfl, hrest⟩ := args_unique ')' (by decide) hothers
            (fun arg harg => ih' arg harg depth) hothers' (List.cons.inj hlist).2
          exact ⟨rfl, hrest⟩
      | word htext' _ => cases hform.trans (form_word htext')
      | _ => cases hform

end Forms

/-- **Regular trees of one text are the same**, in both styles. -/
theorem Regular.eq_of_write {node other : Node} (h : Regular node) (hother : Regular other)
    {style : Style} {depth : Nat} (heq : node.write style depth = other.write style depth) :
    node = other := by
  have hreads : Reads Regular (chars style depth) node := h.reads depth
  refine (hreads other hother [] [] nofun nofun ?_).1
  rw [List.append_nil, List.append_nil, chars, heq, chars]

end Node
end Schemata
