import Schemata.Proofs.Texts

/-!
# Indented source is the source on one line

**Input.**  Trees of source of any form, in which no property holds a line break.

**Algorithm.**  `outline` is the indented text of a tree with the level of every character: how
many of the objects and functions of the tree are open where it stands.  Such a text is laid out
(`LaidOut`) when it is made of characters other than line breaks, which the line has too, and of
gaps: a line break, the blanks of its level, and a character that is no blank, for which the line
has one blank and that character.  Texts that are laid out are so side by side and one level
further in, and no name, key or literal holds a line break.

**Results.**

* `Outline.LaidOut.unbroken`: a text that is laid out is its line, once its gaps are blanks.
* `Outline.LaidOut.indents`: after a line break it has the blanks of its level, and no more.
* `Node.laidOut_outline`: the outline of a tree is laid out.
* `Node.pretty_is_layout`: all of this for the indented text of a tree.
-/

namespace Schemata

namespace Text

/-! ## Line breaks -/

/-- A text with one blank for every line break and the blanks after it; a line break may stand
just before the text. -/
def unbrokenFrom : Bool → List Char → List Char
  | _, [] => []
  | broken, c :: rest =>
      if c = '\n' then ' ' :: unbrokenFrom true rest
      else if broken ∧ c = ' ' then unbrokenFrom true rest
      else c :: unbrokenFrom false rest

/-- A text with one blank for every line break and the blanks after it. -/
def unbroken (text : String) : String := String.ofList (unbrokenFrom false text.toList)

theorem unbrokenFrom_of_ne {broken : Bool} {c : Char} (hbreak : c ≠ '\n')
    (hblank : broken = true → c ≠ ' ') (rest : List Char) :
    unbrokenFrom broken (c :: rest) = c :: unbrokenFrom false rest := by
  rw [unbrokenFrom, if_neg hbreak, if_neg fun h => hblank h.1 h.2]

theorem unbrokenFrom_break (broken : Bool) (rest : List Char) :
    unbrokenFrom broken ('\n' :: rest) = ' ' :: unbrokenFrom true rest := by
  rw [unbrokenFrom, if_pos rfl]

theorem unbrokenFrom_blanks (rest : List Char) : ∀ n : Nat,
    unbrokenFrom true (List.replicate n ' ' ++ rest) = unbrokenFrom true rest
  | 0 => rfl
  | n + 1 => by
      rw [List.replicate_succ, List.cons_append, unbrokenFrom, if_neg (by decide),
        if_pos ⟨rfl, rfl⟩, unbrokenFrom_blanks rest n]

/-- What does not stand in a first part stands in the second one. -/
theorem exists_before_of_notMem {α : Type} {x : α} {first second before after : List α}
    (hx : x ∉ first) (h : first ++ second = before ++ x :: after) :
    ∃ before', second = before' ++ x :: after := by
  rcases List.append_eq_append_iff.1 h with ⟨before', _, hsecond⟩ | ⟨between, hfirst, hafter⟩
  · exact ⟨before', hsecond⟩
  · cases between with
    | nil => exact ⟨[], hafter.symm⟩
    | cons y between =>
        obtain ⟨rfl, _⟩ := List.cons.inj hafter
        exact absurd (hfirst ▸ by simp) hx

/-- A character of a kind that line breaks are not of is none. -/
theorem break_notMem (kind : Char → Bool) (hkind : kind '\n' = false) {text : List Char}
    (h : ∀ c ∈ text, kind c = true) : '\n' ∉ text := by
  intro hmem
  rw [h _ hmem] at hkind
  cases hkind

section Escapes

variable {escapes : Escapes}

/-- Escapes that have a letter for the line break, and it is none. -/
theorem break_notMem_escapeChar (hletters : ∀ p ∈ escapes, p.2 ≠ '\n')
    (hbreak : escapes.lookup '\n' ≠ none) (c : Char) : '\n' ∉ escapeChar escapes c := by
  have hdigits : ∀ n < 16, hexDigit n ≠ '\n' := by decide
  rw [escapeChar]
  split
  case h_1 letter hletter =>
    obtain ⟨before, after, hescapes, _⟩ := List.lookup_eq_some_iff.1 hletter
    have hne := hletters (c, letter) (by simp [hescapes])
    simp [Ne.symm hne]
  case h_2 hnone =>
    split
    case isTrue hcode =>
      have hhigh := hdigits (c.toNat / 16) (by omega)
      have hlow := hdigits (c.toNat % 16) (by omega)
      simp [Ne.symm hhigh, Ne.symm hlow]
    case isFalse =>
      rw [List.mem_singleton]
      rintro rfl
      exact absurd hnone hbreak

theorem break_notMem_quote (hletters : ∀ p ∈ escapes, p.2 ≠ '\n')
    (hbreak : escapes.lookup '\n' ≠ none) (text : String) : '\n' ∉ (quote escapes text).toList := by
  have hescape : '\n' ∉ escape escapes text.toList := by
    intro hmem
    obtain ⟨c, _, hc⟩ := List.mem_flatMap.1 hmem
    exact break_notMem_escapeChar hletters hbreak c hc
  rw [quote, String.toList_ofList]
  simp [hescape]

end Escapes

end Text

namespace Literal

theorem break_notMem_stringSource (text : String) : '\n' ∉ (stringSource text).toList :=
  Text.break_notMem_quote (by decide) (by decide) text

theorem break_notMem_source (literal : Literal) : '\n' ∉ literal.source.toList := by
  cases literal with
  | null => decide
  | bool value => cases value <;> decide
  | number value =>
      exact Text.break_notMem isWordPart (by decide) (numeral_numberSource value).parts
  | string text => exact break_notMem_stringSource text

end Literal

namespace Node

theorem break_notMem_identifier (name : String) : '\n' ∉ (identifier name).toList :=
  Text.break_notMem isPart (by decide) (identifier_parts name).2

theorem break_notMem_propertyKey (key : String) : '\n' ∉ (propertyKey key).toList := by
  rw [propertyKey]
  split
  case isTrue hbare => exact Text.break_notMem isKeyPart (by decide) (bareKey_parts hbare).2
  case isFalse => exact Literal.break_notMem_stringSource key

end Node

/-! ## Levels -/

/-- A text with the level of every character. -/
abbrev Outline := List (Char × Nat)

namespace Outline

def chars (text : Outline) : List Char := text.map Prod.fst

/-- A text that is inside of nothing. -/
def flat (text : String) : Outline := text.toList.map fun c => (c, 0)

/-- A text one level further in. -/
def nested (text : Outline) : Outline := text.map fun (c, level) => (c, level + 1)

@[simp] theorem chars_append (text other : Outline) :
    chars (text ++ other) = text.chars ++ other.chars := List.map_append

@[simp] theorem flat_append (text other : String) :
    flat (text ++ other) = flat text ++ flat other := by
  simp [flat]

@[simp] theorem chars_flat (text : String) : (flat text).chars = text.toList := by
  simp [chars, flat, Function.comp_def]

@[simp] theorem chars_nested (text : Outline) : text.nested.chars = text.chars := by
  simp [chars, nested, Function.comp_def]

theorem chars_intercalate (separator : Outline) : ∀ texts : List Outline,
    chars (separator.intercalate texts) = separator.chars.intercalate (texts.map chars)
  | [] => rfl
  | [text] => by simp
  | text :: next :: texts => by
      have ih := chars_intercalate separator (next :: texts)
      rw [List.intercalate_cons_cons, chars_append, chars_append, ih]
      simp only [List.map_cons, List.intercalate_cons_cons]

/-- From a depth on, a text is laid out as a line is: every line break is followed by the blanks
of its level and the next character of the line. -/
inductive LaidOut (depth : Nat) : Outline → List Char → Prop
  | nil : LaidOut depth [] []
  | char {c : Char} {text : Outline} {line : List Char} (level : Nat) : c ≠ '\n' →
      LaidOut depth text line → LaidOut depth ((c, level) :: text) (c :: line)
  | gap {c : Char} {blanks text : Outline} {line : List Char} (level other : Nat) :
      blanks.chars = List.replicate (2 * (depth + level)) ' ' → c ≠ '\n' → c ≠ ' ' →
      LaidOut depth text line →
      LaidOut depth (('\n', level) :: (blanks ++ (c, other) :: text)) (' ' :: c :: line)

namespace LaidOut

variable {depth : Nat} {text text' : Outline} {line line' : List Char}

theorem append (h : LaidOut depth text line) (h' : LaidOut depth text' line') :
    LaidOut depth (text ++ text') (line ++ line') := by
  induction h with
  | nil => exact h'
  | char level hc _ ih => exact .char level hc ih
  | gap level other hblanks hbreak hblank _ ih =>
      rw [List.cons_append, List.append_assoc]
      exact .gap level other hblanks hbreak hblank ih

/-- What is laid out at a depth is so one level further in at the depth before. -/
theorem nested (h : LaidOut (depth + 1) text line) : LaidOut depth text.nested line := by
  induction h with
  | nil => exact .nil
  | char level hc _ ih => exact .char (level + 1) hc ih
  | @gap c blanks text line level other hblanks hbreak hblank _ ih =>
      have hnested : Outline.nested (('\n', level) :: (blanks ++ (c, other) :: text)) =
          ('\n', level + 1) :: (blanks.nested ++ (c, other + 1) :: text.nested) := by
        simp [Outline.nested]
      rw [hnested]
      refine .gap (level + 1) (other + 1) ?_ hbreak hblank ih
      rw [chars_nested, hblanks]
      congr 1
      omega

theorem ofChars : ∀ {chars : List Char}, '\n' ∉ chars →
    LaidOut depth (chars.map fun c => (c, 0)) chars
  | [], _ => .nil
  | _ :: _, h =>
      have ⟨hc, hrest⟩ := not_or.1 (mt List.mem_cons.2 h)
      .char 0 (Ne.symm hc) (ofChars hrest)

theorem flat {text : String} (h : '\n' ∉ text.toList) : LaidOut depth (flat text) text.toList :=
  ofChars h

/-- A gap is laid out with the text after it, which begins with no blank. -/
theorem gap_flat {text : String} (hbegins : ∃ c rest, text.toList = c :: rest ∧ c ≠ ' ')
    (h : '\n' ∉ text.toList) :
    LaidOut depth (Outline.flat (Node.Style.indented.gap depth ++ text)) (' ' :: text.toList) := by
  obtain ⟨c, rest, htext, hblank⟩ := hbegins
  obtain ⟨hc, hrest⟩ := not_or.1 (mt List.mem_cons.2 (htext ▸ h))
  have hgap : LaidOut depth
      (('\n', 0) :: (Outline.flat (String.ofList (List.replicate (2 * depth) ' ')) ++
        (c, 0) :: rest.map fun c => (c, 0)))
      (' ' :: c :: rest) :=
    .gap 0 0 (by simp) (Ne.symm hc) hblank (ofChars hrest)
  rw [htext]
  simpa [Outline.flat, Node.Style.gap, htext] using hgap

/-- Texts that are laid out after a gap are so one after the other, with commas between them. -/
theorem after_gaps {texts : List Outline} {lines : List (List Char)} (hne : texts ≠ [])
    (h : List.Forall₂ (fun text line => LaidOut depth
      (Outline.flat (Node.Style.indented.gap depth) ++ text) (' ' :: line)) texts lines) :
    LaidOut depth (Outline.flat (Node.Style.indented.gap depth) ++
        (Outline.flat ("," ++ Node.Style.indented.gap depth)).intercalate texts)
      (' ' :: ", ".toList.intercalate lines) := by
  induction h with
  | nil => exact absurd rfl hne
  | @cons text line texts lines htext hrest ih =>
      cases hrest with
      | nil => simpa using htext
      | cons hnext hrest =>
          have hcomma : LaidOut depth (Outline.flat ",") [','] := .flat (by decide)
          have hall := (htext.append hcomma).append (ih (List.cons_ne_nil _ _))
          rw [List.intercalate_cons_cons, List.intercalate_cons_cons, flat_append]
          simpa using hall

/-- Texts that are laid out are so with a separator between them that holds no line break. -/
theorem intercalate {separator : String} (hseparator : '\n' ∉ separator.toList)
    {texts : List Outline} {lines : List (List Char)}
    (h : List.Forall₂ (LaidOut depth) texts lines) :
    LaidOut depth ((Outline.flat separator).intercalate texts)
      (separator.toList.intercalate lines) := by
  induction h with
  | nil => exact .nil
  | @cons text line texts lines htext hrest ih =>
      cases hrest with
      | nil => simpa using htext
      | cons hnext hrest =>
          rw [List.intercalate_cons_cons, List.intercalate_cons_cons]
          exact (htext.append (.flat hseparator)).append ih

/-- **A text that is laid out is its line**, once its gaps are blanks. -/
theorem unbroken (h : LaidOut depth text line) : Text.unbrokenFrom false text.chars = line := by
  induction h with
  | nil => rfl
  | @char c text line level hc _ ih =>
      show Text.unbrokenFrom false (c :: text.chars) = _
      rw [Text.unbrokenFrom_of_ne hc (by simp), ih]
  | @gap c blanks text line level other hblanks hbreak hblank _ ih =>
      have hchars : Outline.chars (('\n', level) :: (blanks ++ (c, other) :: text)) =
          '\n' :: (blanks.chars ++ c :: text.chars) := by
        simp [Outline.chars]
      rw [hchars, hblanks, Text.unbrokenFrom_break, Text.unbrokenFrom_blanks,
        Text.unbrokenFrom_of_ne hbreak fun _ => hblank, ih]

/-- **After a line break stand the blanks of its level**, and no further one. -/
theorem indents (h : LaidOut depth text line) : ∀ {before after : Outline} {level : Nat},
    text = before ++ ('\n', level) :: after →
    ∃ c rest, after.chars = List.replicate (2 * (depth + level)) ' ' ++ c :: rest ∧ c ≠ ' ' := by
  induction h with
  | nil =>
      intro before after level heq
      cases before <;> cases heq
  | char level hc _ ih =>
      intro before after level' heq
      cases before with
      | nil => exact absurd (congrArg Prod.fst (List.cons.inj heq).1) hc
      | cons first before => exact ih (List.cons.inj heq).2
  | @gap c blanks text line level other hblanks hbreak hblank _ ih =>
      intro before after level' heq
      cases before with
      | nil =>
          obtain ⟨hlevel, rfl⟩ := List.cons.inj heq
          obtain rfl := congrArg Prod.snd hlevel
          exact ⟨c, text.chars, by simpa [Outline.chars] using hblanks, hblank⟩
      | cons first before =>
          -- The break is neither one of the blanks nor the character after them.
          have hgap : ('\n', level') ∉ blanks ++ [(c, other)] := by
            rw [List.mem_append, List.mem_singleton, not_or]
            refine ⟨fun hmem => ?_, fun h => hbreak (congrArg Prod.fst h).symm⟩
            have hmem : '\n' ∈ blanks.chars := List.mem_map_of_mem hmem
            rw [hblanks] at hmem
            exact absurd (List.eq_of_mem_replicate hmem) (by decide)
          have heq : (blanks ++ [(c, other)]) ++ text = before ++ ('\n', level') :: after := by
            rw [List.append_assoc]
            exact (List.cons.inj heq).2
          obtain ⟨before', htext⟩ := Text.exists_before_of_notMem hgap heq
          exact ih htext

end LaidOut

end Outline

namespace Node

/-! ## Outlines of trees -/

mutual
/-- The properties that are accessed in a tree. -/
def properties : Node → List String
  | .literal _ => []
  | .ident _ => []
  | .member target property => property :: properties target
  | .call callee args => properties callee ++ propertiesOfAll args
  | .object fields => propertiesOfFields fields
  | .array items => propertiesOfAll items
  | .function _ body => properties body

def propertiesOfAll : List Node → List String
  | [] => []
  | node :: rest => properties node ++ propertiesOfAll rest

def propertiesOfFields : List (String × Node) → List String
  | [] => []
  | (_, node) :: rest => properties node ++ propertiesOfFields rest
end

open Outline (flat LaidOut)

mutual
/-- The indented text of a tree that stands at a depth, with levels.  An object with fields and a
function are open from after their brace on until their last part ends; the gap before the brace
that closes them is outside. -/
def outline (depth : Nat) : Node → Outline
  | .literal value => flat value.source
  | .ident name => flat (identifier name)
  | .member target property => outline depth target ++ flat ("." ++ property)
  | .call callee args =>
      outline depth callee ++ flat "(" ++ (flat ", ").intercalate (outlines depth args) ++ flat ")"
  | .object [] => flat "\x7b\x7d"
  | .object (field :: rest) =>
      flat "\x7b" ++
        Outline.nested (flat (Style.indented.gap (depth + 1)) ++
          (flat ("," ++ Style.indented.gap (depth + 1))).intercalate
            (fieldOutlines (depth + 1) (field :: rest))) ++
        flat (Style.indented.gap depth ++ "\x7d")
  | .array items => flat "[" ++ (flat ", ").intercalate (outlines depth items) ++ flat "]"
  | .function name body =>
      flat ("function " ++ identifier name ++ "() \x7b") ++
        Outline.nested (flat (Style.indented.gap (depth + 1) ++ "return ") ++
          outline (depth + 1) body ++ flat ";") ++
        flat (Style.indented.gap depth ++ "\x7d")

def outlines (depth : Nat) : List Node → List Outline
  | [] => []
  | node :: rest => outline depth node :: outlines depth rest

def fieldOutlines (depth : Nat) : List (String × Node) → List Outline
  | [] => []
  | (key, node) :: rest =>
      (flat (propertyKey key ++ ": ") ++ outline depth node) :: fieldOutlines depth rest
end

mutual
/-- An outline has the characters of the indented text. -/
theorem chars_outline (depth : Nat) : ∀ node : Node,
    (outline depth node).chars = (node.write .indented depth).toList
  | .literal _ => by rw [outline, write, Outline.chars_flat]
  | .ident _ => by rw [outline, write, Outline.chars_flat]
  | .member target property => by
      simp [outline, write, chars_outline depth target]
  | .call callee args => by
      simp [outline, write, chars_outline depth callee, chars_outlines depth args,
        Outline.chars_intercalate]
  | .object [] => by rw [outline, write, Outline.chars_flat]
  | .object (field :: rest) => by
      simp [outline, write, chars_fieldOutlines (depth + 1) (field :: rest),
        Outline.chars_intercalate]
  | .array items => by
      simp [outline, write, chars_outlines depth items, Outline.chars_intercalate]
  | .function name body => by
      simp [outline, write, chars_outline (depth + 1) body]

theorem chars_outlines (depth : Nat) : ∀ nodes : List Node,
    (outlines depth nodes).map Outline.chars = (writeAll .indented depth nodes).map String.toList
  | [] => rfl
  | node :: rest => by
      rw [outlines, writeAll, List.map_cons, List.map_cons, chars_outline depth node,
        chars_outlines depth rest]

theorem chars_fieldOutlines (depth : Nat) : ∀ fields : List (String × Node),
    (fieldOutlines depth fields).map Outline.chars =
      (writeFields .indented depth fields).map String.toList
  | [] => rfl
  | (key, node) :: rest => by
      rw [fieldOutlines, writeFields, List.map_cons, List.map_cons, chars_fieldOutlines depth rest]
      simp [chars_outline depth node]
end

section Trees

variable {depth : Nat}

/-- After a gap a field is laid out, since no key begins with a blank. -/
theorem laidOut_field (key : String) {node : Outline} {line : String}
    (h : LaidOut depth node line.toList) :
    LaidOut depth (flat (Style.indented.gap depth) ++ (flat (propertyKey key ++ ": ") ++ node))
      (' ' :: (propertyKey key ++ ": " ++ line).toList) := by
  obtain ⟨c, others, hbegins, hc⟩ := propertyKey_begins key
  have hblank : c ≠ ' ' := by
    rintro rfl
    exact absurd hc (by decide)
  have hkey : '\n' ∉ (propertyKey key ++ ": ").toList := by simp [break_notMem_propertyKey]
  have hgap : LaidOut depth (flat (Style.indented.gap depth ++ (propertyKey key ++ ": "))) _ :=
    .gap_flat ⟨c, others ++ ": ".toList, by simp [hbegins], hblank⟩ hkey
  rw [← List.append_assoc, ← Outline.flat_append, String.toList_append]
  exact hgap.append h

/-- A brace that closes is laid out after a gap. -/
theorem laidOut_close : LaidOut depth (flat (Style.indented.gap depth ++ "\x7d")) [' ', '\x7d'] :=
  .gap_flat ⟨'\x7d', [], rfl, by decide⟩ (by decide)

theorem comma_unbroken : '\n' ∉ ", ".toList := by decide

mutual
/-- **The outline of a tree is laid out** as its text on one line is, if no property that is
accessed holds a line break. -/
theorem laidOut_outline (depth : Nat) : ∀ node : Node,
    (∀ property ∈ node.properties, '\n' ∉ property.toList) →
    LaidOut depth (outline depth node) (node.write .line depth).toList
  | .literal value, _ => by
      rw [outline, write]
      exact .flat (Literal.break_notMem_source value)
  | .ident name, _ => by
      rw [outline, write]
      exact .flat (break_notMem_identifier name)
  | .member target property, h => by
      obtain ⟨hproperty, htarget⟩ := List.forall_mem_cons.1 h
      have hname : '\n' ∉ ("." ++ property).toList := by simp [hproperty]
      have htarget := laidOut_outline depth target htarget
      rw [outline, write]
      simpa using htarget.append (.flat hname)
  | .call callee args, h => by
      obtain ⟨hcallee, hargs⟩ := List.forall_mem_append.1 h
      have hcallee := laidOut_outline depth callee hcallee
      have hargs := LaidOut.intercalate comma_unbroken (laidOut_outlines depth args hargs)
      have hopen : LaidOut depth (flat "(") ['('] := .flat (by decide)
      have hclose : LaidOut depth (flat ")") [')'] := .flat (by decide)
      rw [outline, write]
      simpa using ((hcallee.append hopen).append hargs).append hclose
  | .object [], _ => by
      rw [outline, write]
      exact .flat (by decide)
  | .object (field :: rest), h => by
      have hfields := LaidOut.after_gaps (by cases field; exact List.cons_ne_nil _ _)
        (laidOut_fieldOutlines (depth + 1) (field :: rest) h)
      have hopen : LaidOut depth (flat "\x7b") ['\x7b'] := .flat (by decide)
      rw [outline, write]
      simpa [Style.gap] using (hopen.append hfields.nested).append laidOut_close
  | .array items, h => by
      have hitems := LaidOut.intercalate comma_unbroken (laidOut_outlines depth items h)
      have hopen : LaidOut depth (flat "[") ['['] := .flat (by decide)
      have hclose : LaidOut depth (flat "]") [']'] := .flat (by decide)
      rw [outline, write]
      simpa using (hopen.append hitems).append hclose
  | .function name body, h => by
      have hbody := laidOut_outline (depth + 1) body h
      have hname : '\n' ∉ ("function " ++ identifier name ++ "() \x7b").toList := by
        simp [break_notMem_identifier]
      have hreturn : LaidOut (depth + 1) (flat (Style.indented.gap (depth + 1) ++ "return "))
          (' ' :: "return ".toList) := .gap_flat ⟨'r', _, rfl, by decide⟩ (by decide)
      have hend : LaidOut (depth + 1) (flat ";") [';'] := .flat (by decide)
      rw [outline, write]
      simpa [Style.gap] using
        ((LaidOut.flat hname).append ((hreturn.append hbody).append hend).nested).append
          laidOut_close

theorem laidOut_outlines (depth : Nat) : ∀ nodes : List Node,
    (∀ property ∈ propertiesOfAll nodes, '\n' ∉ property.toList) →
    List.Forall₂ (LaidOut depth) (outlines depth nodes)
      ((writeAll .line depth nodes).map String.toList)
  | [], _ => .nil
  | node :: rest, h => by
      obtain ⟨hnode, hrest⟩ := List.forall_mem_append.1 h
      exact .cons (laidOut_outline depth node hnode) (laidOut_outlines depth rest hrest)

theorem laidOut_fieldOutlines (depth : Nat) : ∀ fields : List (String × Node),
    (∀ property ∈ propertiesOfFields fields, '\n' ∉ property.toList) →
    List.Forall₂ (fun text line => LaidOut depth (flat (Style.indented.gap depth) ++ text)
        (' ' :: line))
      (fieldOutlines depth fields) ((writeFields .line depth fields).map String.toList)
  | [], _ => .nil
  | (key, node) :: rest, h => by
      obtain ⟨hnode, hrest⟩ := List.forall_mem_append.1 h
      exact .cons (laidOut_field key (laidOut_outline depth node hnode))
        (laidOut_fieldOutlines depth rest hrest)
end

end Trees

/-- **Indenting changes the layout only.**  In the indented text of a tree that accesses no
property with a line break, every line break is followed by two blanks for each object and
function that is open there, and by no further blank; with one blank in the place of each line
break and the blanks after it the text is that on one line. -/
theorem pretty_is_layout {node : Node}
    (h : ∀ property ∈ node.properties, '\n' ∉ property.toList) :
    Text.unbroken node.renderPretty = node.render ∧
      (node.outline 0).chars = node.renderPretty.toList ∧
      ∀ (before after : Outline) (level : Nat),
        node.outline 0 = before ++ ('\n', level) :: after →
        ∃ c rest, after.chars = List.replicate (2 * level) ' ' ++ c :: rest ∧ c ≠ ' ' := by
  have hlaid := laidOut_outline 0 node h
  have hchars : (node.outline 0).chars = node.renderPretty.toList := chars_outline 0 node
  refine ⟨?_, hchars, fun before after level heq => ?_⟩
  · rw [Text.unbroken, ← hchars, hlaid.unbroken, String.ofList_toList, render]
  · have hindents := hlaid.indents heq
    rwa [Nat.zero_add] at hindents

/-- A list of names, as its own function. -/
def names : Node :=
  .function "Names" (.method "s" "type" [.object
    [("name", .method "s" "string" []), ("next", .call (.ident "Names") [])]])

theorem names_layout :
    (∀ property ∈ names.properties, '\n' ∉ property.toList) ∧
      names.renderPretty =
        "function Names() \x7b\n  return s.type(\x7b\n    name: s.string(),\n" ++
          "    next: Names()\n  \x7d);\n\x7d" ∧
      Text.unbroken names.renderPretty =
        "function Names() \x7b return s.type(\x7b name: s.string(), next: Names() \x7d); \x7d" := by
  have hproperties : ∀ property ∈ names.properties, '\n' ∉ property.toList := by decide
  obtain ⟨hunbroken, _, _⟩ := pretty_is_layout hproperties
  exact ⟨hproperties, by decide +kernel, hunbroken.trans (by decide +kernel)⟩

end Node
end Schemata
