import Schemata.Document.Interpretation
import Schemata.Proofs.Lazy.Simulation
import Schemata.Proofs.Termination

/-!
# Lazy schemas are transparent

An interpretation of a document keeps its definitions as cells, one for each chain of
definitions around a reference, and keeps what has run.  None of it shows: however
often the interpretation has been used, a use gives what the plain meaning of the root
gives, where a reference is the definition of its name.

**Input.**  A guarded document and the interpretations that calls lead to from a fresh
one (`Interpretation.Used`).

**Results.**

* `Interpretation.Used.serves`: used interpretations own a cell of the root in a sound
  store.
* `Document.used_means`: decoding, encoding and accepting come to an end and give what
  the meaning of the root gives at every depth that is enough.
-/

namespace Schemata

open Json (Value)
open Lazy (Halt Store Runs)

/-! ## Used interpretations -/

namespace Interpretation

variable {A : Type} [Artifact A]

/-- The interpretations that calls lead to from a fresh one. -/
inductive Used (document : Document) : Interpretation A → Prop
  | fresh : Used document document.interpret
  | decode {i i' : Interpretation A} {value : Value} {outcome : Outcome Value} :
      Used document i → i.decode document value = .ok (outcome, i') → Used document i'
  | encode {i i' : Interpretation A} {value encoded : Value} :
      Used document i → i.encode document value = .ok (encoded, i') → Used document i'
  | accepts {i i' : Interpretation A} {value : Value} {accepted : Bool} :
      Used document i → i.accepts document value = .ok (accepted, i') → Used document i'

/-- An interpretation by an artifact that owns a cell of the root, outside of all
others, in a sound store. -/
structure Serves (document : Document) (definitions : Entries Definition)
    (i : Interpretation A) : Prop where
  sound : i.store.Sound document definitions
  root : ∃ k c, i.artifact = Artifact.owner k ∧ i.store.cells[k]? = some c ∧
    c.id = document.root ∧ c.scope = []

variable {document : Document} {definitions : Entries Definition} {i i' : Interpretation A}

omit [Artifact A] in
theorem after_eq {α : Type} {call : Lazy.Run A α} {answer : α} {s : Store A}
    (h : Runs call i.store answer s) : i.after call = .ok (answer, { i with store := s }) := by
  rw [after]
  show (call i.store >>= fun p => _) = _
  rw [h]
  rfl

/-- An interpretation by a single cell serves a document where the cell is one of the
root that stands for it. -/
theorem serves_of_cell {body : Lazy.Body A}
    (h : Lazy.Cell.Faithful document definitions ⟨document.root, body, [], none, false⟩ []) :
    Serves document definitions
      ⟨Artifact.owner 0, { cells := #[⟨document.root, body, [], none, false⟩] }⟩ where
  sound := Store.Sound.empty.push rfl .nil h
  root := ⟨0, _, rfl, rfl, rfl, rfl⟩

theorem serves_fresh : (document.interpret (A := A)).Serves document document.definitions :=
  serves_of_cell (Lazy.faithful_definition document.root_mem (by simp))

namespace Serves

/-- A use that leaves a sound store leaves an interpretation that serves. -/
theorem grows (hi : i.Serves document definitions) {s : Store A} (hgrow : i.store.Grows s)
    (hs : s.Sound document definitions) :
    Serves document definitions { i with store := s } := by
  obtain ⟨k, c, hartifact, hc, hid, hscope⟩ := hi.root
  obtain ⟨c', hc', hcell⟩ := hgrow.ages k c hc
  exact ⟨hs, k, c', hartifact, hc', hcell.id.trans hid, hcell.scope.trans hscope⟩

theorem of_after {α : Type} {call : Lazy.Run A α} {answer answer' : α} {s : Store A}
    (h : Serves document definitions { i with store := s }) (hrun : Runs call i.store answer s)
    (hafter : i.after call = .ok (answer', i')) : i'.Serves document definitions := by
  have heq := (after_eq hrun).symm.trans hafter
  rw [← (Prod.mk.inj (Except.ok.inj heq)).2]
  exact h

/-- What the cell of the root answers, the interpretation answers. -/
theorem answers (hi : i.Serves document definitions) {α : Type} (call : A → Lazy.Run A α)
    {answer : α}
    (h : ∀ k c, i.store.cells[k]? = some c → c.id = document.root → c.scope = [] →
      ∃ s, Runs (call (Artifact.owner k)) i.store answer s ∧ i.store.Grows s ∧
        s.Sound document definitions) :
    ∃ s, Runs (call i.artifact) i.store answer s ∧
      Serves document definitions { i with store := s } := by
  obtain ⟨k, c, hartifact, hc, hid, hscope⟩ := hi.root
  obtain ⟨s, hrun, hgrow, hs⟩ := h k c hc hid hscope
  refine ⟨s, ?_, hi.grows hgrow hs⟩
  rw [hartifact]
  exact hrun

variable [LawfulArtifact A]

theorem decode_runs (hi : i.Serves document definitions) {depth : Nat} {value : Value}
    {outcome : Outcome Value}
    (h : (document.decoding depth document.root).decode value = some outcome) :
    ∃ s, Runs (Lazy.decode definitions depth i.artifact value) i.store outcome s ∧
      Serves document definitions { i with store := s } := by
  refine hi.answers (Lazy.decode definitions depth · value) fun k c hc hid hscope => ?_
  rw [← hid] at h
  exact Lazy.decode_runs hi.sound hc hscope h

theorem encode_runs (hi : i.Serves document definitions) {depth : Nat} {value encoded : Value}
    (h : (document.encoding depth document.root).encode value = some encoded) :
    ∃ s, Runs (Lazy.encode definitions depth i.artifact value) i.store encoded s ∧
      Serves document definitions { i with store := s } := by
  refine hi.answers (Lazy.encode definitions depth · value) fun k c hc hid hscope => ?_
  rw [← hid] at h
  exact Lazy.encode_runs hi.sound hc hscope h

theorem accepts_runs (hi : i.Serves document definitions) {depth : Nat} {value : Value}
    {accepted : Bool} (h : (document.encoding depth document.root).accepts value = some accepted) :
    ∃ s, Runs (Lazy.accepts definitions depth i.artifact value) i.store accepted s ∧
      Serves document definitions { i with store := s } := by
  refine hi.answers (Lazy.accepts definitions depth · value) fun k c hc hid hscope => ?_
  rw [← hid] at h
  exact Lazy.accepts_runs hi.sound hc hscope h

end Serves
end Interpretation

/-! ## Meanings at every depth that is enough -/

namespace Document

variable {document : Document}

/-- The root of a guarded document has one outcome at every depth that is enough. -/
theorem exists_outcome (hguarded : document.Guarded) (value : Value) :
    ∃ outcome, ∀ depth, document.callDepth value ≤ depth →
      (document.decoding depth document.root).decode value = some outcome := by
  have hcost := document.cost_le_callDepth document.root value
  obtain ⟨outcome, houtcome, _⟩ := decoding_ends hguarded (document.callDepth value)
    (document.callDepth value) document.root value document.root_mem hcost hcost
  refine ⟨outcome, fun depth hdepth => ?_⟩
  obtain ⟨outcome', h, h'⟩ := decoding_ends hguarded (document.callDepth value) depth
    document.root value document.root_mem hcost (hcost.trans hdepth)
  rw [h', ← h, houtcome]

/-- The root of a guarded document encodes a value to one value, and accepts it or not,
at every depth that is enough. -/
theorem exists_encoded (hguarded : document.Guarded) (value : Value) :
    ∃ encoded accepted, ∀ depth, document.callDepth value ≤ depth →
      (document.encoding depth document.root).encode value = some encoded ∧
        (document.encoding depth document.root).accepts value = some accepted := by
  have hcost := document.cost_le_callDepth document.root value
  obtain ⟨⟨encoded, hencoded, _⟩, accepted, haccepted, _⟩ := encoding_ends hguarded
    (document.callDepth value) (document.callDepth value) document.root value document.root_mem
    hcost hcost
  refine ⟨encoded, accepted, fun depth hdepth => ?_⟩
  obtain ⟨⟨encoded', h, h'⟩, accepted', g, g'⟩ := encoding_ends hguarded
    (document.callDepth value) depth document.root value document.root_mem hcost
    (hcost.trans hdepth)
  constructor
  · rw [h', ← h, hencoded]
  · rw [g', ← g, haccepted]

end Document

/-- Every interpretation that calls lead to from a fresh one serves its document. -/
theorem Interpretation.Used.serves {A : Type} [Artifact A] [LawfulArtifact A]
    {document : Document} (hguarded : document.Guarded) {i : Interpretation A}
    (hi : i.Used document) : i.Serves document document.definitions := by
  induction hi with
  | fresh => exact serves_fresh
  | @decode i i' value outcome _ h ih =>
      obtain ⟨plain, hplain⟩ := document.exists_outcome hguarded value
      obtain ⟨_, hrun, hserves⟩ := ih.decode_runs (hplain _ (Nat.le_refl _))
      exact hserves.of_after hrun h
  | @encode i i' value encoded _ h ih =>
      obtain ⟨plain, _, hplain⟩ := document.exists_encoded hguarded value
      obtain ⟨_, hrun, hserves⟩ := ih.encode_runs (hplain _ (Nat.le_refl _)).1
      exact hserves.of_after hrun h
  | @accepts i i' value accepted _ h ih =>
      obtain ⟨_, plain, hplain⟩ := document.exists_encoded hguarded value
      obtain ⟨_, hrun, hserves⟩ := ih.accepts_runs (hplain _ (Nat.le_refl _)).2
      exact hserves.of_after hrun h

namespace Document

variable {document : Document}

section Fresh

variable {value : Value}

theorem decode_eq {outcome : Outcome Value}
    (h : (document.decoding (document.callDepth value) document.root).decode value =
      some outcome) : document.decode value = .ok outcome := by
  have hserves : (document.interpret (A := Blueprint)).Serves document document.definitions :=
    Interpretation.serves_fresh
  obtain ⟨s, hrun, _⟩ := hserves.decode_runs h
  rw [Document.decode, Interpretation.decode, Interpretation.after_eq hrun]
  rfl

theorem encode_eq {encoded : Value}
    (h : (document.encoding (document.callDepth value) document.root).encode value =
      some encoded) : document.encode value = .ok encoded := by
  have hserves : (document.interpret (A := Blueprint)).Serves document document.definitions :=
    Interpretation.serves_fresh
  obtain ⟨s, hrun, _⟩ := hserves.encode_runs h
  rw [Document.encode, Interpretation.encode, Interpretation.after_eq hrun]
  rfl

theorem accepts_eq {accepted : Bool}
    (h : (document.encoding (document.callDepth value) document.root).accepts value =
      some accepted) : document.accepts value = .ok accepted := by
  have hserves : (document.interpret (A := Blueprint)).Serves document document.definitions :=
    Interpretation.serves_fresh
  obtain ⟨s, hrun, _⟩ := hserves.accepts_runs h
  rw [Document.accepts, Interpretation.accepts, Interpretation.after_eq hrun]
  rfl

end Fresh

/-- **Lazy schemas are transparent.**  Whatever an interpretation of a guarded document
has been used for, it decodes, encodes and accepts as the plain meaning of the root
does. -/
theorem used_means (hguarded : document.Guarded) {i : Interpretation Blueprint}
    (hi : i.Used document) (value : Value) :
    ∃ outcome encoded accepted i₁ i₂ i₃,
      i.decode document value = .ok (outcome, i₁) ∧
      i.encode document value = .ok (encoded, i₂) ∧
      i.accepts document value = .ok (accepted, i₃) ∧
      ∀ depth, document.callDepth value ≤ depth →
        (document.decoding depth document.root).decode value = some outcome ∧
        (document.encoding depth document.root).encode value = some encoded ∧
        (document.encoding depth document.root).accepts value = some accepted := by
  have hserves := hi.serves hguarded
  obtain ⟨outcome, houtcome⟩ := exists_outcome hguarded value
  obtain ⟨encoded, accepted, hencoded⟩ := exists_encoded hguarded value
  obtain ⟨s₁, hdecode, _⟩ := hserves.decode_runs (houtcome _ (Nat.le_refl _))
  obtain ⟨s₂, hencode, _⟩ := hserves.encode_runs (hencoded _ (Nat.le_refl _)).1
  obtain ⟨s₃, haccepts, _⟩ := hserves.accepts_runs (hencoded _ (Nat.le_refl _)).2
  refine ⟨outcome, encoded, accepted, _, _, _, Interpretation.after_eq hdecode,
    Interpretation.after_eq hencode, Interpretation.after_eq haccepts, fun depth hdepth => ?_⟩
  exact ⟨houtcome depth hdepth, hencoded depth hdepth⟩

/-- Lists of numbers by two definitions that refer to each other. -/
def linkedList : Document where
  root := "List"
  definitions := [
    ("List", .literalsOr (.singleton .null) (.ref "Node")),
    ("Node", .object .required [("value", .primitive .number), ("next", .ref "List")])]
  root_mem := by decide
  references_mem := by decide

/-- A list is a node where it is not empty, but what follows a node is inside of it. -/
theorem linkedList_guarded : linkedList.Guarded :=
  guarded_of_rank (fun name => if name = "List" then 1 else 0) (by decide)

/-- A list of two nodes, the first of which has a name. -/
def namedList : Json.Value :=
  .object [("name", .string "first"),
    ("next", .object [("value", .number (.integer 2)), ("next", .null)]),
    ("value", .number (.integer 1))]

/-- The list of the same numbers, as it is declared. -/
def plainList : Json.Value :=
  .object [("value", .number (.integer 1)),
    ("next", .object [("value", .number (.integer 2)), ("next", .null)])]

/-- A list of two nodes, decoded, encoded and accepted by an interpretation that has decoded
it before. -/
theorem linkedList_used_means :
    ∃ i i₁ i₂ i₃ : Interpretation Blueprint,
      linkedList.interpret.decode linkedList namedList = .ok (.ok plainList, i) ∧
      i.decode linkedList namedList = .ok (.ok plainList, i₁) ∧
      i.encode linkedList namedList = .ok (plainList, i₂) ∧
      i.accepts linkedList namedList = .ok (true, i₃) := by
  have hdecoding : (linkedList.decoding (linkedList.callDepth namedList) "List").decode
      namedList = some (.ok plainList) := rfl
  have hencoding : (linkedList.encoding (linkedList.callDepth namedList) "List").encode
      namedList = some plainList := rfl
  have haccepting : (linkedList.encoding (linkedList.callDepth namedList) "List").accepts
      namedList = some true := rfl
  obtain ⟨outcome, _, _, i, _, _, hi, _, _, hmeans⟩ :=
    used_means linkedList_guarded .fresh namedList
  obtain ⟨houtcome, _⟩ := hmeans _ (Nat.le_refl _)
  obtain ⟨outcome', encoded, accepted, i₁, i₂, i₃, h₁, h₂, h₃, hmeans'⟩ :=
    used_means linkedList_guarded (.decode .fresh hi) namedList
  obtain ⟨houtcome', hencoded, haccepted⟩ := hmeans' _ (Nat.le_refl _)
  obtain rfl : Except.ok plainList = outcome :=
    Option.some.inj (hdecoding.symm.trans houtcome)
  obtain rfl : Except.ok plainList = outcome' :=
    Option.some.inj (hdecoding.symm.trans houtcome')
  obtain rfl := Option.some.inj (hencoding.symm.trans hencoded)
  obtain rfl := Option.some.inj (haccepting.symm.trans haccepted)
  exact ⟨i, i₁, i₂, i₃, hi, h₁, h₂, h₃⟩

end Document
end Schemata
