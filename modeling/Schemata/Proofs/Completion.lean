import Schemata.Proofs.Answers
import Schemata.Proofs.Lazy.Leaves
import Schemata.Proofs.Lazy.Logging

/-!
# Uses come to an end

Calls of cells are nested to a depth and halt beyond it.  A call that has come to an end has not
felt that bound: nested to any greater depth it does the same.  So a use comes to an end by itself
exactly if some depth is enough for it.

**Input.**  A guarded document, however it is interpreted and whatever the interpretation has been
used for, and any value.

**Algorithm.**  A call on a part of the value is on a value of a smaller depth; a call on the value
itself goes along a bare reference, to a name of a smaller rank.  `Document.cost` counts down both,
the depth of the value first.

**Results.**

* `Lazy.decode_deeper` and its companions: more depth changes nothing for a use that has come to an
  end, in any store and by any artifact.
* `Document.terminates`: decoding, encoding and accepting come to an end, with calls nested no
  deeper than the cost of the root on the value.
-/

namespace Schemata

open Json (Value)
open Lazy (Runs Store)

/-! ## More depth -/

namespace Lazy

variable {A : Type}

theorem covers_throw {α : Type} (halt : Halt) (call : Run A α) :
    covers.rel (throw halt) call :=
  fun _ _ _ h => nomatch h

theorem covers_holding {α : Type} (a : A) {x y : Run A α} (h : covers.rel x y) :
    covers.rel (holding a x) (holding a y) :=
  covers.bind (covers_refl _) fun _ => covers.bind h fun _ => covers_refl _

variable [Artifact A]

/-- A call that asks whether a cell is alive goes on with either of two calls. -/
theorem covers_alive {α : Type} (k : CellId) {x y : Run A α} (z : Run A α)
    (h : covers.rel x y) :
    covers.rel (do if (← get).isAlive k then x else z)
      (do if (← get).isAlive k then y else z) :=
  covers.bind (covers_refl _) fun _ => covers.ite h (covers_refl z)

variable {definitions : Entries Definition} {depth depth' : Nat}

/-- An artifact decodes with more depth as with less that is enough, if cells do. -/
theorem decoder_deeper (hcell : ∀ k : CellId, Decoding.RelOn covers (fun _ => True)
      (cellDecoding (A := A) definitions depth k) (cellDecoding definitions depth' k))
    (blueprint : Blueprint) :
    Decoding.RelOn covers (fun _ => True)
      (blueprint.fold (cellDecoding (A := A) definitions depth)
        fun k => handleDecoding k (cellDecoding definitions depth k))
      (blueprint.fold (cellDecoding definitions depth')
        fun k => handleDecoding k (cellDecoding definitions depth' k)) := by
  refine Blueprint.fold_rel (Decoding.compatible covers) blueprint fun leaf _ => ?_
  cases leaf with
  | owner k => exact hcell k
  | handle k => exact fun value _ => covers_alive k _ (hcell k value trivial)

/-- An artifact encodes and accepts with more depth as with less that is enough, if cells do. -/
theorem encoder_deeper (hcell : ∀ k : CellId, Encoding.RelOn covers (fun _ => True)
      (cellEncoding (A := A) definitions depth k) (cellEncoding definitions depth' k))
    (artifact : A) :
    Encoding.RelOn covers (fun _ => True) (encoding definitions depth artifact)
      (encoding definitions depth' artifact) := by
  refine Blueprint.fold_rel (Encoding.compatible covers) _ fun leaf _ => ?_
  cases leaf with
  | owner k => exact hcell k
  | handle k =>
      intro value _
      obtain ⟨hencode, haccepts⟩ := hcell k value trivial
      exact ⟨covers_alive k _ hencode, covers_alive k _ haccepts⟩

variable (definitions)

/-- A cell decodes with more depth as with less that is enough. -/
theorem cellDecoding_deeper : ∀ {depth depth' : Nat}, depth ≤ depth' → ∀ k : CellId,
    Decoding.RelOn covers (fun _ => True) (cellDecoding (A := A) definitions depth k)
      (cellDecoding definitions depth' k)
  | 0, _, _, _ => fun _ _ => covers_throw .depth _
  | depth + 1, depth' + 1, hdepth, k => by
      intro value _
      have hcell := cellDecoding_deeper (Nat.le_of_succ_le_succ hdepth)
      refine covers_holding _ (covers.bind (covers_refl _) fun artifact => ?_)
      have hdecode := decoder_deeper hcell (Artifact.decoder artifact) value trivial
      exact covers.bind hdecode fun _ => covers_refl _

/-- A cell encodes and accepts with more depth as with less that is enough. -/
theorem cellEncoding_deeper : ∀ {depth depth' : Nat}, depth ≤ depth' → ∀ k : CellId,
    Encoding.RelOn covers (fun _ => True) (cellEncoding (A := A) definitions depth k)
      (cellEncoding definitions depth' k)
  | 0, _, _, _ => fun _ _ => ⟨covers_throw .depth _, covers_throw .depth _⟩
  | depth + 1, depth' + 1, hdepth, k => by
      intro value _
      have hcell := cellEncoding_deeper (Nat.le_of_succ_le_succ hdepth)
      constructor
      · exact covers_holding _ (covers.bind (covers_refl _) fun artifact =>
          (encoder_deeper hcell artifact value trivial).1)
      · exact covers_holding _ (covers.bind (covers_refl _) fun artifact =>
          (encoder_deeper hcell artifact value trivial).2)

variable {definitions} {artifact : A} {value : Value} {s s' : Store A}

/-- **Decoding that has come to an end does the same with more depth.** -/
theorem decode_deeper {outcome : Outcome Value} (hdepth : depth ≤ depth')
    (h : Runs (decode definitions depth artifact value) s outcome s') :
    Runs (decode definitions depth' artifact value) s outcome s' :=
  covers_holding artifact
    (decoder_deeper (cellDecoding_deeper definitions hdepth) _ value trivial) s outcome s' h

/-- **Encoding that has come to an end does the same with more depth.** -/
theorem encode_deeper {encoded : Value} (hdepth : depth ≤ depth')
    (h : Runs (encode definitions depth artifact value) s encoded s') :
    Runs (encode definitions depth' artifact value) s encoded s' :=
  covers_holding artifact
    (encoder_deeper (cellEncoding_deeper definitions hdepth) artifact value trivial).1 s encoded
    s' h

/-- **Accepting that has come to an end does the same with more depth.** -/
theorem accepts_deeper {accepted : Bool} (hdepth : depth ≤ depth')
    (h : Runs (accepts definitions depth artifact value) s accepted s') :
    Runs (accepts definitions depth' artifact value) s accepted s' :=
  covers_holding artifact
    (encoder_deeper (cellEncoding_deeper definitions hdepth) artifact value trivial).2 s accepted
    s' h

end Lazy

/-! ## Guarded documents -/

namespace Document

variable {document : Document} {A : Type} [Artifact A] [LawfulArtifact A] {i : Interpretation A}

/-- **Guarded documents come to an end.**  Whatever an interpretation of a guarded document has
been used for, it decodes, encodes and accepts every value with calls nested no deeper than the
cost of the root on the value: it has an answer then, and so it has with any more depth, the same
one with the same store after it. -/
theorem terminates (hguarded : document.Guarded) (hi : i.Used document) (value : Value) :
    ∃ outcome encoded accepted i₁ i₂ i₃,
      i.decode document value = .ok (outcome, i₁) ∧
      i.encode document value = .ok (encoded, i₂) ∧
      i.accepts document value = .ok (accepted, i₃) ∧
      ∀ depth, document.cost document.root value ≤ depth →
        Runs (Lazy.decode document.definitions depth i.artifact value) i.store outcome i₁.store ∧
        Runs (Lazy.encode document.definitions depth i.artifact value) i.store encoded i₂.store ∧
        Runs (Lazy.accepts document.definitions depth i.artifact value) i.store accepted
          i₃.store := by
  have hserves := hi.serves hguarded
  have hcost := Nat.le_refl (document.cost document.root value)
  have henough := document.cost_le_callDepth document.root value
  obtain ⟨outcome, houtcome, _⟩ :=
    decoding_ends hguarded _ _ document.root value document.root_mem hcost hcost
  obtain ⟨⟨encoded, hencoded, _⟩, accepted, haccepted, _⟩ :=
    encoding_ends hguarded _ _ document.root value document.root_mem hcost hcost
  obtain ⟨s₁, hdecode, _⟩ := hserves.decode_runs houtcome
  obtain ⟨s₂, hencode, _⟩ := hserves.encode_runs hencoded
  obtain ⟨s₃, haccepts, _⟩ := hserves.accepts_runs haccepted
  refine ⟨outcome, encoded, accepted, { i with store := s₁ }, { i with store := s₂ },
    { i with store := s₃ }, ?_, ?_, ?_, fun depth hdepth => ⟨?_, ?_, ?_⟩⟩
  · exact Interpretation.after_eq (Lazy.decode_deeper henough hdecode)
  · exact Interpretation.after_eq (Lazy.encode_deeper henough hencode)
  · exact Interpretation.after_eq (Lazy.accepts_deeper henough haccepts)
  · exact Lazy.decode_deeper hdepth hdecode
  · exact Lazy.encode_deeper hdepth hencode
  · exact Lazy.accepts_deeper hdepth haccepts

/-- A list of one number is decoded with nine nested calls, and with more no other way. -/
theorem linkedList_terminates :
    ∃ i : Interpretation Codec,
      let list : Value := .object [("value", .number (.integer 1)), ("next", .null)]
      linkedList.interpret.decode linkedList list = .ok (.ok list, i) ∧
        ∀ depth, 9 ≤ depth → Runs (Lazy.decode linkedList.definitions depth
          (linkedList.interpret (A := Codec)).artifact list) linkedList.interpret.store
          (.ok list) i.store := by
  obtain ⟨outcome, _, _, i, _, _, hdecode, _, _, hruns⟩ :=
    terminates linkedList_guarded (Interpretation.Used.fresh (A := Codec))
      (.object [("value", .number (.integer 1)), ("next", .null)])
  have houtcome : (linkedList.interpret.decode (A := Codec) linkedList
      (.object [("value", .number (.integer 1)), ("next", .null)])).map Prod.fst =
      .ok (.ok (.object [("value", .number (.integer 1)), ("next", .null)])) := rfl
  rw [hdecode] at houtcome
  obtain rfl := Except.ok.inj houtcome
  exact ⟨i, hdecode, fun depth hdepth =>
    (hruns depth ((linkedList.cost_le_callDepth _ _).trans hdepth)).1⟩

end Document

end Schemata
