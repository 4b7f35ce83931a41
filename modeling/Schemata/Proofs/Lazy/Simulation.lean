import Schemata.Document.Meaning
import Schemata.Lazy.Running
import Schemata.Proofs.Correspondence
import Schemata.Proofs.Lazy.Building

/-!
# Calls of cells

A call of a cell does what the meaning of its id says, whichever cells are around it
and whatever has run before.  The store stays sound, so every cell gives the definition
of its id; and the cells around a body are held for as long as its calls go on, so
their handles are alive.

**Input.**  A sound store, and a depth to which calls are nested: the same for cells as
for references.

**Results.**

* `Store.simulation`: where the plain computation has an answer, the computation over
  stores has the same one.
* `decode_runs`, `encode_runs` and `accepts_runs`: an artifact that owns a cell outside
  of all others decodes, encodes and accepts as the id of the cell does.
-/

namespace Schemata
namespace Lazy

open Json (Value)

variable {A : Type} [Artifact A]

/-! ## Holding -/

/-- The cells around a body are owned by artifacts that calls hold. -/
def Store.Attends (s : Store A) (scope : List (String × A)) : Prop :=
  ∀ name k, (name, Artifact.handle k) ∈ scope → k ∈ Store.owned s.held

/-- A store in which a call holds one more artifact. -/
def Store.hold (s : Store A) (a : A) : Store A := { s with held := a :: s.held }

variable {s s' : Store A} {scope : List (String × A)} {k : CellId} {c : Cell A}

theorem Store.Attends.grows (hgrow : s.Grows s') (h : s.Attends scope) : s'.Attends scope := by
  intro name k hmem
  rw [hgrow.held]
  exact h name k hmem

theorem Store.Attends.isAlive {name : String} (h : s.Attends scope)
    (hmem : (name, Artifact.handle k) ∈ scope) : s.isAlive k = true := by
  have hroot : k ∈ s.roots := List.mem_append_left _ (h name k hmem)
  rw [Store.isAlive, Bool.or_eq_true]
  exact .inl (List.contains_iff_mem.2 hroot)

omit [Artifact A] in
/-- A call that holds an artifact gives its answer and lets go of the artifact. -/
theorem Runs.holding {α : Type} {a : A} {call : Run A α} {b : α} (h : Runs call (s.hold a) b s')
    (hgrow : (s.hold a).Grows s') :
    Runs (holding a call) s b { s' with held := s.held } ∧
      s.Grows { s' with held := s.held } := by
  constructor
  · have htail : s'.held.tail = s.held := by rw [hgrow.held]; rfl
    rw [← htail]
    exact (Runs.update _ s).bind (h.bind ((Runs.update _ s').bind (.pure b _)))
  · have hhold : s.Ages (s.hold a) := .of_cells rfl
    exact ⟨hhold.trans (hgrow.ages.trans (.of_cells rfl)), rfl, hgrow.writing⟩

variable {document : Document} {definitions : Entries Definition}

/-- The handle of a cell that is held is attended. -/
theorem Store.Attends.inner [LawfulArtifact A] (h : s.Attends c.scope) :
    (s.hold (Artifact.owner k)).Attends (c.inner k) := by
  intro name j hmem
  rcases List.mem_cons.1 hmem with heq | hmem
  · obtain rfl := LawfulArtifact.handle_injective (Prod.mk.inj heq).2
    exact List.mem_append_left _ (LawfulArtifact.mem_cells_owner j)
  · exact List.mem_append_right _ (h name j hmem)

/-! ## Simulation -/

/-- Where the plain computation has an answer, the computation over stores has the same
one, from every sound store that has grown, and leaves such a store. -/
def Store.simulation (document : Document) (definitions : Entries Definition) (s : Store A) :
    Correspondence (Run A) Option where
  rel {α} x y := ∀ (s₁ : Store A) (b : α), s.Grows s₁ → s₁.Sound document definitions →
    y = some b → ∃ s₂, Runs x s₁ b s₂ ∧ s₁.Grows s₂ ∧ s₂.Sound document definitions
  pure a := by
    intro s₁ b _ hs₁ h
    obtain rfl := Option.some.inj h
    exact ⟨s₁, .pure a s₁, .refl s₁, hs₁⟩
  bind {_ _ _ _ _ _} hxy hfg := by
    intro s₁ b hgrow hs₁ h
    obtain ⟨a, ha, hb⟩ := Option.bind_eq_some_iff.1 h
    obtain ⟨s₂, hrun, hgrow₂, hs₂⟩ := hxy s₁ a hgrow hs₁ ha
    obtain ⟨s₃, hrun', hgrow₃, hs₃⟩ := hfg a s₂ b (hgrow.trans hgrow₂) hs₂ hb
    exact ⟨s₃, hrun.bind hrun', hgrow₂.trans hgrow₃, hs₃⟩

/-- A computation that asks whether an attended cell is alive goes on as if it were. -/
theorem simulation_alive {α : Type} {name : String} (hattends : s.Attends scope)
    (hmem : (name, Artifact.handle k) ∈ scope) {x x' : Run A α} {y : Option α}
    (h : (s.simulation document definitions).rel x y) :
    (s.simulation document definitions).rel
      (do if (← get).isAlive k then x else x') y := by
  intro s₁ b hgrow hs₁ hy
  obtain ⟨s₂, hrun, hrest⟩ := h s₁ b hgrow hs₁ hy
  refine ⟨s₂, (Runs.get s₁).bind ?_, hrest⟩
  rw [if_pos ((hattends.grows hgrow).isAlive hmem)]
  exact hrun

theorem simulation_diverges {α : Type} (x : Run A α) :
    (s.simulation document definitions).rel x none := by
  intro _ _ _ _ h
  cases h

variable [LawfulArtifact A]

/-- A call of a cell simulates what the use of the artifact that it resolves to does. -/
theorem call_simulates {α : Type} (hc : s.cells[k]? = some c) (hattends : s.Attends c.scope)
    {use : A → Run A α} {y : Option α}
    (huse : ∀ (s₁ : Store A) c₁ a, s₁.cells[k]? = some c₁ → c₁.id = c.id →
      s₁.Attends (c₁.inner k) → s₁.Gives document k c₁ a →
      (s₁.simulation document definitions).rel (use a) y) :
    (s.simulation document definitions).rel
      (holding (Artifact.owner k) (resolve definitions k >>= use)) y := by
  intro s₁ b hgrow hs₁ hy
  obtain ⟨c₁, hc₁, hcell₁⟩ := hgrow.ages k c hc
  have hs₂ : (s₁.hold (Artifact.owner k)).Sound document definitions := hs₁.of_cells rfl
  obtain ⟨a, s₃, hresolve, hgrow₃, hs₃, hgives⟩ := resolve_runs hs₂ hc₁
  obtain ⟨c₃, hc₃, hcell₃⟩ := hgrow₃.ages k c₁ hc₁
  have hattends₃ : s₃.Attends (c₃.inner k) := by
    have hattends₁ : s₁.Attends c₁.scope := hcell₁.scope ▸ hattends.grows hgrow
    rw [Cell.inner, hcell₃.binder, hcell₃.scope]
    exact hattends₁.inner.grows hgrow₃
  obtain ⟨s₄, hrun, hgrow₄, hs₄⟩ := huse s₃ c₃ a hc₃ (hcell₃.id.trans hcell₁.id) hattends₃
    (hgives.of_cell hcell₃) s₃ b (.refl s₃) hs₃ hy
  obtain ⟨hruns, hgrow'⟩ := (hresolve.bind hrun).holding (hgrow₃.trans hgrow₄)
  exact ⟨_, hruns, hgrow', hs₄.of_cells rfl⟩

/-- What a cell gives is related to the reading of the definition of its id where the
cells of attended scopes, and the handles among them, are related to their ids. -/
theorem Store.Gives.rel {a : A} (hgives : s.Gives document k c a) (hc : s.cells[k]? = some c)
    (hattends : s.Attends (c.inner k)) {B : Type} [Vocabulary B] {rel : A → B → Prop}
    (hrel : Congruence rel rel) {g : String → B}
    (howner : ∀ j d, s.cells[j]? = some d → s.Attends d.scope → rel (Artifact.owner j) (g d.id))
    (hhandle : ∀ binder j d, s.cells[j]? = some d → s.Attends d.scope →
      (binder, Artifact.handle j) ∈ c.inner k → rel (Artifact.handle j) (g d.id)) :
    ∃ definition, document.find? c.id = some definition ∧ rel a (definition.fold g) := by
  obtain ⟨ids, definition, hbinds, hfind, hmeans⟩ := hgives
  refine ⟨definition, hfind, hmeans B g rel hrel ?_⟩
  rintro b _ ⟨name, hleaf, rfl⟩
  cases hleaf with
  | @owner j d hd hscope _ =>
      exact howner j d hd (hscope ▸ hattends)
  | @handle binder j d hmem hd =>
      obtain ⟨i, e, heq, he, hsub, _, _⟩ := (Store.Binds.cons hc hbinds).entry hmem
      obtain rfl := LawfulArtifact.handle_injective heq
      obtain rfl : d = e := Option.some.inj (hd.symm.trans he)
      exact hhandle binder j d hd (fun name i hi => hattends name i (hsub hi)) hmem

/-! ## Decoding -/

/-- **A call of a cell decodes as the id of the cell does.** -/
theorem cellDecoding_simulates : ∀ (depth : Nat) (s : Store A) (k : CellId) (c : Cell A),
    s.cells[k]? = some c → s.Attends c.scope →
    Decoding.RelOn (s.simulation document definitions) (fun _ => True)
      (cellDecoding definitions depth k) (document.decoding depth c.id)
  | 0, _, _, _, _, _, _, _ => simulation_diverges _
  | depth + 1, s, k, c, hc, hattends, value, _ => by
      refine call_simulates hc hattends fun s₁ c₁ a hc₁ hid hattends₁ hgives => ?_
      -- What the cell resolved to decodes as the definition of its id, leaf by leaf.
      have hrel := ((Decoding.congruence_all (s₁.simulation document definitions)).comap
        (Blueprint.respects_fold (cellDecoding definitions depth) fun k =>
          handleDecoding k (cellDecoding definitions depth k)) respects_id).comap
        (LawfulArtifact.respects_decoder (A := A)) respects_id
      obtain ⟨definition, hfind, hdecode⟩ := hgives.rel hc₁ hattends₁ hrel
        (g := document.decoding depth)
        (fun j d hd hd' => by
          rw [LawfulArtifact.decoder_owner, Blueprint.fold]
          exact cellDecoding_simulates depth s₁ j d hd hd')
        (fun binder j d hd hd' hmem value _ => by
          rw [LawfulArtifact.decoder_handle, Blueprint.fold]
          exact simulation_alive hattends₁ hmem
            (cellDecoding_simulates depth s₁ j d hd hd' value trivial))
      rw [← hid, Document.decoding_succ hfind]
      intro s₂ b hgrow hs₂ h
      obtain ⟨outcome, houtcome, rfl⟩ := Option.map_eq_some_iff.1 h
      obtain ⟨s₃, hrun, hgrow₃, hs₃⟩ := hdecode value trivial s₂ outcome hgrow hs₂ houtcome
      obtain ⟨c₃, hc₃, hcell₃⟩ := (hgrow.trans hgrow₃).ages k c₁ hc₁
      refine ⟨s₃, ?_, hgrow₃, hs₃⟩
      rw [← hcell₃.id]
      exact hrun.bind ((Runs.cell hc₃).bind (.pure _ _))

/-! ## Encoding -/

/-- **A call of a cell encodes and accepts as the id of the cell does.** -/
theorem cellEncoding_simulates : ∀ (depth : Nat) (s : Store A) (k : CellId) (c : Cell A),
    s.cells[k]? = some c → s.Attends c.scope →
    Encoding.RelOn (s.simulation document definitions) (fun _ => True)
      (cellEncoding definitions depth k) (document.encoding depth c.id)
  | 0, _, _, _, _, _, _, _ => ⟨simulation_diverges _, simulation_diverges _⟩
  | depth + 1, s, k, c, hc, hattends, value, _ => by
      -- What the cell resolved to encodes as the definition of its id, leaf by leaf.
      have hencoding : ∀ (s₁ : Store A) (c₁ : Cell A) a, s₁.cells[k]? = some c₁ →
          s₁.Attends (c₁.inner k) → s₁.Gives document k c₁ a →
          ∃ definition, document.find? c₁.id = some definition ∧
            Encoding.RelOn (s₁.simulation document definitions) (fun _ => True)
              (encoding definitions depth a) (definition.fold (document.encoding depth)) := by
        intro s₁ c₁ a hc₁ hattends₁ hgives
        have hrel := ((Encoding.congruence_all (s₁.simulation document definitions)).comap
          (Blueprint.respects_fold (cellEncoding definitions depth) fun k =>
            handleEncoding k (cellEncoding definitions depth k)) respects_id).comap
          (LawfulArtifact.respects_encoder (A := A)) respects_id
        refine hgives.rel hc₁ hattends₁ hrel ?_ ?_
        · intro j d hd hd'
          rw [LawfulArtifact.encoder_owner, Blueprint.fold]
          exact cellEncoding_simulates depth s₁ j d hd hd'
        · intro binder j d hd hd' hmem value _
          rw [LawfulArtifact.encoder_handle, Blueprint.fold]
          have hcell := cellEncoding_simulates depth s₁ j d hd hd' value trivial
          exact ⟨simulation_alive hattends₁ hmem hcell.1, simulation_alive hattends₁ hmem hcell.2⟩
      constructor
      · refine call_simulates hc hattends fun s₁ c₁ a hc₁ hid hattends₁ hgives => ?_
        obtain ⟨definition, hfind, hencode⟩ := hencoding s₁ c₁ a hc₁ hattends₁ hgives
        rw [← hid, Document.encoding_succ hfind]
        exact (hencode value trivial).1
      · refine call_simulates hc hattends fun s₁ c₁ a hc₁ hid hattends₁ hgives => ?_
        obtain ⟨definition, hfind, hencode⟩ := hencoding s₁ c₁ a hc₁ hattends₁ hgives
        rw [← hid, Document.encoding_succ hfind]
        exact (hencode value trivial).2

/-! ## Uses of artifacts -/

omit [LawfulArtifact A] in
/-- A call that holds a cell outside of all others. -/
theorem hold_runs {α : Type} (hs : s.Sound document definitions) (hc : s.cells[k]? = some c)
    (hscope : c.scope = []) {x : Run A α} {y : Option α}
    (hx : ∀ s : Store A, s.cells[k]? = some c → s.Attends c.scope →
      (s.simulation document definitions).rel x y) {b : α} (hy : y = some b) :
    ∃ s', Runs (holding (Artifact.owner k : A) x) s b s' ∧ s.Grows s' ∧
      s'.Sound document definitions := by
  have hs₀ : (s.hold (Artifact.owner k)).Sound document definitions := hs.of_cells rfl
  have hattends : (s.hold (Artifact.owner k)).Attends c.scope := by
    rw [hscope]
    intro _ _ hmem
    cases hmem
  obtain ⟨s₁, hrun, hgrow, hs₁⟩ := hx (s.hold (Artifact.owner k)) hc hattends _ b (.refl _) hs₀ hy
  obtain ⟨hruns, hgrow'⟩ := hrun.holding hgrow
  exact ⟨_, hruns, hgrow', hs₁.of_cells rfl⟩

/-- **An artifact that owns a cell outside of all others decodes as the id of the cell
does.** -/
theorem decode_runs (hs : s.Sound document definitions) (hc : s.cells[k]? = some c)
    (hscope : c.scope = []) {depth : Nat} {value : Value} {outcome : Outcome Value}
    (h : (document.decoding depth c.id).decode value = some outcome) :
    ∃ s', Runs (decode definitions depth (Artifact.owner k : A) value) s outcome s' ∧
      s.Grows s' ∧ s'.Sound document definitions := by
  rw [decode, LawfulArtifact.decoder_owner, Blueprint.fold]
  exact hold_runs hs hc hscope
    (fun s hc hattends => cellDecoding_simulates depth s k c hc hattends value trivial) h

/-- **It encodes as the id of the cell does.** -/
theorem encode_runs (hs : s.Sound document definitions) (hc : s.cells[k]? = some c)
    (hscope : c.scope = []) {depth : Nat} {value encoded : Value}
    (h : (document.encoding depth c.id).encode value = some encoded) :
    ∃ s', Runs (encode definitions depth (Artifact.owner k : A) value) s encoded s' ∧
      s.Grows s' ∧ s'.Sound document definitions := by
  rw [encode, encoding, LawfulArtifact.encoder_owner, Blueprint.fold]
  exact hold_runs hs hc hscope
    (fun s hc hattends => (cellEncoding_simulates depth s k c hc hattends value trivial).1) h

/-- **It accepts as the id of the cell does.** -/
theorem accepts_runs (hs : s.Sound document definitions) (hc : s.cells[k]? = some c)
    (hscope : c.scope = []) {depth : Nat} {value : Value} {accepted : Bool}
    (h : (document.encoding depth c.id).accepts value = some accepted) :
    ∃ s', Runs (accepts definitions depth (Artifact.owner k : A) value) s accepted s' ∧
      s.Grows s' ∧ s'.Sound document definitions := by
  rw [accepts, encoding, LawfulArtifact.encoder_owner, Blueprint.fold]
  exact hold_runs hs hc hscope
    (fun s hc hattends => (cellEncoding_simulates depth s k c hc hattends value trivial).2) h

end Lazy
end Schemata
