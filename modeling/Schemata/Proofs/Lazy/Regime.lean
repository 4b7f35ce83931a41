import Schemata.Proofs.Lazy.Footprint
import Schemata.Proofs.Lazy.Simulation
import Schemata.Proofs.Memoization

/-!
# Regimes of calls

A `Regime` says what holds of stores between calls, how stores change while a call goes on, which
leaves a call may come across, and which halts it may end with.  It is asked for nothing but
holding an artifact, letting go of it and resolving a cell; whole calls follow, by induction on
their depth and by the leaves of the artifacts that they go through.

Handles whose cells are not alive answer by a `Refusal`.  A regime compares calls under two
refusals: where it says that they cannot be told apart, the calls are the same.

**Input.**  A call of `decode`, `encode` or `accepts`, to any depth, of an artifact that the regime
lets calls use.

**Results.**

* `useUnder_dead`: the uses of artifacts are those under the refusal of dead handles.
* `Regime.cellDecoding_at`, `Regime.cellEncoding_at`: what a regime says of calls of cells.
* `Regime.use_at`: what it says of uses of artifacts.
-/

namespace Schemata
namespace Lazy

open Json (Value)
open Blueprint (Leaf)

variable {A : Type} [Artifact A]

/-! ## Refusals -/

/-- What a handle answers when its cell is not alive. -/
structure Refusal (A : Type) where
  decode : Value → Run A (Outcome Value)
  encode : Value → Run A Value
  accepts : Value → Run A Bool

/-- A dead handle refuses every value when it decodes, and changes none when it encodes. -/
def Refusal.dead : Refusal A where
  decode value := pure (.error (.leaf value deadLabel))
  encode value := pure value
  accepts _ := pure false

section Under

variable (definitions : Entries Definition) (refusal : Refusal A)

/-- Decoding by a handle under a refusal, given how its cell decodes. -/
def handleDecodingUnder (id : CellId) (whole : Decoding (Run A)) : Decoding (Run A) where
  decode value := do
    if (← get).isAlive id then whole.decode value else refusal.decode value

/-- Encoding by a handle under a refusal, given how its cell encodes. -/
def handleEncodingUnder (id : CellId) (whole : Encoding (Run A)) : Encoding (Run A) where
  encode value := do
    if (← get).isAlive id then whole.encode value else refusal.encode value
  accepts value := do
    if (← get).isAlive id then whole.accepts value else refusal.accepts value

/-- Decoding by a cell under a refusal, with calls nested to a depth. -/
def cellDecodingUnder : Nat → CellId → Decoding (Run A)
  | 0, _ => ⟨fun _ => throw .depth⟩
  | depth + 1, id => ⟨fun value =>
      holding (Artifact.owner id) do
        let artifact ← resolve definitions id
        let outcome ← ((Artifact.decoder artifact).fold (cellDecodingUnder depth)
          (fun id => handleDecodingUnder refusal id (cellDecodingUnder depth id))).decode value
        pure (outcome.under (.lazy (← cell id).id))⟩

/-- Encoding by a cell under a refusal, with calls nested to a depth. -/
def cellEncodingUnder : Nat → CellId → Encoding (Run A)
  | 0, _ => ⟨fun _ => throw .depth, fun _ => throw .depth⟩
  | depth + 1, id =>
      let part (artifact : A) : Encoding (Run A) :=
        (Artifact.encoder artifact).fold (cellEncodingUnder depth)
          (fun id => handleEncodingUnder refusal id (cellEncodingUnder depth id))
      ⟨fun value => holding (Artifact.owner id) do
          let artifact ← resolve definitions id
          (part artifact).encode value,
        fun value => holding (Artifact.owner id) do
          let artifact ← resolve definitions id
          (part artifact).accepts value⟩

/-- The reading of an artifact as a decoder under a refusal. -/
def decodingUnder (depth : Nat) (artifact : A) : Decoding (Run A) :=
  (Artifact.decoder artifact).fold (cellDecodingUnder definitions refusal depth)
    (fun id => handleDecodingUnder refusal id (cellDecodingUnder definitions refusal depth id))

/-- The reading of an artifact as an encoder under a refusal. -/
def encodingUnder (depth : Nat) (artifact : A) : Encoding (Run A) :=
  (Artifact.encoder artifact).fold (cellEncodingUnder definitions refusal depth)
    (fun id => handleEncodingUnder refusal id (cellEncodingUnder definitions refusal depth id))

/-- The answer of a use of an artifact under a refusal. -/
def useUnder (depth : Nat) (artifact : A) : Use → Run A Answer
  | .decode value => do
      pure (.decoded (← holding artifact
        ((decodingUnder definitions refusal depth artifact).decode value)))
  | .encode value => do
      pure (.encoded (← holding artifact
        ((encodingUnder definitions refusal depth artifact).encode value)))
  | .accepts value => do
      pure (.accepted (← holding artifact
        ((encodingUnder definitions refusal depth artifact).accepts value)))

/-- The answer of a use of an artifact. -/
def use (depth : Nat) (artifact : A) : Use → Run A Answer
  | .decode value => do pure (.decoded (← decode definitions depth artifact value))
  | .encode value => do pure (.encoded (← encode definitions depth artifact value))
  | .accepts value => do pure (.accepted (← accepts definitions depth artifact value))

theorem cellDecodingUnder_dead : ∀ depth : Nat,
    cellDecodingUnder (A := A) definitions .dead depth = cellDecoding definitions depth
  | 0 => rfl
  | depth + 1 => by
      funext id
      rw [cellDecodingUnder, cellDecoding, cellDecodingUnder_dead depth]
      rfl

theorem cellEncodingUnder_dead : ∀ depth : Nat,
    cellEncodingUnder (A := A) definitions .dead depth = cellEncoding definitions depth
  | 0 => rfl
  | depth + 1 => by
      funext id
      rw [cellEncodingUnder, cellEncoding, cellEncodingUnder_dead depth]
      rfl

/-- **The uses of artifacts are those under the refusal of dead handles.** -/
theorem useUnder_dead (depth : Nat) (artifact : A) (how : Use) :
    useUnder definitions .dead depth artifact how = use definitions depth artifact how := by
  cases how with
  | decode value =>
      rw [useUnder, use, decodingUnder, cellDecodingUnder_dead]
      rfl
  | encode value =>
      rw [useUnder, use, encodingUnder, cellEncodingUnder_dead]
      rfl
  | accepts value =>
      rw [useUnder, use, encodingUnder, cellEncodingUnder_dead]
      rfl

end Under

/-! ## What calls ensure -/

section Ensures

omit [Artifact A]

variable {α β : Type}

/-- A call on a store ends with an answer and a store of which something holds, or halts in one
of some ways. -/
def Ensures (call : Run A α) (s : Store A) (halts : Halt → Prop) (post : α → Store A → Prop) :
    Prop :=
  match call s with
  | .ok (a, s') => post a s'
  | .error halt => halts halt

namespace Ensures

variable {call : Run A α} {s : Store A} {halts : Halt → Prop} {post : α → Store A → Prop}

theorem of_runs {a : α} {s' : Store A} (h : Runs call s a s') (hpost : post a s') :
    Ensures call s halts post := by
  rw [Ensures, show call s = .ok (a, s') from h]
  exact hpost

theorem update {f : Store A → Store A} (s' : Store A) (h : f s = s') :
    Ensures (modify f) s halts fun _ s₁ => s₁ = s' :=
  of_runs (.update f s) h

theorem runs {a : α} {s' : Store A} (h : Ensures call s halts post) (hrun : Runs call s a s') :
    post a s' := by
  rwa [Ensures, show call s = .ok (a, s') from hrun] at h

theorem error {halt : Halt} (h : Ensures call s halts post) (hcall : call s = .error halt) :
    halts halt := by
  rwa [Ensures, hcall] at h

theorem imp {post' : α → Store A → Prop} (h : Ensures call s halts post)
    (hpost : ∀ a s', Runs call s a s' → post a s' → post' a s') : Ensures call s halts post' := by
  rw [Ensures] at h ⊢
  cases hcall : call s with
  | ok p =>
      rw [hcall] at h
      exact hpost p.1 p.2 hcall h
  | error halt =>
      rw [hcall] at h
      exact h

theorem bind {next : α → Run A β} {post' : β → Store A → Prop} (h : Ensures call s halts post)
    (hnext : ∀ a s', Runs call s a s' → post a s' → Ensures (next a) s' halts post') :
    Ensures (call >>= next) s halts post' := by
  rw [Ensures] at h
  show match call s >>= fun p => next p.1 p.2 with
    | .ok (a, s') => post' a s'
    | .error halt => halts halt
  cases hcall : call s with
  | ok p =>
      rw [hcall] at h
      exact hnext p.1 p.2 hcall h
  | error halt =>
      rw [hcall] at h
      exact h

/-- A call that starts with one that comes to an end. -/
theorem after {next : α → Run A β} {post' : β → Store A → Prop} {a : α} {s' : Store A}
    (h : Runs call s a s') (hnext : Ensures (next a) s' halts post') :
    Ensures (call >>= next) s halts post' := by
  have hcall : Ensures call s halts fun b s'' => b = a ∧ s'' = s' := of_runs h ⟨rfl, rfl⟩
  refine hcall.bind ?_
  rintro _ _ _ ⟨rfl, rfl⟩
  exact hnext

/-- What holds of the answers of a call that may halt in any way. -/
theorem of_forall (h : ∀ a s', Runs call s a s' → post a s') :
    Ensures call s (fun _ => True) post := by
  rw [Ensures]
  cases hcall : call s with
  | ok p => exact h p.1 p.2 hcall
  | error halt => trivial

end Ensures

/-- Two calls that agree until one ends agree when the same follows. -/
theorem bind_congr {call call' : Run A α} {next next' : α → Run A β} {s : Store A}
    (h : call s = call' s) (hnext : ∀ a s', Runs call s a s' → next a s' = next' a s') :
    (call >>= next) s = (call' >>= next') s := by
  show (call s >>= fun p => next p.1 p.2) = (call' s >>= fun p => next' p.1 p.2)
  rw [← h]
  cases hcall : call s with
  | ok p => exact hnext p.1 p.2 hcall
  | error halt => rfl

end Ensures

/-! ## Regimes -/

/-- What calls of artifacts keep to. -/
structure Regime (A : Type) [Artifact A] (definitions : Entries Definition) where
  /-- What holds of stores between calls. -/
  Fine : Store A → Prop
  /-- How stores change over calls. -/
  Later : Store A → Store A → Prop
  /-- Which leaves calls may come across: those that they may still come across later. -/
  May : Store A → Leaf → Prop
  /-- Which artifacts calls may use at the time. -/
  Usable : Store A → A → Prop
  /-- The halts that calls may end with. -/
  Halts : Halt → Prop
  refl (s : Store A) : Later s s
  trans {s s' s'' : Store A} : Later s s' → Later s' s'' → Later s s''
  ages {s s' : Store A} : Later s s' → s.Ages s'
  held {s s' : Store A} : Later s s' → s'.held = s.held
  may {s s' : Store A} {leaf : Leaf} : Later s s' → May s leaf → May s' leaf
  depth : Halts .depth
  /-- A cell that a call comes across may be used. -/
  owner {s : Store A} {k : CellId} : Fine s → May s (.owner k) → Usable s (Artifact.owner k)
  /-- A handle that a call comes across may be used while its cell is alive. -/
  handle {s : Store A} {k : CellId} : Fine s → May s (.handle k) → s.isAlive k →
    Usable s (Artifact.owner k)
  holds {s : Store A} {a : A} : Fine s → Usable s a →
    Fine (s.hold a) ∧ ∀ leaf ∈ Artifact.leaves a, May (s.hold a) leaf
  resolves {s : Store A} {k : CellId} : Fine s → May s (.owner k) → k ∈ Store.owned s.held →
    Ensures (resolve definitions k) s Halts fun a s' =>
      Fine s' ∧ Later s s' ∧ ∀ leaf ∈ Artifact.leaves a, May s' leaf
  releases {s s' : Store A} {a : A} : Fine s → Usable s a → Fine s' → Later (s.hold a) s' →
    Fine { s' with held := s.held } ∧ Later s { s' with held := s.held }

namespace Regime

variable {definitions : Entries Definition} (R : Regime A definitions)

/-- Two calls that agree on a store, and leave one as the regime says. -/
def At {α : Type} (s : Store A) (x y : Run A α) : Prop :=
  R.Fine s → x s = y s ∧ Ensures x s R.Halts fun _ s' => R.Fine s' ∧ R.Later s s'

/-- Calls that agree on all later stores. -/
def From (s : Store A) : Correspondence (Run A) (Run A) where
  rel x y := ∀ s', R.Later s s' → R.At s' x y
  pure _ s' _ hfine := ⟨rfl, .of_runs (.pure _ s') ⟨hfine, R.refl s'⟩⟩
  bind {_ _ _ _ _ _} hxy hfg s₁ hlater hfine := by
    obtain ⟨heq, hensures⟩ := hxy s₁ hlater hfine
    have hnext {a s₂} (hrun : Runs _ s₁ a s₂) :=
      have ⟨hfine₂, hlater₂⟩ := hensures.runs hrun
      hfg a s₂ (R.trans hlater hlater₂) hfine₂
    refine ⟨bind_congr heq fun a s₂ hrun => (hnext hrun).1, hensures.bind fun a s₂ hrun h => ?_⟩
    exact (hnext hrun).2.imp fun _ _ _ h' => ⟨h'.1, R.trans h.2 h'.2⟩

/-- Two refusals that cannot be told apart on handles that calls come across. -/
structure Refuses (r r' : Refusal A) : Prop where
  decode {s : Store A} {k : CellId} : R.May s (.handle k) → s.isAlive k = false →
    ∀ value, R.At s (r.decode value) (r'.decode value)
  encode {s : Store A} {k : CellId} : R.May s (.handle k) → s.isAlive k = false →
    ∀ value, R.At s (r.encode value) (r'.encode value)
  accepts {s : Store A} {k : CellId} : R.May s (.handle k) → s.isAlive k = false →
    ∀ value, R.At s (r.accepts value) (r'.accepts value)

/-- Dead handles refuse without any change to the store. -/
theorem refuses_dead : R.Refuses .dead .dead where
  decode {s _} _ _ _ hfine := ⟨rfl, .of_runs (.pure _ s) ⟨hfine, R.refl s⟩⟩
  encode {s _} _ _ _ hfine := ⟨rfl, .of_runs (.pure _ s) ⟨hfine, R.refl s⟩⟩
  accepts {s _} _ _ _ hfine := ⟨rfl, .of_runs (.pure _ s) ⟨hfine, R.refl s⟩⟩

variable {R} {α β : Type} {s : Store A} {k : CellId}

theorem at_throw : R.At s (throw .depth : Run A α) (throw .depth) :=
  fun _ => ⟨rfl, R.depth⟩

/-- A call by a handle, whose cell is alive or not. -/
theorem at_handle {x x' y y' : Run A α} (hmay : R.May s (.handle k))
    (hlive : R.Usable s (Artifact.owner k) → R.At s x y)
    (hdead : s.isAlive k = false → R.At s x' y') :
    R.At s (do if (← get).isAlive k then x else x') (do if (← get).isAlive k then y else y') := by
  intro hfine
  show (if s.isAlive k then x else x') s = (if s.isAlive k then y else y') s ∧
    Ensures (if s.isAlive k then x else x') s R.Halts _
  cases halive : s.isAlive k with
  | true => exact hlive (R.handle hfine hmay halive) hfine
  | false => exact hdead halive hfine

/-- A call that holds an artifact which may be used. -/
theorem at_holding {a : A} {x y : Run A α} (ha : R.Usable s a)
    (h : (∀ leaf ∈ Artifact.leaves a, R.May (s.hold a) leaf) → R.At (s.hold a) x y) :
    R.At s (holding a x) (holding a y) := by
  intro hfine
  obtain ⟨hfine', hmay⟩ := R.holds hfine ha
  obtain ⟨heq, hensures⟩ := h hmay hfine'
  refine ⟨bind_congr rfl fun _ s₁ hhold => ?_, ?_⟩
  · obtain ⟨_, rfl⟩ : () = _ ∧ s.hold a = s₁ := (Runs.update _ s).unique hhold
    exact bind_congr heq fun _ _ _ => rfl
  · refine Ensures.bind (Ensures.update (s.hold a) rfl) fun _ s₁ _ hs₁ => ?_
    subst hs₁
    refine hensures.bind fun b s' _ hs' => ?_
    have htail : s'.held.tail = s.held := by
      rw [R.held hs'.2]
      rfl
    refine .of_runs ((Runs.update _ s').bind (.pure b _)) ?_
    rw [htail]
    exact R.releases hfine ha hs'.1 hs'.2

/-- A call that asks for a cell at last. -/
theorem at_cell {f : Cell A → α} (hcell : ∃ c, s.cells[k]? = some c) :
    R.At s (cell k >>= fun c => pure (f c)) (cell k >>= fun c => pure (f c)) := by
  obtain ⟨c, hc⟩ := hcell
  exact fun hfine => ⟨rfl, .of_runs ((Runs.cell hc).bind (.pure _ s)) ⟨hfine, R.refl s⟩⟩

/-- A call of a cell that may be used, given what it does with what the cell resolves to. -/
theorem at_call [LawfulArtifact A] {x y : A → Run A α} (hk : R.Usable s (Artifact.owner k))
    (h : ∀ s' a, (∀ leaf ∈ Artifact.leaves a, R.May s' leaf) → (∃ c, s'.cells[k]? = some c) →
      R.At s' (x a) (y a)) :
    R.At s (holding (Artifact.owner k) (resolve definitions k >>= x))
      (holding (Artifact.owner k) (resolve definitions k >>= y)) := by
  refine at_holding hk fun hmay hfine => ?_
  have howner : R.May (s.hold (Artifact.owner k)) (.owner k) :=
    hmay _ (Artifact.mem_leaves_owner.2 rfl)
  have hheld : k ∈ Store.owned (s.hold (Artifact.owner k)).held :=
    List.mem_append_left _ (LawfulArtifact.mem_cells_owner k)
  have hresolve := R.resolves hfine howner hheld
  have hnext (a : A) (s' : Store A)
      (hrun : Runs (resolve definitions k) (s.hold (Artifact.owner k)) a s') :
      x a s' = y a s' ∧ Ensures (x a) s' R.Halts fun _ s'' => R.Fine s'' ∧ R.Later s' s'' := by
    obtain ⟨hfine', hlater, hleaves⟩ := hresolve.runs hrun
    obtain ⟨c, _, hcell, _⟩ := Runs.of_bind hrun
    obtain ⟨c', hc', _⟩ := R.ages hlater k c hcell.of_cell.1
    exact h s' a hleaves ⟨c', hc'⟩ hfine'
  refine ⟨bind_congr rfl fun a s' hrun => (hnext a s' hrun).1,
    hresolve.bind fun a s' hrun hs' => ?_⟩
  exact (hnext a s' hrun).2.imp fun _ _ _ h' => ⟨h'.1, R.trans hs'.2.1 h'.2⟩

/-! ## Calls of cells -/

variable {r r' : Refusal A}

/-- Decoding by an artifact whose leaves calls may come across, given what cells do. -/
theorem decoding_at {depth : Nat} (hr : R.Refuses r r')
    (hcells : ∀ s k value, R.Usable s (Artifact.owner k) →
      R.At s ((cellDecodingUnder definitions r depth k).decode value)
        ((cellDecodingUnder definitions r' depth k).decode value))
    {a : A} (hmay : ∀ leaf ∈ Artifact.leaves a, R.May s leaf) :
    Decoding.RelOn (R.From s) (fun _ => True) (decodingUnder definitions r depth a)
      (decodingUnder definitions r' depth a) := by
  refine Blueprint.fold_rel (Decoding.compatible (R.From s)) _ fun leaf hleaf value _ => ?_
  intro s' hlater
  have hmay' := R.may hlater (hmay leaf (List.mem_append_left _ hleaf))
  cases leaf with
  | owner j => exact fun hfine => hcells s' j value (R.owner hfine hmay') hfine
  | handle j => exact at_handle hmay' (hcells s' j value) fun hdead => hr.decode hmay' hdead value

/-- Encoding by an artifact whose leaves calls may come across, given what cells do. -/
theorem encoding_at {depth : Nat} (hr : R.Refuses r r')
    (hcells : ∀ s k value, R.Usable s (Artifact.owner k) →
      R.At s ((cellEncodingUnder definitions r depth k).encode value)
        ((cellEncodingUnder definitions r' depth k).encode value) ∧
      R.At s ((cellEncodingUnder definitions r depth k).accepts value)
        ((cellEncodingUnder definitions r' depth k).accepts value))
    {a : A} (hmay : ∀ leaf ∈ Artifact.leaves a, R.May s leaf) :
    Encoding.RelOn (R.From s) (fun _ => True) (encodingUnder definitions r depth a)
      (encodingUnder definitions r' depth a) := by
  refine Blueprint.fold_rel (Encoding.compatible (R.From s)) _ fun leaf hleaf value _ => ?_
  have hmay' s' (hlater : R.Later s s') := R.may hlater (hmay leaf (List.mem_append_right _ hleaf))
  cases leaf with
  | owner j =>
      constructor
      · exact fun s' hlater hfine => (hcells s' j value (R.owner hfine (hmay' s' hlater))).1 hfine
      · exact fun s' hlater hfine => (hcells s' j value (R.owner hfine (hmay' s' hlater))).2 hfine
  | handle j =>
      constructor
      · exact fun s' hlater => at_handle (hmay' s' hlater) (fun hk => (hcells s' j value hk).1)
          fun hdead => hr.encode (hmay' s' hlater) hdead value
      · exact fun s' hlater => at_handle (hmay' s' hlater) (fun hk => (hcells s' j value hk).2)
          fun hdead => hr.accepts (hmay' s' hlater) hdead value

variable [LawfulArtifact A]

/-- **Decoding by a cell keeps to the regime**, and does not tell the refusals apart. -/
theorem cellDecoding_at (hr : R.Refuses r r') : ∀ (depth : Nat) (s : Store A) (k : CellId)
    (value : Value), R.Usable s (Artifact.owner k) →
      R.At s ((cellDecodingUnder definitions r depth k).decode value)
        ((cellDecodingUnder definitions r' depth k).decode value)
  | 0, _, _, _, _ => at_throw
  | depth + 1, s, k, value, hk => by
      refine at_call hk fun s' a hleaves hcell => ?_
      have hpart := decoding_at hr (cellDecoding_at hr depth) hleaves value trivial
      refine (R.From s').bind hpart (fun outcome s'' hlater => ?_) s' (R.refl s')
      obtain ⟨c, hc⟩ := hcell
      obtain ⟨c', hc', _⟩ := R.ages hlater k c hc
      exact at_cell ⟨c', hc'⟩

/-- **Encoding by a cell keeps to the regime**, and so does its guard. -/
theorem cellEncoding_at (hr : R.Refuses r r') : ∀ (depth : Nat) (s : Store A) (k : CellId)
    (value : Value), R.Usable s (Artifact.owner k) →
      R.At s ((cellEncodingUnder definitions r depth k).encode value)
        ((cellEncodingUnder definitions r' depth k).encode value) ∧
      R.At s ((cellEncodingUnder definitions r depth k).accepts value)
        ((cellEncodingUnder definitions r' depth k).accepts value)
  | 0, _, _, _, _ => ⟨at_throw, at_throw⟩
  | depth + 1, s, k, value, hk => by
      have hpart (s' : Store A) (a : A) (hleaves : ∀ leaf ∈ Artifact.leaves a, R.May s' leaf) :=
        encoding_at hr (cellEncoding_at hr depth) hleaves value trivial
      constructor
      · exact at_call hk fun s' a hleaves _ => (hpart s' a hleaves).1 s' (R.refl s')
      · exact at_call hk fun s' a hleaves _ => (hpart s' a hleaves).2 s' (R.refl s')

/-! ## Uses of artifacts -/

/-- **Every use of an artifact that may be used keeps to the regime**, and does not tell the
refusals apart. -/
theorem use_at (hr : R.Refuses r r') (depth : Nat) {a : A} (ha : R.Usable s a) (how : Use) :
    R.At s (useUnder definitions r depth a how) (useUnder definitions r' depth a how) := by
  have hpure {α : Type} {x y : Run A α} (f : α → Answer) (h : R.At s x y) :
      R.At s (x >>= fun b => pure (f b)) (y >>= fun b => pure (f b)) := by
    intro hfine
    obtain ⟨heq, hensures⟩ := h hfine
    exact ⟨bind_congr heq fun _ _ _ => rfl,
      hensures.bind fun b s' _ hs' => .of_runs (.pure _ s') hs'⟩
  cases how with
  | decode value =>
      exact hpure .decoded (at_holding ha fun hmay =>
        decoding_at hr (cellDecoding_at hr depth) hmay value trivial _ (R.refl _))
  | encode value =>
      exact hpure .encoded (at_holding ha fun hmay =>
        (encoding_at hr (cellEncoding_at hr depth) hmay value trivial).1 _ (R.refl _))
  | accepts value =>
      exact hpure .accepted (at_holding ha fun hmay =>
        (encoding_at hr (cellEncoding_at hr depth) hmay value trivial).2 _ (R.refl _))

/-- **So it does as the store goes on.** -/
theorem use_ensures (depth : Nat) {a : A} (ha : R.Usable s a) (hfine : R.Fine s) (how : Use) :
    Ensures (use definitions depth a how) s R.Halts fun _ s' => R.Fine s' ∧ R.Later s s' := by
  rw [← useUnder_dead]
  exact (use_at R.refuses_dead depth ha how hfine).2

end Regime

end Lazy
end Schemata
