import Schemata.Proofs.Lazy.Composed
import Schemata.Proofs.Lazy.Tiers

/-!
# Intersections are associative

Both sides of an intersection take the same value, so what they make of it retains the value, and
merging is associative on such results; the failures of three parts stand in the same order however
they are grouped.  The calls go through the same cells in the same order as well, so they come to
the same store, or halt alike.

**Input.**  Artifacts that a program holds that builds schemas of combinators, uses of their
intersections, and a value whose members have distinct keys.

**Algorithm.**  A call holds the artifact that it uses.  The intersections own the same cells in
the same order, and that is all that can be seen of what is held (`swapping`); so a call can be
moved from the store that holds the one to the store that holds the other.

**Results.**

* `decode_assoc` and `encode_assoc`: decoders and encoders whose results retain their input are
  intersected in either order of grouping.
* `cellDecoding_swaps` and `cellEncoding_swaps`: calls see of what is held nothing but the cells
  that it owns.
* `intersection_assoc`: so are artifacts that combinators have made.
-/

namespace Schemata

open Json (Value)

/-- The value that a use is of. -/
def Use.value : Use → Value
  | .decode value => value
  | .encode value => value
  | .accepts value => value

namespace Lazy

variable {A : Type} [Artifact A]

/-! ## Readings -/

section Readings

variable {s : Store A} {value : Value}

/-- **Intersections of decoders are associative** where what they decode retains the input. -/
theorem decode_assoc {d e f : Decoding (Run A)} (hd : d.Retains composing)
    (he : e.Retains composing) (hf : f.Retains composing) (hs : s.Composed)
    (hvalue : value.Distinct) :
    ((d.intersection e).intersection f).decode value s =
      (d.intersection (e.intersection f)).decode value s := by
  simp only [Decoding.intersection, bind_assoc, pure_bind]
  refine bind_congr rfl fun o s₁ hrun => ?_
  obtain ⟨ho, hs₁⟩ := hd value s o s₁ hs hrun
  refine bind_congr rfl fun p s₂ hrun => ?_
  obtain ⟨hp, hs₂⟩ := he value s₁ p s₂ hs₁ hrun
  refine bind_congr rfl fun q s₃ hrun => ?_
  obtain ⟨hq, _⟩ := hf value s₂ q s₃ hs₂ hrun
  rw [Outcome.both_assoc fun a b c ha hb hc =>
    Value.merge_assoc hvalue (ho a ha) (hp b hb) (hq c hc)]

/-- **Intersections of encoders are associative** where what they encode retains the input. -/
theorem encode_assoc {d e f : Encoding (Run A)} (hd : d.Retains composing)
    (he : e.Retains composing) (hf : f.Retains composing) (hs : s.Composed)
    (hvalue : value.Distinct) :
    ((d.intersection e).intersection f).encode value s =
      (d.intersection (e.intersection f)).encode value s := by
  simp only [Encoding.intersection, bind_assoc, pure_bind]
  refine bind_congr rfl fun a s₁ hrun => ?_
  obtain ⟨ha, hs₁⟩ := (hd value).1 s a s₁ hs hrun
  refine bind_congr rfl fun b s₂ hrun => ?_
  obtain ⟨hb, hs₂⟩ := (he value).1 s₁ b s₂ hs₁ hrun
  refine bind_congr rfl fun c s₃ hrun => ?_
  obtain ⟨hc, _⟩ := (hf value).1 s₂ c s₃ hs₂ hrun
  rw [Value.merge_assoc hvalue ha hb hc]

omit [Artifact A] in
theorem andAlso_assoc (x y z : Run A Bool) :
    Encoding.andAlso (Encoding.andAlso x y) z = Encoding.andAlso x (Encoding.andAlso y z) := by
  simp only [Encoding.andAlso, bind_assoc]
  refine congrArg (x >>= ·) (funext fun accepted => ?_)
  cases accepted with
  | true => rfl
  | false => simp

end Readings

/-! ## What is held -/

/-- A store in which other artifacts are held. -/
def Store.holding (s : Store A) (held : List A) : Store A := { s with held }

/-- Whether a cell is alive is seen from the cells that the held artifacts own. -/
theorem Store.isAlive_holding {s : Store A} {held : List A}
    (h : Store.owned held = Store.owned s.held) (k : CellId) :
    (s.holding held).isAlive k = s.isAlive k := by
  have hroots : (s.holding held).roots = s.roots :=
    congrArg (· ++ Store.owned (s.names.map Prod.snd)) h
  have hkept : ∀ (rounds : Nat) (latest found : List CellId),
      (s.holding held).isKept k rounds latest found = s.isKept k rounds latest found := by
    intro rounds
    induction rounds with
    | zero => exact fun _ _ => rfl
    | succ rounds ih =>
        intro latest found
        rw [isKept_succ, isKept_succ, ih]
        rfl
  rw [isAlive, isAlive, hroots, hkept]
  rfl

/-- Calls from stores that differ in what is held, but not in the cells that it owns: they end
alike, and what is held stays as it is. -/
def swapping : Correspondence (Run A) (Run A) where
  rel x y := ∀ (s : Store A) (held : List A), Store.owned held = Store.owned s.held →
    (∃ halt, Stops x s halt ∧ Stops y (s.holding held) halt) ∨
      ∃ a s', Runs x s a s' ∧ Runs y (s.holding held) a (s'.holding held) ∧ s'.held = s.held
  pure a s held _ := .inr ⟨a, s, .pure a s, .pure a _, rfl⟩
  bind {_ _ _ _ _ _} hx hf s held howned := by
    rcases hx s held howned with ⟨halt, hx, hy⟩ | ⟨a, s', hx, hy, hheld⟩
    · exact .inl ⟨halt, hx.bind, hy.bind⟩
    · rw [← hheld] at howned
      rcases hf a s' held howned with ⟨halt, hf, hg⟩ | ⟨b, s'', hf, hg, hheld'⟩
      · exact .inl ⟨halt, hx.stops hf, hy.stops hg⟩
      · exact .inr ⟨b, s'', hx.bind hf, hy.bind hg, hheld'.trans hheld⟩

section Swapping

variable {α : Type} {x y : Run A α} {k : CellId} {definitions : Entries Definition}

theorem throw_swaps (halt : Halt) : swapping.rel (throw halt : Run A α) (throw halt) :=
  fun _ _ _ => .inl ⟨halt, rfl, rfl⟩

/-- A change that does not touch what is held. -/
theorem modify_swaps {f : Store A → Store A}
    (h : ∀ s held, f (Store.holding s held) = (f s).holding held)
    (hheld : ∀ s, (f s).held = s.held) :
    swapping.rel (modify f : Run A Unit) (modify f) := by
  refine fun s held _ => .inr ⟨(), f s, .update f s, ?_, hheld s⟩
  rw [← h]
  exact .update f _

theorem cell_swaps (k : CellId) : swapping.rel (cell k : Run A (Cell A)) (cell k) := by
  intro s held _
  cases hc : s.cells[k]? with
  | none =>
      have hother : Stops (cell k) (s.holding held) (.noCell k) := .cell hc
      exact .inl ⟨_, .cell hc, hother⟩
  | some c =>
      have hother : Runs (cell k) (s.holding held) c (s.holding held) := .cell hc
      exact .inr ⟨c, s, .cell hc, hother, rfl⟩

theorem allocate_swaps (id : String) (body : Body A) (scope : List (String × A)) :
    swapping.rel (allocate id body scope) (allocate id body scope) :=
  fun s held _ =>
    .inr ⟨_, _, .allocate id body scope s, .allocate id body scope (s.holding held), rfl⟩

/-- A definition runs whatever is held. -/
theorem run_swaps : swapping.rel (run definitions k : Run A A) (run definitions k) := by
  refine swapping.bind (cell_swaps k) fun c => ?_
  have hbody : swapping.rel (bodySchema definitions c) (bodySchema definitions c) := by
    rw [bodySchema]
    cases c.body with
    | schema binder body stash => exact swapping.pure body
    | definition =>
        cases definitions.lookup c.id with
        | some definition => exact swapping.pure _
        | none => exact throw_swaps _
  refine swapping.bind hbody fun x => swapping.bind (modify_swaps (fun _ _ => rfl) fun _ => rfl)
    fun _ => ?_
  exact build_rel definitions swapping (fun id body => allocate_swaps id body _) x
    (.inl fun name => throw_swaps _)

theorem resolve_swaps : swapping.rel (resolve definitions k : Run A A) (resolve definitions k) := by
  refine swapping.bind (cell_swaps k) fun c => ?_
  cases c.resolved with
  | some a => exact swapping.pure a
  | none =>
      exact swapping.bind run_swaps fun a =>
        swapping.bind (modify_swaps (fun _ _ => rfl) fun _ => rfl) fun _ => swapping.pure a

theorem alive_swaps {x' y' : Run A α} (h : swapping.rel x y) (h' : swapping.rel x' y') :
    swapping.rel (do if (← get).isAlive k then x else x')
      (do if (← get).isAlive k then y else y') := by
  intro s held howned
  have hget : Runs (get : Run A (Store A)) s s s := .get s
  have hget' : Runs (get : Run A (Store A)) (s.holding held) (s.holding held) (s.holding held) :=
    .get _
  have halive := Store.isAlive_holding howned k
  have hnext : swapping.rel (if s.isAlive k then x else x')
      (if (s.holding held).isAlive k then y else y') := by
    rw [halive]
    exact swapping.ite h h'
  rcases hnext s held howned with ⟨halt, hx, hy⟩ | ⟨a, s', hx, hy, hheld⟩
  · exact .inl ⟨halt, hget.stops hx, hget'.stops hy⟩
  · exact .inr ⟨a, s', hget.bind hx, hget'.bind hy, hheld⟩

/-- **A call that holds an artifact ends like one that holds another**, where both own the same
cells. -/
theorem holding_swaps {a b : A} (hcells : Artifact.cells a = Artifact.cells b)
    (h : swapping.rel x y) : swapping.rel (holding a x) (holding b y) := by
  intro s held howned
  have howned' : Store.owned (b :: held) = Store.owned (s.hold a).held := by
    show Artifact.cells b ++ Store.owned held = Artifact.cells a ++ Store.owned s.held
    rw [hcells, howned]
  have hx : Runs (modify fun store : Store A => { store with held := a :: store.held }) s ()
    (s.hold a) := .update _ s
  have hy : Runs (modify fun store : Store A => { store with held := b :: store.held })
    (s.holding held) () ((s.hold a).holding (b :: held)) := .update _ _
  rcases h (s.hold a) (b :: held) howned' with ⟨halt, hx', hy'⟩ | ⟨v, s', hx', hy', hheld⟩
  · exact .inl ⟨halt, hx.stops hx'.bind, hy.stops hy'.bind⟩
  · refine .inr ⟨v, s'.holding s'.held.tail, hx.bind (hx'.bind ?_), hy.bind (hy'.bind ?_), ?_⟩
    · exact (Runs.update _ s').bind (.pure v _)
    · exact (Runs.update _ _).bind (.pure v _)
    · show s'.held.tail = s.held
      rw [hheld]
      rfl

/-- Calls that agree while one artifact is held agree where each holds an artifact of its own, if
both own the same cells. -/
theorem holding_eq {a b : A} (hcells : Artifact.cells a = Artifact.cells b) {s : Store A}
    (heq : x (s.hold a) = y (s.hold a)) (hy : swapping.rel y y) :
    holding a x s = holding b y s := by
  have hfirst : holding a x s = holding a y s :=
    bind_congr rfl fun _ s₁ hrun => by
      obtain ⟨_, rfl⟩ : () = _ ∧ s.hold a = s₁ := (Runs.update _ s).unique hrun
      exact bind_congr heq fun _ _ _ => rfl
  rcases holding_swaps hcells hy s s.held rfl with ⟨halt, ha, hb⟩ | ⟨v, s', ha, hb, hheld⟩
  · exact hfirst.trans (ha.trans hb.symm)
  · have hsame : s'.holding s.held = s' := by
      rw [← hheld]
      rfl
    rw [hsame] at hb
    exact hfirst.trans (ha.trans hb.symm)

end Swapping

/-! ## Calls -/

section Calls

variable {definitions : Entries Definition}

theorem decoding_swaps {depth : Nat} (hcells : ∀ (k : CellId) (value : Value),
    swapping.rel ((cellDecoding (A := A) definitions depth k).decode value)
      ((cellDecoding definitions depth k).decode value)) (b : Blueprint) (value : Value) :
    swapping.rel
      ((b.fold (cellDecoding (A := A) definitions depth) fun k =>
        handleDecoding k (cellDecoding definitions depth k)).decode value)
      ((b.fold (cellDecoding definitions depth) fun k =>
        handleDecoding k (cellDecoding definitions depth k)).decode value) := by
  refine Blueprint.fold_rel (Decoding.compatible swapping) b (fun leaf _ value _ => ?_) value
    trivial
  cases leaf with
  | owner k => exact hcells k value
  | handle k => exact alive_swaps (hcells k value) (swapping.pure _)

/-- **Decoding by a cell sees of what is held nothing but the cells that it owns.** -/
theorem cellDecoding_swaps : ∀ (depth : Nat) (k : CellId) (value : Value),
    swapping.rel ((cellDecoding (A := A) definitions depth k).decode value)
      ((cellDecoding definitions depth k).decode value)
  | 0, _, _ => throw_swaps _
  | depth + 1, k, value => by
      refine holding_swaps rfl (swapping.bind resolve_swaps fun a => ?_)
      refine swapping.bind (decoding_swaps (cellDecoding_swaps depth) _ value) fun outcome => ?_
      exact swapping.bind (cell_swaps k) fun c => swapping.pure _

theorem encoding_swaps {depth : Nat} (hcells : ∀ (k : CellId) (value : Value),
    Encoding.RelAt swapping value (cellEncoding (A := A) definitions depth k)
      (cellEncoding definitions depth k)) (a : A) (value : Value) :
    Encoding.RelAt swapping value (encoding definitions depth a)
      (encoding definitions depth a) := by
  refine Blueprint.fold_rel (Encoding.compatible swapping) _ (fun leaf _ value _ => ?_) value
    trivial
  cases leaf with
  | owner k => exact hcells k value
  | handle k =>
      exact ⟨alive_swaps (hcells k value).1 (swapping.pure _),
        alive_swaps (hcells k value).2 (swapping.pure _)⟩

/-- **So does encoding**, and its guard. -/
theorem cellEncoding_swaps : ∀ (depth : Nat) (k : CellId) (value : Value),
    Encoding.RelAt swapping value (cellEncoding (A := A) definitions depth k)
      (cellEncoding definitions depth k)
  | 0, _, _ => ⟨throw_swaps _, throw_swaps _⟩
  | depth + 1, k, value => by
      have hpart (a : A) := encoding_swaps (cellEncoding_swaps depth) a value
      constructor
      · exact holding_swaps rfl (swapping.bind resolve_swaps fun a => (hpart a).1)
      · exact holding_swaps rfl (swapping.bind resolve_swaps fun a => (hpart a).2)

end Calls

/-! ## Grouping -/

section Grouping

variable [ThoroughArtifact A] {s : Store A} {a b c : A}

omit [ThoroughArtifact A] in
/-- An intersection is read as that of its readings, whatever cells mean. -/
theorem fold_intersection {B : Type} [Vocabulary B] {f : A → Blueprint} (hf : Respects f)
    (owned referred : CellId → B) (a b : A) :
    (f (Vocabulary.intersection a b)).fold owned referred =
      Vocabulary.intersection ((f a).fold owned referred) ((f b).fold owned referred) := by
  rw [hf.intersection]
  exact (Blueprint.respects_fold owned referred).intersection _ _

omit [ThoroughArtifact A] in
/-- Both intersections own the same cells in the same order. -/
theorem cells_grouped [LawfulArtifact A] (a b c : A) :
    Artifact.cells (Vocabulary.intersection (Vocabulary.intersection a b) c) =
      Artifact.cells (Vocabulary.intersection a (Vocabulary.intersection b c)) := by
  have hcells (x y : Blueprint) :
      (Vocabulary.intersection x y : Blueprint).cells = x.cells ++ y.cells := by
    show (Blueprint.intersection x y).cells = _
    rw [Blueprint.cells]
  simp only [Artifact.cells, LawfulArtifact.respects_decoder.intersection,
    LawfulArtifact.respects_encoder.intersection, hcells, List.append_assoc]

/-- **Artifacts made by combinators can be intersected in either order of grouping.** -/
theorem use_grouped (definitions : Entries Definition) (hs : s.Composed)
    (ha : Artifact.Composed a) (hb : Artifact.Composed b) (hc : Artifact.Composed c) (how : Use)
    (hhow : how.value.Distinct) (depth : Nat) :
    use definitions depth (Vocabulary.intersection (Vocabulary.intersection a b) c) how s =
      use definitions depth (Vocabulary.intersection a (Vocabulary.intersection b c)) how s := by
  have hhold := hs.hold (Artifact.composed_composing.intersection
    (Artifact.composed_composing.intersection ha hb) hc)
  have hcells := cells_grouped a b c
  have hdecoding {x : A} (hx : Artifact.Composed x) :=
    decoding_retains definitions (cellDecoding_retains definitions depth) hx
  have hencoding {x : A} (hx : Artifact.Composed x) :=
    encoding_retains definitions (cellEncoding_retains definitions depth) hx
  cases how with
  | decode value =>
      refine bind_congr (holding_eq hcells ?_ ?_) fun _ _ _ => rfl
      · simp only [fold_intersection LawfulArtifact.respects_decoder]
        exact decode_assoc (hdecoding ha) (hdecoding hb) (hdecoding hc) hhold hhow
      · exact decoding_swaps (cellDecoding_swaps depth) _ value
  | encode value =>
      refine bind_congr (holding_eq hcells ?_ ?_) fun _ _ _ => rfl
      · simp only [encoding, fold_intersection LawfulArtifact.respects_encoder]
        exact encode_assoc (hencoding ha) (hencoding hb) (hencoding hc) hhold hhow
      · exact (encoding_swaps (cellEncoding_swaps depth) _ value).1
  | accepts value =>
      refine bind_congr (holding_eq hcells ?_ ?_) fun _ _ _ => rfl
      · simp only [encoding, fold_intersection LawfulArtifact.respects_encoder]
        exact congrFun (andAlso_assoc _ _ _) _
      · exact (encoding_swaps (cellEncoding_swaps depth) _ value).2

end Grouping

/-! ## Answers -/

section Answers

variable [LawfulArtifact A] {document : Document} {s : Store A} {a : A} {definition : Definition}

omit [LawfulArtifact A] in
/-- A call that holds an artifact has an answer where the plain computation has one. -/
theorem holding_answers {α : Type} (hs : s.Sound document document.definitions) {x : Run A α}
    {y : Option α} (h : ((s.hold a).simulation document document.definitions).rel x y) {b : α}
    (hy : y = some b) : ∃ s', Runs (holding a x) s b s' := by
  have hsound : (s.hold a).Sound document document.definitions := hs.of_cells rfl
  obtain ⟨s', hrun, hgrow, _⟩ := h (s.hold a) b (.refl _) hsound hy
  exact ⟨_, (hrun.holding hgrow).1⟩

omit [LawfulArtifact A] in
/-- What is related of cells and names is related of an artifact and what it means. -/
theorem Store.Means.rel (h : s.Means [] [] a definition) {B : Type} [Vocabulary B]
    {r : A → B → Prop} (hr : Congruence r r) {g : String → B}
    (howner : ∀ k c, s.cells[k]? = some c → s.Attends c.scope → r (Artifact.owner k) (g c.id)) :
    r a (definition.fold g) := by
  refine h B g r hr ?_
  rintro _ _ ⟨_, hleaf, rfl⟩
  cases hleaf with
  | owner hc hscope _ =>
      refine howner _ _ hc ?_
      rw [hscope]
      exact fun _ _ hmem => nomatch hmem
  | handle hmem _ => exact nomatch hmem

theorem Store.Means.decode_simulates (h : s.Means [] [] a definition) (depth : Nat)
    (value : Value) :
    (s.simulation document document.definitions).rel
      (((Artifact.decoder a).fold (cellDecoding document.definitions depth) fun k =>
        handleDecoding k (cellDecoding document.definitions depth k)).decode value)
      ((definition.fold (document.decoding depth)).decode value) := by
  have hrel := ((Decoding.congruence_all (s.simulation document document.definitions)).comap
    (Blueprint.respects_fold (cellDecoding document.definitions depth) fun k =>
      handleDecoding k (cellDecoding document.definitions depth k)) respects_id).comap
    (LawfulArtifact.respects_decoder (A := A)) respects_id
  refine h.rel hrel (fun k c hc hattends => ?_) value trivial
  rw [LawfulArtifact.decoder_owner, Blueprint.fold]
  exact cellDecoding_simulates depth s k c hc hattends

theorem Store.Means.encode_simulates (h : s.Means [] [] a definition) (depth : Nat)
    (value : Value) :
    Encoding.RelAt (s.simulation document document.definitions) value
      (encoding document.definitions depth a) (definition.fold (document.encoding depth)) := by
  have hrel := ((Encoding.congruence_all (s.simulation document document.definitions)).comap
    (Blueprint.respects_fold (cellEncoding document.definitions depth) fun k =>
      handleEncoding k (cellEncoding document.definitions depth k)) respects_id).comap
    (LawfulArtifact.respects_encoder (A := A)) respects_id
  refine h.rel hrel (fun k c hc hattends => ?_) value trivial
  rw [LawfulArtifact.encoder_owner, Blueprint.fold]
  exact cellEncoding_simulates depth s k c hc hattends

/-- **An artifact that means a definition of a guarded document answers.** -/
theorem Store.Means.answers (hguarded : document.Guarded)
    (hs : s.Sound document document.definitions) (h : s.Means [] [] a definition)
    (hnames : ∀ name ∈ definition.references, name ∈ document.definitions.keys) (how : Use) :
    ∃ answer s', Runs (use document.definitions (document.callDepth how.value) a how) s answer
      s' := by
  have hage : s.Ages (s.hold a) := .of_cells rfl
  have hhold := h.ages hage
  have hdepth := Nat.le_refl (document.callDepth how.value)
  cases how with
  | decode value =>
      obtain ⟨s', hrun⟩ := holding_answers hs (hhold.decode_simulates _ value)
        (Document.fold_decoder hguarded hnames hdepth)
      exact ⟨_, s', hrun.bind (.pure _ s')⟩
  | encode value =>
      obtain ⟨s', hrun⟩ := holding_answers hs (hhold.encode_simulates _ value).1
        (Document.fold_encoder hguarded hnames hdepth).1
      exact ⟨_, s', hrun.bind (.pure _ s')⟩
  | accepts value =>
      obtain ⟨s', hrun⟩ := holding_answers hs (hhold.encode_simulates _ value).2
        (Document.fold_encoder hguarded hnames hdepth).2
      exact ⟨_, s', hrun.bind (.pure _ s')⟩

end Answers

/-! ## Both groupings -/

section Grouped

variable [ThoroughArtifact A]

omit [ThoroughArtifact A] in
/-- Three schemas are built to the same artifacts and the same cells in both groupings. -/
theorem build_grouped {x y z : Schema A} (hx : x.Composed) (hy : y.Composed) (hz : z.Composed)
    {s s' : Store A} {artifact : A} (hs : s.Composed)
    (h : Runs (build [] (.intersection (.intersection x y) z)) s artifact s') :
    ∃ a b c : A, Artifact.Composed a ∧ Artifact.Composed b ∧ Artifact.Composed c ∧ s'.Composed ∧
      artifact = Vocabulary.intersection (Vocabulary.intersection a b) c ∧
      Runs (build [] (.intersection x (.intersection y z))) s
        (Vocabulary.intersection a (Vocabulary.intersection b c)) s' := by
  have hscope : ∀ entry ∈ ([] : List (String × A)), Artifact.Composed entry.2 := by simp
  simp only [build] at h
  obtain ⟨_, s₂, h, hlast⟩ := h.of_bind
  obtain ⟨a, s₁, hbuild₁, h⟩ := h.of_bind
  obtain ⟨b, _, hbuild₂, h⟩ := h.of_bind
  obtain ⟨rfl, rfl⟩ := h.of_pure
  obtain ⟨c, s₃, hbuild₃, hlast⟩ := hlast.of_bind
  obtain ⟨rfl, rfl⟩ := hlast.of_pure
  obtain ⟨ha, hs₁⟩ := build_composes hx hscope s a s₁ hs hbuild₁
  obtain ⟨hb, hs₂⟩ := build_composes hy hscope s₁ b _ hs₁ hbuild₂
  obtain ⟨hc, hs₃⟩ := build_composes hz hscope _ c s₃ hs₂ hbuild₃
  have hright : Runs (build [] (.intersection y z)) s₁ (Vocabulary.intersection b c) s₃ := by
    rw [build]
    exact hbuild₂.bind (hbuild₃.bind (.pure _ s₃))
  refine ⟨a, b, c, ha, hb, hc, hs₃, rfl, ?_⟩
  rw [build]
  exact hbuild₁.bind (hright.bind (.pure _ s₃))

/-- **Definitions of a guarded document answer in both groupings**, and alike. -/
theorem definitions_grouped {document : Document} (hguarded : document.Guarded)
    {x y z : Definition}
    (hnames : ∀ name ∈ x.references ++ y.references ++ z.references,
      name ∈ document.definitions.keys) (how : Use) (hhow : how.value.Distinct) :
    ∃ answer, ∀ w ∈ [Definition.intersection (.intersection x y) z,
        .intersection x (.intersection y z)],
      ∃ (artifact : A) (s s' : Store A), Runs (build [] (w.fold .ref)) {} artifact s ∧
        Runs (use document.definitions (document.callDepth how.value) artifact how) s answer
          s' := by
  have hfold (l r : Definition) : ((Definition.intersection l r).fold .ref : Schema A) =
      .intersection (l.fold .ref) (r.fold .ref) := by
    rw [Definition.fold]
    rfl
  have hcomposed (w : Definition) : (w.fold .ref : Schema A).Composed :=
    Schema.composed_fold w fun name _ => .ref name
  have hleft : ∀ name ∈ (Definition.intersection (.intersection x y) z).references,
      name ∈ document.definitions.keys := by
    simpa only [Definition.references] using hnames
  obtain ⟨artifact, s, hbuild, _, hsound, hmeans⟩ := builds_fold (A := A)
    (fun name hname => .ref rfl (hleft name hname) (by simp)) Store.Sound.empty .nil
  obtain ⟨answer, s', huse⟩ := hmeans.answers hguarded hsound hleft how
  rw [hfold, hfold] at hbuild
  obtain ⟨a, b, c, ha, hb, hc, hs, rfl, hbuild'⟩ := build_grouped (hcomposed x) (hcomposed y)
    (hcomposed z) Conduct.composed_empty hbuild
  have huse' := huse
  rw [Runs, use_grouped document.definitions hs ha hb hc how hhow] at huse'
  refine ⟨answer, List.forall_mem_cons.2 ⟨?_, List.forall_mem_singleton.2 ?_⟩⟩
  · rw [hfold, hfold]
    exact ⟨_, s, s', hbuild, huse⟩
  · rw [hfold, hfold]
    exact ⟨_, s, s', hbuild', huse'⟩

/-- **Intersections are associative.**  Let a program have built schemas of combinators, lazy ones
among them, and have made any calls, and let it hold three artifacts.  Their intersections, grouped
to the left and to the right, decode a value alike, with the same keys in the same order or the
same failures in the same order, encode it to the same value, and both accept it or neither; the
calls leave the same store, and halt alike where calls are nested too deep or a name is unbound.
Definitions of a guarded document do have an answer, and it is the same in both groupings. -/
theorem intersection_assoc (definitions : Entries Definition) {s : Store A}
    (hs : (Conduct.composing definitions).Reached s) {a b c : A} (ha : s.Holds a) (hb : s.Holds b)
    (hc : s.Holds c) (how : Use) (hhow : how.value.Distinct) :
    (∀ depth,
      use definitions depth (Vocabulary.intersection (Vocabulary.intersection a b) c) how s =
        use definitions depth (Vocabulary.intersection a (Vocabulary.intersection b c)) how s) ∧
    ∀ document : Document, document.Guarded → ∀ x y z : Definition,
      (∀ name ∈ x.references ++ y.references ++ z.references,
        name ∈ document.definitions.keys) →
      ∃ answer, ∀ w ∈ [Definition.intersection (.intersection x y) z,
          .intersection x (.intersection y z)],
        ∃ (artifact : A) (t t' : Store A), Runs (build [] (w.fold .ref)) {} artifact t ∧
          Runs (use document.definitions (document.callDepth how.value) artifact how) t answer
            t' := by
  have hcomposed := hs.composed
  refine ⟨use_grouped definitions hcomposed (hcomposed.holds ha) (hcomposed.holds hb)
    (hcomposed.holds hc) how hhow, fun document hguarded x y z hnames => ?_⟩
  exact definitions_grouped hguarded hnames how hhow

end Grouped

/-- Points. -/
def points : Schema Codec := .object .required [("x", .primitive .number)]

/-- Tags that may be followed by others. -/
def tags : Schema Codec :=
  .lazy "Tag" "Tag" (.object .optional [("tag", .primitive .string), ("next", .self "Tag")]) none

/-- A point with a tag, and one more member. -/
def taggedPoint : Value :=
  .object [("y", .null), ("tag", .string "corner"), ("x", .number (.integer 1))]

/-- A tagged point comes out with the key of the point first, then that of the tag, then all
others, in both groupings. -/
theorem taggedPoint_grouped :
    ∃ (s : Store Codec) (a b c : Codec), (Conduct.composing []).Reached s ∧
      (s.Holds a ∧ s.Holds b ∧ s.Holds c) ∧
      ∀ w ∈ [Vocabulary.intersection (Vocabulary.intersection a b) c,
          Vocabulary.intersection a (Vocabulary.intersection b c)],
        (use [] 3 w (.decode taggedPoint) s).map Prod.fst =
          .ok (.decoded (.ok (.object [("x", .number (.integer 1)), ("tag", .string "corner"),
            ("y", .null)]))) := by
  have hpoints : points.Composed := .object _ (by simp [Schema.Composed.primitive])
  have htags : tags.Composed := .lazy _ _ _ (.object _ (by
    simp [Schema.Composed.primitive, Schema.Composed.self]))
  have hreached : (Conduct.composing []).Reached _ :=
    ((Relation.ReflTransGen.single (.build hpoints (by simp [points, Schema.given,
      Schema.givenInFields]) rfl)).tail (.build htags (by simp [tags, Schema.given,
        Schema.givenInFields]) rfl)).tail (.build (.primitive .object) (by simp [Schema.given]) rfl)
  have hdistinct : taggedPoint.Distinct := by
    show ["y", "tag", "x"].Nodup
    decide
  have hgrouped := (intersection_assoc [] hreached (.inl (.tail _ (.tail _ (.head _))))
    (.inl (.tail _ (.head _))) (.inl (.head _)) (.decode taggedPoint) hdistinct).1 3
  refine ⟨_, _, _, _, hreached, ⟨.inl (.tail _ (.tail _ (.head _))), .inl (.tail _ (.head _)),
    .inl (.head _)⟩, List.forall_mem_cons.2 ⟨rfl, List.forall_mem_singleton.2 ?_⟩⟩
  rw [← hgrouped]
  rfl

end Lazy
end Schemata
