import Schemata.Node.Identifier

/-!
# Distinct names have distinct identifiers

**Input.**  Names of any characters, and their identifiers.

**Algorithm.**  An identifier is read from the left: a character other than a dollar sign stands
for itself, a dollar sign starts a code point that ends at the next one.  So an escaped name is
read in one way only, and the dollar signs of a name that is not empty come in pairs.  The one
that follows a reserved word has no other, since no reserved word holds any.

**Results.**

* `hexDigits_injective`: the digits of a number give it back.
* `Spells.unique`: a spelled character at the start of a text is read in one way.
* `identifier_injective`: distinct names have distinct identifiers.
-/

namespace Schemata
namespace Text

theorem head?_cons_kind (kind : Char → Bool) {c : Char} (h : kind c = false)
    (rest : List Char) :
    ∀ d ∈ (c :: rest).head?, kind d = false := by
  rintro d ⟨⟩
  exact h

/-- A run of characters of a kind ends in one way only where a character of another kind or
nothing follows. -/
theorem run_unique (kind : Char → Bool) {run run' rest rest' : List Char}
    (h : ∀ c ∈ run, kind c = true) (h' : ∀ c ∈ run', kind c = true)
    (hrest : ∀ c ∈ rest.head?, kind c = false) (hrest' : ∀ c ∈ rest'.head?, kind c = false)
    (heq : run ++ rest = run' ++ rest') : run = run' ∧ rest = rest' := by
  have hnone : ∀ {text : List Char}, (∀ c ∈ text.head?, kind c = false) →
      text.takeWhile kind = [] := by
    intro text htext
    cases text with
    | nil => rfl
    | cons c text => simp [htext c rfl]
  have hrun := congrArg (List.takeWhile kind) heq
  rw [List.takeWhile_append_of_pos h, List.takeWhile_append_of_pos h', hnone hrest,
    hnone hrest', List.append_nil, List.append_nil] at hrun
  subst hrun
  exact ⟨rfl, List.append_cancel_left heq⟩

theorem hexDigit_injective :
    ∀ m < 16, ∀ n < 16, Nat.digitChar m = Nat.digitChar n → m = n := by
  decide

theorem hexDigit_ne_dollar : ∀ n < 16, Nat.digitChar n ≠ '$' := by
  decide

/-- The digits of a number are those of its sixteenth part and the last one. -/
theorem hexDigits_eq (n : Nat) :
    hexDigits n = (if n < 16 then [] else hexDigits (n / 16)) ++ [Nat.digitChar (n % 16)] := by
  rw [hexDigits]
  split
  case isTrue hlt => rw [Nat.toDigits_of_lt_base hlt, Nat.mod_eq_of_lt hlt, List.nil_append]
  case isFalse hle =>
    rw [Nat.toDigits_of_base_le (by omega) (by omega), hexDigits]

theorem hexDigits_ne_nil (n : Nat) : hexDigits n ≠ [] := Nat.toDigits_ne_nil

theorem dollar_notMem_hexDigits (n : Nat) : '$' ∉ hexDigits n := by
  induction n using Nat.strongRecOn with
  | ind n ih =>
      rw [hexDigits_eq, List.mem_append, List.mem_singleton]
      rintro (h | h)
      · by_cases hlt : n < 16
        · rw [if_pos hlt] at h
          cases h
        · rw [if_neg hlt] at h
          exact ih (n / 16) (by omega) h
      · exact hexDigit_ne_dollar _ (Nat.mod_lt _ (by omega)) h.symm

/-- The digits of a number give it back. -/
theorem hexDigits_injective {m n : Nat} (h : hexDigits m = hexDigits n) : m = n := by
  induction m using Nat.strongRecOn generalizing n with
  | ind m ih =>
      rw [hexDigits_eq m, hexDigits_eq n] at h
      obtain ⟨hinit, hlast⟩ := List.append_inj' h rfl
      have hmod : m % 16 = n % 16 :=
        hexDigit_injective _ (Nat.mod_lt _ (by omega)) _ (Nat.mod_lt _ (by omega))
          (List.singleton_inj.1 hlast)
      by_cases hm : m < 16
      · by_cases hn : n < 16
        · omega
        · rw [if_pos hm, if_neg hn] at hinit
          exact absurd hinit.symm (hexDigits_ne_nil _)
      · by_cases hn : n < 16
        · rw [if_neg hm, if_pos hn] at hinit
          exact absurd hinit (hexDigits_ne_nil _)
        · rw [if_neg hm, if_neg hn] at hinit
          have := ih (m / 16) (by omega) hinit
          omega

end Text

namespace Node

/-- What stands before the first dollar sign of a text, and what stands after it. -/
theorem dollar_split {before before' after after' : List Char} (h : '$' ∉ before)
    (h' : '$' ∉ before') (heq : before ++ '$' :: after = before' ++ '$' :: after') :
    before = before' ∧ after = after' := by
  have hother : ∀ {text : List Char}, '$' ∉ text → ∀ c ∈ text, (c != '$') = true :=
    fun htext c hc => bne_iff_ne.2 fun heq => htext (heq ▸ hc)
  obtain ⟨hbefore, hafter⟩ := Text.run_unique (· != '$') (hother h) (hother h') (by simp)
    (by simp) heq
  exact ⟨hbefore, (List.cons.inj hafter).2⟩

/-- A text stands for a character: it is the character, which is no dollar sign, or its code
point. -/
def Spells (c : Char) (text : List Char) : Prop := (text = [c] ∧ c ≠ '$') ∨ text = codePoint c

theorem ne_dollar_of_isPlain {c : Char} (h : isPlain c = true) : c ≠ '$' := by
  rintro rfl
  exact absurd h (by decide)

theorem spells_laterChar (c : Char) : Spells c (laterChar c) := by
  rw [laterChar]
  split
  case isTrue hplain => exact .inl ⟨rfl, ne_dollar_of_isPlain hplain⟩
  case isFalse => exact .inr rfl

theorem spells_firstChar (c : Char) : Spells c (firstChar c) := by
  rw [firstChar]
  split
  case isTrue hplain => exact .inl ⟨rfl, ne_dollar_of_isPlain (Bool.and_eq_true_iff.1 hplain).1⟩
  case isFalse => exact .inr rfl

/-- A spelled character at the start of a text is read in one way. -/
theorem Spells.unique {c d : Char} {text text' rest rest' : List Char} (h : Spells c text)
    (h' : Spells d text') (heq : text ++ rest = text' ++ rest') : c = d ∧ rest = rest' := by
  rcases h with ⟨rfl, hc⟩ | rfl
  · rcases h' with ⟨rfl, _⟩ | rfl
    · exact List.cons.inj heq
    · exact absurd (List.cons.inj heq).1 hc
  · rcases h' with ⟨rfl, hd⟩ | rfl
    · exact absurd (List.cons.inj heq).1.symm hd
    · simp only [codePoint, List.cons_append, List.append_assoc, List.nil_append,
        List.cons.injEq, true_and] at heq
      obtain ⟨hdigits, hrest⟩ := dollar_split (Text.dollar_notMem_hexDigits _)
        (Text.dollar_notMem_hexDigits _) heq
      exact ⟨Char.toNat_inj.1 (Text.hexDigits_injective hdigits), hrest⟩

theorem Spells.ne_nil {c : Char} {text : List Char} (h : Spells c text) : text ≠ [] := by
  rcases h with ⟨rfl, _⟩ | rfl <;> exact List.cons_ne_nil _ _

/-- The dollar signs of a spelled character come in pairs. -/
theorem Spells.count_dollar {c : Char} {text : List Char} (h : Spells c text) :
    text.count '$' % 2 = 0 := by
  rcases h with ⟨rfl, hc⟩ | rfl
  · rw [List.count_eq_zero_of_not_mem (by simpa using hc.symm)]
  · rw [codePoint, List.cons_append, List.count_cons_self, List.count_append,
      List.count_eq_zero_of_not_mem (Text.dollar_notMem_hexDigits _)]
    rfl

theorem flatMap_laterChar_injective : ∀ {chars chars' : List Char},
    chars.flatMap laterChar = chars'.flatMap laterChar → chars = chars'
  | [], [], _ => rfl
  | [], c :: _, h => by
      rw [List.flatMap_nil, List.flatMap_cons] at h
      exact absurd (List.append_eq_nil_iff.1 h.symm).1 (spells_laterChar c).ne_nil
  | c :: _, [], h => by
      rw [List.flatMap_nil, List.flatMap_cons] at h
      exact absurd (List.append_eq_nil_iff.1 h).1 (spells_laterChar c).ne_nil
  | c :: rest, d :: rest', h => by
      rw [List.flatMap_cons, List.flatMap_cons] at h
      obtain ⟨rfl, hrest⟩ := (spells_laterChar c).unique (spells_laterChar d) h
      rw [flatMap_laterChar_injective hrest]

theorem flatMap_laterChar_count_dollar (chars : List Char) :
    (chars.flatMap laterChar).count '$' % 2 = 0 := by
  induction chars with
  | nil => rfl
  | cons c rest ih =>
      have := (spells_laterChar c).count_dollar
      rw [List.flatMap_cons, List.count_append]
      omega

/-- The dollar signs of a name that is not empty come in pairs. -/
theorem escapedName_count_dollar {chars : List Char} (h : chars ≠ []) :
    (escapedName chars).count '$' % 2 = 0 := by
  cases chars with
  | nil => exact absurd rfl h
  | cons c rest =>
      have := (spells_firstChar c).count_dollar
      have := flatMap_laterChar_count_dollar rest
      rw [escapedName, List.count_append]
      omega

theorem escapedName_injective {chars chars' : List Char}
    (h : escapedName chars = escapedName chars') : chars = chars' := by
  -- the empty name is one dollar sign, the others have an even number of them
  by_cases hnil : chars = []
  · by_cases hnil' : chars' = []
    · rw [hnil, hnil']
    · have := escapedName_count_dollar hnil'
      rw [← h, hnil] at this
      exact absurd this (by decide)
  · by_cases hnil' : chars' = []
    · have := escapedName_count_dollar hnil
      rw [h, hnil'] at this
      exact absurd this (by decide)
    · obtain ⟨c, rest, rfl⟩ := List.exists_cons_of_ne_nil hnil
      obtain ⟨d, rest', rfl⟩ := List.exists_cons_of_ne_nil hnil'
      rw [escapedName, escapedName] at h
      obtain ⟨rfl, hrest⟩ := (spells_firstChar c).unique (spells_firstChar d) h
      rw [flatMap_laterChar_injective hrest]

theorem dollar_notMem_reservedWord : ∀ word ∈ reservedWords, '$' ∉ word.toList := by
  decide

/-- No name is escaped as a reserved word and a dollar sign. -/
theorem escapedName_ne_reserved {word : String} (h : word ∈ reservedWords) (chars : List Char) :
    escapedName chars ≠ word.toList ++ ['$'] := by
  intro heq
  have hword := dollar_notMem_reservedWord word h
  by_cases hnil : chars = []
  · rw [hnil, escapedName] at heq
    have hempty : word.toList = [] := by
      have hlength := congrArg List.length heq
      rw [List.length_append] at hlength
      exact List.length_eq_zero_iff.1 (by simpa using hlength)
    rw [String.toList_eq_nil_iff.1 hempty] at h
    exact absurd h (by decide)
  · have heven := escapedName_count_dollar hnil
    rw [heq, List.count_append, List.count_eq_zero_of_not_mem hword] at heven
    exact absurd heven (by decide)

/-- **Distinct names have distinct identifiers.** -/
theorem identifier_injective {name name' : String} (h : identifier name = identifier name') :
    name = name' := by
  have hname : ∀ {other : String}, String.ofList (escapedName name.toList) =
      String.ofList (escapedName other.toList) → name = other := fun heq =>
    String.toList_inj.1 (escapedName_injective (String.ofList_injective heq))
  simp only [identifier] at h
  split at h
  case isTrue hreserved =>
    split at h
    case isTrue => exact hname (String.append_left_inj _ |>.1 h)
    case isFalse =>
      refine absurd ?_ (escapedName_ne_reserved hreserved name'.toList)
      simpa using (congrArg String.toList h).symm
  case isFalse =>
    split at h
    case isTrue hreserved =>
      refine absurd ?_ (escapedName_ne_reserved hreserved name.toList)
      simpa using congrArg String.toList h
    case isFalse => exact hname h

end Node
end Schemata
