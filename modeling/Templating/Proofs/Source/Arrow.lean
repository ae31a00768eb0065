import Templating.Proofs.Source.Disguise
import Templating.Proofs.Text.Substitution
import Templating.Source.Arrow

/-!
# Arrows come back as they were written

`restoreArrows_protectArrows`: restoring a protected text gives the text back, whatever it holds.

Protecting disguises a text twice, with `escapeDisguise` and then with `arrowDisguise`, and leaves
no stem of a placeholder anywhere (`stemFree_escape`). So the scan that restores finds nothing
before the first placeholder that was put in, takes it whole, and stands behind it as it stood at
the start (`restore_disguised`): signs that a real placeholder shares with a stem behind it are
taken with the real one. Escapes are undone from left to right (`unescape_disguised`).
-/

namespace Templating.Source

open Templating.Text

/-- The letters of the stem behind its two signs. -/
def stemName : List Char :=
  ['O', 'B', 'J', 'E', 'C', 'T', '_', 'O', 'P', 'E', 'R', 'A', 'T', 'O', 'R']

theorem toList_placeholderStem : placeholderStem.toList = '%' :: '%' :: stemName := rfl

theorem toList_placeholder : placeholder.toList = placeholderStem.toList ++ ['%', '%'] := rfl

/-- No stem of a placeholder stands anywhere in the text, in any case of its letters. -/
def StemFree (text : List Char) : Prop :=
  ∀ tail, tail <:+ text → startsWithName placeholderStem.toList tail = false

theorem StemFree.of_suffix {text tail : List Char} (free : StemFree text) (later : tail <:+ text) :
    StemFree tail :=
  fun _ part => free _ (part.trans later)

theorem stemFree_nil : StemFree [] := by
  intro tail part
  rw [List.suffix_nil.mp part, toList_placeholderStem, startsWithName_cons_nil]

theorem stemFree_cons {c : Char} {rest : List Char}
    (here : startsWithName placeholderStem.toList (c :: rest) = false) (later : StemFree rest) :
    StemFree (c :: rest) := by
  intro tail part
  rcases List.suffix_cons_iff.mp part with rfl | part
  · exact here
  · exact later tail part

/-- Stems are looked for at every place of the text. -/
theorem stemFree_cons_iff {c : Char} {rest : List Char} :
    StemFree (c :: rest) ↔
      startsWithName placeholderStem.toList (c :: rest) = false ∧ StemFree rest :=
  ⟨fun free => ⟨free _ (List.suffix_refl _), free.of_suffix (List.suffix_cons c rest)⟩,
    fun free => stemFree_cons free.1 free.2⟩

instance decidableStemFree : (text : List Char) → Decidable (StemFree text)
  | [] => isTrue stemFree_nil
  | _ :: rest =>
    have := decidableStemFree rest
    decidable_of_iff _ stemFree_cons_iff.symm

/-- A stem begins with a sign, which has one form only. -/
theorem sign_of_stem {c : Char} {rest : List Char}
    (starts : startsWithName placeholderStem.toList (c :: rest) = true) :
    c = '%' ∧ startsWithName ('%' :: stemName) rest = true := by
  rw [toList_placeholderStem, startsWithName_cons_cons, Bool.and_eq_true, beq_iff_eq] at starts
  exact ⟨eq_of_toLower_eq starts.1 rfl, starts.2⟩

/-- A stem begins with two signs. -/
theorem not_startsWith_stem {c : Char} {rest : List Char}
    (other : c ≠ '%' ∨ rest.head? ≠ some '%') :
    startsWithName placeholderStem.toList (c :: rest) = false := by
  rw [Bool.eq_false_iff]
  intro starts
  obtain ⟨sign, second⟩ := sign_of_stem starts
  rcases other with other | other
  · exact other sign
  · cases rest with
    | nil => simp at second
    | cons d rest =>
      rw [startsWithName_cons_cons, Bool.and_eq_true, beq_iff_eq] at second
      have same : d = '%' := eq_of_toLower_eq second.1 rfl
      exact other (congrArg some same)

/-- A substitution that writes nothing of the name completes no stem. -/
theorem stem_of_substitute {rule : Rule} {c : Char} {rest : List Char}
    (foreign : rule.ForeignTo stemName)
    (starts : startsWithName placeholderStem.toList (c :: substitute rule rest) = true) :
    startsWithName placeholderStem.toList (c :: rest) = true := by
  rw [toList_placeholderStem] at starts ⊢
  exact startsWithName_of_cons_substitute foreign starts

/-! ## What the rules find -/

/-- What escaping finds and writes: an escape, twice, or a stem with an escape behind its first
sign. -/
theorem escapeRule_eq_some {c : Char} {rest : List Char} {found : Found}
    (outcome : escapeRule (c :: rest) = some found) :
    (c = escapeChar ∧ found = ⟨0, [escapeChar, escapeChar]⟩) ∨
      (startsWithName placeholderStem.toList (c :: rest) = true ∧
        found = ⟨16, '%' :: escapeChar :: rest.take 16⟩) := by
  have size : placeholderStem.toList.length = 17 := rfl
  simp only [escapeRule] at outcome
  split at outcome
  · exact .inl ⟨‹_›, (Option.some.inj outcome).symm⟩
  · split at outcome
    · rename_i starts
      have long := length_le_of_startsWithName starts
      rw [size, List.length_cons] at long
      refine .inr ⟨starts, (Option.some.inj outcome).symm.trans ?_⟩
      rw [size, (sign_of_stem starts).1, List.length_take]
      congr 1
      omega
    · cases outcome

/-- Escaping keeps a character that is no escape and begins no stem. -/
theorem escapeRule_eq_none {c : Char} {rest : List Char}
    (nothing : escapeRule (c :: rest) = none) :
    c ≠ escapeChar ∧ startsWithName placeholderStem.toList (c :: rest) = false := by
  simp only [escapeRule] at nothing
  split at nothing
  · cases nothing
  · split at nothing
    · cases nothing
    · exact ⟨‹_›, Bool.eq_false_iff.mpr ‹_›⟩

/-- What protecting finds and writes: an arrow before a word character. -/
theorem arrowRule_eq_some {c : Char} {rest : List Char} {found : Found}
    (outcome : arrowRule (c :: rest) = some found) :
    ∃ word more, c = '-' ∧ rest = '>' :: word :: more ∧ isWord word = true ∧
      found = ⟨2, placeholder.toList ++ [word]⟩ := by
  unfold arrowRule at outcome
  split at outcome
  · rename_i word more shape
    split at outcome
    · obtain ⟨rfl, rfl⟩ := List.cons.inj shape
      exact ⟨word, more, rfl, rfl, ‹_›, (Option.some.inj outcome).symm⟩
    · cases outcome
  · cases outcome

theorem foreign_escapeRule : escapeRule.ForeignTo stemName := by
  intro text found outcome
  cases text with
  | nil => cases outcome
  | cons c rest =>
    rcases escapeRule_eq_some outcome with ⟨-, rfl⟩ | ⟨-, rfl⟩
    · exact ⟨_, _, _, rfl, by decide, by decide⟩
    · exact ⟨_, _, _, rfl, by decide, by decide⟩

/-! ## Escaping -/

/-- Only signs and the letters of its name occur in a stem. -/
theorem not_mem_stem {c d : Char} {rest : List Char}
    (foreign : d.toLower ∉ lowerLetters placeholderStem.toList)
    (starts : startsWithName placeholderStem.toList (c :: rest) = true) : d ∉ rest.take 16 := by
  intro member
  have inStem : d ∈ (c :: rest).take placeholderStem.toList.length :=
    List.mem_cons_of_mem c member
  exact foreign (toLower_mem_of_startsWithName starts inStem)

/-- Behind its first sign a stem holds one more sign and no other. -/
theorem stemFree_of_stem {c : Char} {rest back : List Char}
    (starts : startsWithName placeholderStem.toList (c :: rest) = true) (later : StemFree back) :
    StemFree (rest.take 16 ++ back) := by
  have second := (sign_of_stem starts).2
  -- The second sign stands before a letter, and no letter is a sign.
  have letters : ∀ name letters : List Char, '%' ∉ lowerLetters name →
      startsWithName name letters = true → StemFree (letters.take name.length ++ back) := by
    intro name
    induction name with
    | nil => intro letters _ _; exact later
    | cons p name ih =>
      intro letters noSign starts
      cases letters with
      | nil => simp at starts
      | cons d letters =>
        rw [startsWithName_cons_cons, Bool.and_eq_true, beq_iff_eq] at starts
        refine stemFree_cons (not_startsWith_stem (.inl ?_))
          (ih letters (fun sign => noSign (List.mem_cons_of_mem _ sign)) starts.2)
        rintro rfl
        exact noSign (List.mem_cons.mpr (.inl starts.1))
  cases rest with
  | nil => simp at second
  | cons d rest =>
    rw [startsWithName_cons_cons, Bool.and_eq_true] at second
    have name := second.2
    refine stemFree_cons (not_startsWith_stem (.inr ?_)) (letters stemName rest (by decide) name)
    cases rest with
    | nil => simp [stemName] at name
    | cons o rest =>
      rw [stemName, startsWithName_cons_cons, Bool.and_eq_true, beq_iff_eq] at name
      intro next
      obtain rfl : o = '%' := Option.some.inj next
      exact absurd name.1 (by decide)

/-- No stem is left in an escaped text. -/
theorem stemFree_escape (text : List Char) : StemFree (substitute escapeRule text) := by
  induction text using substitute_induction escapeRule with
  | nil => exact stemFree_nil
  | kept c rest outcome ih =>
    rw [substitute_cons_of_none outcome]
    refine stemFree_cons (Bool.eq_false_iff.mpr fun starts => ?_) ih
    have before := stem_of_substitute foreign_escapeRule starts
    rw [(escapeRule_eq_none outcome).2] at before
    cases before
  | taken c rest found outcome ih =>
    rw [substitute_cons_of_some outcome]
    rcases escapeRule_eq_some outcome with ⟨-, rfl⟩ | ⟨starts, rfl⟩
    · exact stemFree_cons (not_startsWith_stem (.inl (by decide)))
        (stemFree_cons (not_startsWith_stem (.inl (by decide))) ih)
    · exact stemFree_cons (not_startsWith_stem (.inr (by simp [escapeChar])))
        (stemFree_cons (not_startsWith_stem (.inl (by decide))) (stemFree_of_stem starts ih))

theorem unescapeRule_of_ne {c : Char} (other : c ≠ escapeChar) (rest : List Char) :
    unescapeRule (c :: rest) = none := by
  simp [unescapeRule, other]

/-- Escapes are written twice, and a sign may have an escape behind it. -/
def escapeDisguise : Disguise where
  plain c := c ≠ escapeChar
  mark sign piece := (sign = [escapeChar, escapeChar] ∧ piece = [escapeChar]) ∨
    (sign = ['%', escapeChar] ∧ piece = ['%'])

theorem doubled_escape : escapeDisguise.mark [escapeChar, escapeChar] [escapeChar] :=
  .inl ⟨rfl, rfl⟩

theorem escaped_sign : escapeDisguise.mark ['%', escapeChar] ['%'] :=
  .inr ⟨rfl, rfl⟩

/-- Escaping disguises a text. -/
theorem writes_escape (text : List Char) :
    escapeDisguise.Writes (substitute escapeRule text) text := by
  induction text using substitute_induction escapeRule with
  | nil => exact .nil
  | kept c rest outcome ih =>
    rw [substitute_cons_of_none outcome]
    exact .keep (escapeRule_eq_none outcome).1 ih
  | taken c rest found outcome ih =>
    rw [substitute_cons_of_some outcome]
    rcases escapeRule_eq_some outcome with ⟨rfl, rfl⟩ | ⟨starts, rfl⟩
    · exact .mark doubled_escape ih
    · obtain rfl := (sign_of_stem starts).1
      have stem : escapeDisguise.Writes (rest.take 16) (rest.take 16) :=
        .of_plain fun d member same =>
          not_mem_stem (d := escapeChar) (by decide) starts (same ▸ member)
      have behind := stem.append ih
      rw [List.take_append_drop] at behind
      exact .mark escaped_sign behind

/-- A single escape in front of an escaped text changes nothing: it is dropped, or it takes the
place of the escape behind it. -/
theorem unescape_disguised {written text : List Char}
    (writes : escapeDisguise.Writes written text) :
    substitute unescapeRule written = text ∧
      substitute unescapeRule (escapeChar :: written) = text := by
  have single {c : Char} (other : c ≠ escapeChar) (rest : List Char) :
      substitute unescapeRule (escapeChar :: c :: rest) = substitute unescapeRule (c :: rest) := by
    have dropped : unescapeRule (escapeChar :: c :: rest) = some ⟨0, []⟩ := by
      rw [unescapeRule, if_pos rfl, if_neg (by simpa using other)]
    exact substitute_cons_of_some dropped
  have double (rest : List Char) : substitute unescapeRule (escapeChar :: escapeChar :: rest) =
      escapeChar :: substitute unescapeRule rest := by
    have doubled : unescapeRule (escapeChar :: escapeChar :: rest) = some ⟨1, [escapeChar]⟩ := rfl
    exact substitute_cons_of_some doubled
  induction writes with
  | nil => exact ⟨rfl, rfl⟩
  | @keep c written text plain behind ih =>
    have here : substitute unescapeRule (c :: written) = c :: text := by
      rw [substitute_cons_of_none (unescapeRule_of_ne plain _), ih.1]
    exact ⟨here, (single plain written).trans here⟩
  | @mark sign piece written text mark behind ih =>
    rcases mark with ⟨rfl, rfl⟩ | ⟨rfl, rfl⟩
    · refine ⟨?_, ?_⟩
      · rw [List.cons_append, List.singleton_append, double, ih.1]
        rfl
      · rw [List.cons_append, List.singleton_append, double, ih.2]
        rfl
    · have sign : '%' ≠ escapeChar := by decide
      have here : substitute unescapeRule ('%' :: escapeChar :: written) = '%' :: text := by
        rw [substitute_cons_of_none (unescapeRule_of_ne sign _), ih.2]
      exact ⟨here, (single sign (escapeChar :: written)).trans here⟩

/-- Unescaping undoes escaping. -/
theorem unescape_escape (text : List Char) :
    substitute unescapeRule (substitute escapeRule text) = text :=
  (unescape_disguised (writes_escape text)).1

/-! ## Placeholders -/

/-- Arrows may be written as placeholders. -/
def arrowDisguise : Disguise where
  plain _ := True
  mark sign piece := sign = placeholder.toList ∧ piece = ['-', '>']

theorem hidden_arrow : arrowDisguise.mark placeholder.toList ['-', '>'] :=
  ⟨rfl, rfl⟩

/-- Putting the placeholders in disguises a text. -/
theorem writes_arrows (text : List Char) :
    arrowDisguise.Writes (substitute arrowRule text) text := by
  induction text using substitute_induction arrowRule with
  | nil => exact .nil
  | kept c rest outcome ih =>
    rw [substitute_cons_of_none outcome]
    exact .keep trivial ih
  | taken c rest found outcome ih =>
    obtain ⟨word, more, rfl, rfl, -, rfl⟩ := arrowRule_eq_some outcome
    rw [substitute_cons_of_some outcome, List.append_assoc]
    exact .mark hidden_arrow (.keep trivial ih)

/-- A placeholder completes no name that has no sign in it. -/
theorem startsWithName_disguised {name written text : List Char} (noSign : '%' ∉ lowerLetters name)
    (writes : arrowDisguise.Writes written text) (starts : startsWithName name written = true) :
    startsWithName name text = true := by
  induction name generalizing written text with
  | nil => exact startsWithName_nil text
  | cons p name ih =>
    cases writes with
    | nil => exact starts
    | keep plain behind =>
      rw [startsWithName_cons_cons, Bool.and_eq_true] at starts ⊢
      exact ⟨starts.1, ih (fun member => noSign (List.mem_cons_of_mem _ member)) behind starts.2⟩
    | mark mark behind =>
      obtain ⟨rfl, rfl⟩ := mark
      rw [toList_placeholder, toList_placeholderStem, List.cons_append, List.cons_append,
        List.cons_append, startsWithName_cons_cons, Bool.and_eq_true, beq_iff_eq] at starts
      exact absurd (List.mem_cons.mpr (.inl starts.1)) noSign

/-- A stem in a disguised text that begins with a character of the text was there before. -/
theorem stem_disguised {c : Char} {written text : List Char}
    (writes : arrowDisguise.Writes written text)
    (starts : startsWithName placeholderStem.toList (c :: written) = true) :
    startsWithName placeholderStem.toList (c :: text) = true := by
  rw [toList_placeholderStem, startsWithName_cons_cons, Bool.and_eq_true] at starts ⊢
  refine ⟨starts.1, ?_⟩
  replace starts := starts.2
  cases writes with
  | nil => exact starts
  | keep plain behind =>
    rw [startsWithName_cons_cons, Bool.and_eq_true] at starts ⊢
    exact ⟨starts.1, startsWithName_disguised (by decide) behind starts.2⟩
  | mark mark behind =>
    -- The second sign of a stem has a letter behind it, the first one of a placeholder a sign.
    obtain ⟨rfl, rfl⟩ := mark
    simp [toList_placeholder, toList_placeholderStem, stemName] at starts

/-- The restoring scan finds nothing at a character of the text. -/
theorem placeholderRule_disguised {c : Char} {written text : List Char}
    (writes : arrowDisguise.Writes written text) (free : StemFree (c :: text)) :
    placeholderRule (c :: written) = none := by
  rw [placeholderRule, if_neg]
  intro starts
  rw [toList_placeholder] at starts
  have stem := stem_disguised writes (startsWithName_of_append starts)
  rw [free _ (List.suffix_refl _)] at stem
  cases stem

/-- The restoring scan finds a placeholder as it stands. -/
theorem placeholderRule_append (rest : List Char) :
    placeholderRule (placeholder.toList ++ rest) = some ⟨18, ['-', '>']⟩ := by
  rw [placeholderRule, if_pos (startsWithName_append placeholder.toList rest)]
  rfl

/-- The restoring scan finds the hidden arrows where they are, and nothing else. -/
theorem restore_disguised {written text : List Char}
    (writes : arrowDisguise.Writes written text) (free : StemFree text) :
    substitute placeholderRule written = text := by
  induction writes with
  | nil => rfl
  | @keep c written text plain behind ih =>
    rw [substitute_cons_of_none (placeholderRule_disguised behind free),
      ih (free.of_suffix (List.suffix_cons c text))]
  | @mark sign piece written text mark behind ih =>
    obtain ⟨rfl, rfl⟩ := mark
    have run : substitute placeholderRule (placeholder.toList ++ written) =
        ['-', '>'] ++ substitute placeholderRule written :=
      substitute_cons_of_some (placeholderRule_append written)
    rw [run, ih (free.of_suffix ⟨['-', '>'], rfl⟩)]

/-- The restoring scan finds exactly the placeholders that protecting put in. -/
theorem restore_arrows {text : List Char} (free : StemFree text) :
    substitute placeholderRule (substitute arrowRule text) = text :=
  restore_disguised (writes_arrows text) free

/-- **Protecting is undone exactly.** Restoring a protected text gives the text back, also when it
holds escapes, placeholders or parts of placeholders in any case of their letters. -/
theorem restoreArrows_protectArrows (text : List Char) :
    restoreArrows (protectArrows text) = text := by
  rw [restoreArrows, protectArrows, restore_arrows (stemFree_escape text), unescape_escape]

end Templating.Source
