import Mathlib.Data.List.Infix
import Templating.Proofs.Source.Arrow
import Templating.Proofs.Source.TagValue
import Templating.Proofs.Text.Runs

/-!
# Arrows that are hidden

A protected text has a placeholder for each arrow before a word character and no such arrow, and
normalising the values of tags puts none together: it takes text out only behind a separator, and
what it leaves there was either there before or stands in front of the rest of the text.

* `arrowFree_run`: one run keeps a text without arrows.
* `length_found_arrows`: restoring finds as many placeholders as arrows were replaced.
* `arrows_hidden`: the two for a whole protected text.
-/

namespace Templating.Source

open Templating.Text

variable {text rest tag : List Char}

/-! ## Arrows in a text -/

/-- Whether the text begins with an arrow before a word character. -/
def beginsArrow : List Char → Bool
  | '-' :: '>' :: c :: _ => isWord c
  | _ => false

/-- The number of places at which an arrow before a word character begins. -/
def arrowCount (text : List Char) : Nat :=
  text.tails.countP beginsArrow

/-- No arrow before a word character stands anywhere in the text. -/
def ArrowFree (text : List Char) : Prop :=
  ∀ c, isWord c = true → ¬ ['-', '>', c] <:+: text

theorem beginsArrow_eq_true :
    beginsArrow text = true ↔ ∃ c, isWord c = true ∧ ['-', '>', c] <+: text := by
  constructor
  · intro begins
    unfold beginsArrow at begins
    split at begins
    · rename_i c more
      exact ⟨c, begins, more, rfl⟩
    · cases begins
  · rintro ⟨c, word, more, rfl⟩
    exact word

theorem beginsArrow_cons_of_ne {c : Char} (other : c ≠ '-') : beginsArrow (c :: rest) = false := by
  unfold beginsArrow
  split
  · rename_i shape
    exact absurd (List.cons.inj shape).1 other
  · rfl

theorem arrowCount_cons (c : Char) (rest : List Char) :
    arrowCount (c :: rest) = arrowCount rest + if beginsArrow (c :: rest) then 1 else 0 := by
  rw [arrowCount, List.tails_cons, List.countP_cons]
  rfl

theorem arrowCount_cons_of_ne {c : Char} (other : c ≠ '-') :
    arrowCount (c :: rest) = arrowCount rest := by
  rw [arrowCount_cons, beginsArrow_cons_of_ne other]
  rfl

/-- Text in which no arrow can begin does not count. -/
theorem arrowCount_append {front : List Char} (noHyphen : '-' ∉ front) (back : List Char) :
    arrowCount (front ++ back) = arrowCount back := by
  induction front with
  | nil => rfl
  | cons c front ih =>
    have other : c ≠ '-' := fun same => noHyphen (List.mem_cons.mpr (.inl same.symm))
    rw [List.cons_append, arrowCount_cons_of_ne other,
      ih fun member => noHyphen (List.mem_cons_of_mem c member)]

theorem ArrowFree.of_infix {part : List Char} (free : ArrowFree text) (inside : part <:+: text) :
    ArrowFree part :=
  fun c word arrow => free c word (arrow.trans inside)

theorem arrowFree_nil : ArrowFree [] := by
  intro c word arrow
  exact List.cons_ne_nil _ _ (List.infix_nil.mp arrow)

theorem arrowFree_cons_iff {c : Char} :
    ArrowFree (c :: rest) ↔ beginsArrow (c :: rest) = false ∧ ArrowFree rest := by
  constructor
  · intro free
    refine ⟨Bool.eq_false_iff.mpr fun begins => ?_, free.of_infix (List.suffix_cons c rest).isInfix⟩
    obtain ⟨d, word, starts⟩ := beginsArrow_eq_true.mp begins
    exact free d word starts.isInfix
  · rintro ⟨here, later⟩ d word arrow
    rcases List.infix_cons_iff.mp arrow with starts | arrow
    · rw [beginsArrow_eq_true.mpr ⟨d, word, starts⟩] at here
      cases here
    · exact later d word arrow

theorem arrowFree_iff_arrowCount : ArrowFree text ↔ arrowCount text = 0 := by
  induction text with
  | nil => exact ⟨fun _ => rfl, fun _ => arrowFree_nil⟩
  | cons c rest ih =>
    rw [arrowFree_cons_iff, arrowCount_cons, Nat.add_eq_zero_iff, ih, and_comm]
    cases beginsArrow (c :: rest) <;> simp

theorem arrowFree_cons_of_ne {c : Char} (other : c ≠ '-') (free : ArrowFree rest) :
    ArrowFree (c :: rest) :=
  arrowFree_cons_iff.mpr ⟨beginsArrow_cons_of_ne other, free⟩

/-- Text does not go over a character that is not in it. -/
theorem infix_or_infix_of_not_mem {part front back : List Char} {c : Char} (foreign : c ∉ part)
    (inside : part <:+: front ++ c :: back) : part <:+: front ∨ part <:+: back := by
  rcases List.infix_append_iff_ne_nil.mp inside with before | behind |
    ⟨first, second, -, some, rfl, -, starts⟩
  · exact .inl before
  · rcases List.infix_cons_iff.mp behind with starts | behind
    · rcases List.prefix_cons_iff.mp starts with rfl | ⟨more, rfl, -⟩
      · exact .inl List.nil_infix
      · exact absurd List.mem_cons_self foreign
    · exact .inr behind
  · rcases List.prefix_cons_iff.mp starts with rfl | ⟨more, rfl, -⟩
    · exact absurd rfl some
    · exact absurd (List.mem_append_right first List.mem_cons_self) foreign

theorem not_mem_arrow {c d : Char} (hyphen : c ≠ '-') (angle : c ≠ '>')
    (noWord : isWord c = false) (word : isWord d = true) : c ∉ ['-', '>', d] := by
  have other : c ≠ d := fun same => by
    rw [← same, noWord] at word
    cases word
  simp [hyphen, angle, other]

/-- An arrow does not go over a character that can be none of its own. -/
theorem arrowFree_append {front back : List Char} {c : Char} (hyphen : c ≠ '-') (angle : c ≠ '>')
    (noWord : isWord c = false) (before : ArrowFree front) (behind : ArrowFree back) :
    ArrowFree (front ++ c :: back) := by
  intro d word arrow
  have foreign := not_mem_arrow hyphen angle noWord word
  rcases infix_or_infix_of_not_mem foreign arrow with arrow | arrow
  · exact before d word arrow
  · exact behind d word arrow

/-! ## Values -/

/-- What a collapsed text begins with was there before, as far as it has no blanks in it. -/
theorem prefix_of_prefix_collapseBlanks {front : List Char}
    (dense : ∀ c ∈ front, isBlank c = false) (starts : front <+: collapseBlanks text) :
    front <+: text := by
  induction front generalizing text with
  | nil => exact List.nil_prefix
  | cons c front ih =>
    have first := dense c List.mem_cons_self
    cases text with
    | nil => exact starts
    | cons d rest =>
      cases blank : isBlank d with
      | true =>
        rw [collapseBlanks, collapseAfter_cons_of_blank blank, if_neg Bool.false_ne_true] at starts
        obtain ⟨rfl, -⟩ := List.cons_prefix_cons.mp starts
        cases first
      | false =>
        rw [collapseBlanks, collapseAfter_cons_of_dense blank] at starts
        obtain ⟨rfl, later⟩ := List.cons_prefix_cons.mp starts
        exact List.cons_prefix_cons.mpr
          ⟨rfl, ih (fun e member => dense e (List.mem_cons_of_mem c member)) later⟩

theorem ne_hyphen_of_isWord {c : Char} (word : isWord c = true) : c ≠ '-' := by
  rintro rfl
  cases word

theorem isBlank_arrow {c d : Char} (word : isWord c = true) (member : d ∈ ['-', '>', c]) :
    isBlank d = false := by
  rcases List.mem_cons.mp member with rfl | member
  · decide
  · rcases List.mem_pair.mp member with rfl | rfl
    · decide
    · refine Bool.eq_false_iff.mpr fun blank => ?_
      rw [isWord_eq_false_of_isBlank blank] at word
      cases word

theorem arrowFree_collapseAfter (afterBlank : Bool) (free : ArrowFree text) :
    ArrowFree (collapseAfter afterBlank text) := by
  induction text generalizing afterBlank with
  | nil => exact arrowFree_nil
  | cons c rest ih =>
    obtain ⟨here, later⟩ := arrowFree_cons_iff.mp free
    cases blank : isBlank c with
    | true =>
      rw [collapseAfter_cons_of_blank blank]
      split
      · exact ih true later
      · exact arrowFree_cons_of_ne (by decide) (ih true later)
    | false =>
      rw [collapseAfter_cons_of_dense blank]
      refine arrowFree_cons_iff.mpr ⟨Bool.eq_false_iff.mpr fun begins => ?_, ih false later⟩
      obtain ⟨d, word, starts⟩ := beginsArrow_eq_true.mp begins
      rw [← collapseAfter_cons_of_dense blank false] at starts
      have before := prefix_of_prefix_collapseBlanks (fun _ => isBlank_arrow word) starts
      rw [beginsArrow_eq_true.mpr ⟨d, word, before⟩] at here
      cases here

theorem arrowFree_normalizeValue {value : List Char} (free : ArrowFree value) :
    ArrowFree (normalizeValue value) := by
  obtain ⟨front, back, split, -, -⟩ := (isTrimmed_trimBy isPadding value).around
  have inside : trimBy isPadding value <:+: value := ⟨front, back, by
    rw [List.append_assoc]
    exact split.symm⟩
  exact arrowFree_collapseAfter false (free.of_infix inside)

/-! ## Running over the text -/

theorem arrowFree_writeTag {value back : List Char} (name : ArrowFree tag)
    (inner : ArrowFree value) (behind : ArrowFree back) :
    ArrowFree (writeTag tag value ++ back) := by
  rw [writeTag]
  split
  · exact behind
  · rw [List.append_assoc, List.append_assoc, List.cons_append, List.cons_append]
    refine arrowFree_append (by decide) (by decide) (by decide) name ?_
    refine arrowFree_cons_of_ne (by decide) ?_
    exact arrowFree_append (by decide) (by decide) (by decide) inner behind

/-- A tag that begins with a word character puts no word character where none was. -/
theorem exists_word_of_normalizeTag {p c : Char} {more : List Char} (word : isWord p = true)
    (starts : normalizeTag (p :: tag) text = c :: more) (first : isWord c = true) :
    ∃ d rest, text = d :: rest ∧ isWord d = true := by
  cases read : readTag (p :: tag) text with
  | none =>
    rw [normalizeTag_of_none read] at starts
    obtain ⟨rest, rfl⟩ := eq_cons_of_substitute_eq_cons starts
    exact ⟨c, rest, rfl, first⟩
  | some occurrence =>
    obtain ⟨gap, inner, rest, occurrence, -⟩ := readTag_eq_some read
    exact ⟨p, _, occurrence.text_eq, word⟩

/-- **No arrow is put together** by normalising the values of a tag that begins with a word
character. -/
theorem arrowFree_run {p : Char} (word : isWord p = true) (free : ArrowFree text) :
    ArrowFree (substitute (separatedTagRule (p :: tag)) text) ∧
      ArrowFree (normalizeTag (p :: tag) text) := by
  induction size : text.length using Nat.strong_induction_on generalizing text with
  | _ size ih =>
    have run : ArrowFree (substitute (separatedTagRule (p :: tag)) text) := by
      cases text with
      | nil => exact arrowFree_nil
      | cons c rest =>
        obtain ⟨here, later⟩ := arrowFree_cons_iff.mp free
        have behind := ih rest.length (by rw [← size]; exact Nat.lt_succ_self _) later rfl
        cases separates : isSeparator c with
        | true =>
          rw [substitute_separator separates]
          refine arrowFree_cons_of_ne ?_ behind.2
          rintro rfl
          cases separates
        | false =>
          rw [substitute_joined separates]
          refine arrowFree_cons_iff.mpr ⟨Bool.eq_false_iff.mpr fun begins => ?_, behind.1⟩
          obtain ⟨d, isWord, starts⟩ := beginsArrow_eq_true.mp begins
          obtain ⟨rfl, more, starts⟩ := List.cons_prefix_cons.mp starts
          -- The run kept the `>` and came to the text behind it as to the start of a text.
          obtain ⟨rest, rfl⟩ := eq_cons_of_substitute_eq_cons starts.symm
          rw [substitute_separator (by decide)] at starts
          obtain ⟨e, more, rfl, isWord⟩ :=
            exists_word_of_normalizeTag word (List.cons.inj starts).2.symm isWord
          rw [beginsArrow, isWord] at here
          cases here
    refine ⟨run, ?_⟩
    cases read : readTag (p :: tag) text with
    | none =>
      rw [normalizeTag_of_none read]
      exact run
    | some found =>
      obtain ⟨length, value⟩ := found
      obtain ⟨gap, inner, back, occurrence, split⟩ := readTag_eq_some read
      have shorter := occurrence.length_lt
      have isName : p :: tag <:+: text := by
        rw [occurrence.text_eq]
        exact List.infix_append_left
      have isValue : value <:+: text := by
        rw [occurrence.text_eq]
        exact ⟨p :: tag ++ (gap ++ '=' :: (inner ++ ['"'])), '"' :: back, by simp⟩
      have isBack : back <:+: text := split ▸ (List.drop_suffix _ _).isInfix
      have behind := ih back.length (size ▸ shorter) (free.of_infix isBack) rfl
      rw [normalizeTag_of_some read, split]
      exact arrowFree_writeTag (free.of_infix isName)
        (arrowFree_normalizeValue (free.of_infix isValue)) behind.1

/-! ## Protecting -/

/-- What protecting finds is an arrow before a word character. -/
theorem arrowRule_eq_none_iff : arrowRule text = none ↔ beginsArrow text = false := by
  unfold arrowRule beginsArrow
  split
  · split <;> simp_all
  · simp

/-- A placeholder stands for nothing of a text in which there is no sign. -/
theorem prefix_of_prefix_disguised {front written : List Char} (noSign : '%' ∉ front)
    (writes : arrowDisguise.Writes written text) (starts : front <+: written) :
    front <+: text := by
  induction front generalizing written text with
  | nil => exact List.nil_prefix
  | cons c front ih =>
    cases writes with
    | nil => exact starts
    | keep plain behind =>
      obtain ⟨rfl, later⟩ := List.cons_prefix_cons.mp starts
      have rest := ih (fun member => noSign (List.mem_cons_of_mem c member)) behind later
      exact List.cons_prefix_cons.mpr ⟨rfl, rest⟩
    | mark mark behind =>
      obtain ⟨rfl, rfl⟩ := mark
      obtain ⟨rfl, -⟩ := List.cons_prefix_cons.mp starts
      exact absurd List.mem_cons_self noSign

/-- No arrow is left where the arrows are replaced. -/
theorem arrowFree_arrows (text : List Char) : ArrowFree (substitute arrowRule text) := by
  induction text using substitute_induction arrowRule with
  | nil => exact arrowFree_nil
  | kept c rest outcome ih =>
    rw [substitute_cons_of_none outcome]
    refine arrowFree_cons_iff.mpr ⟨Bool.eq_false_iff.mpr fun begins => ?_, ih⟩
    obtain ⟨d, word, starts⟩ := beginsArrow_eq_true.mp begins
    have noSign : '%' ∉ ['-', '>', d] := not_mem_arrow (by decide) (by decide) (by decide) word
    have before := prefix_of_prefix_disguised noSign (.keep trivial (writes_arrows rest)) starts
    rw [arrowRule_eq_none_iff, beginsArrow_eq_true.mpr ⟨d, word, before⟩] at outcome
    cases outcome
  | taken c rest found outcome ih =>
    obtain ⟨word, more, rfl, rfl, isWord, rfl⟩ := arrowRule_eq_some outcome
    rw [substitute_cons_of_some outcome, arrowFree_iff_arrowCount, List.append_assoc,
      arrowCount_append (by decide)]
    exact arrowFree_iff_arrowCount.mp (arrowFree_cons_of_ne (ne_hyphen_of_isWord isWord) ih)

/-- Escaping keeps the first character of a text. -/
theorem exists_escape_cons (c : Char) (rest : List Char) :
    ∃ more, substitute escapeRule (c :: rest) = c :: more := by
  cases outcome : escapeRule (c :: rest) with
  | none => exact ⟨_, substitute_cons_of_none outcome⟩
  | some piece =>
    rw [substitute_cons_of_some outcome]
    rcases escapeRule_eq_some outcome with ⟨rfl, rfl⟩ | ⟨starts, rfl⟩
    · exact ⟨_, rfl⟩
    · obtain rfl := (sign_of_stem starts).1
      exact ⟨_, rfl⟩

/-- Escaping behind a character puts no arrow there and takes none away. -/
theorem beginsArrow_escape (c : Char) (rest : List Char) :
    beginsArrow (c :: substitute escapeRule rest) = beginsArrow (c :: rest) := by
  by_cases hyphen : c = '-'
  · subst hyphen
    cases rest with
    | nil => rfl
    | cons d rest =>
      by_cases angle : d = '>'
      · subst angle
        have kept : escapeRule ('>' :: rest) = none := by
          rw [escapeRule, if_neg (by decide), if_neg]
          rw [not_startsWith_stem (.inl (by decide))]
          exact Bool.false_ne_true
        rw [substitute_cons_of_none kept]
        cases rest with
        | nil => rfl
        | cons e rest =>
          obtain ⟨more, same⟩ := exists_escape_cons e rest
          rw [same]
          rfl
      · obtain ⟨more, same⟩ := exists_escape_cons d rest
        rw [same]
        unfold beginsArrow
        simp [angle]
  · rw [beginsArrow_cons_of_ne hyphen, beginsArrow_cons_of_ne hyphen]

/-- Escaping changes no character of an arrow and puts none in. -/
theorem arrowCount_escape (text : List Char) :
    arrowCount (substitute escapeRule text) = arrowCount text := by
  induction text using substitute_induction escapeRule with
  | nil => rfl
  | kept c rest outcome ih =>
    rw [substitute_cons_of_none outcome, arrowCount_cons, arrowCount_cons, ih, beginsArrow_escape]
  | taken c rest piece outcome ih =>
    rw [substitute_cons_of_some outcome]
    rcases escapeRule_eq_some outcome with ⟨rfl, rfl⟩ | ⟨starts, rfl⟩
    · rw [arrowCount_append (by decide), ih, arrowCount_cons_of_ne (by decide), List.drop_zero]
    · obtain rfl := (sign_of_stem starts).1
      have noHyphen : '-' ∉ rest.take 16 := not_mem_stem (by decide) starts
      have split := arrowCount_append noHyphen (rest.drop 16)
      rw [List.take_append_drop] at split
      rw [List.cons_append, List.cons_append, arrowCount_cons_of_ne (by decide),
        arrowCount_cons_of_ne (by decide), arrowCount_append noHyphen, ih,
        arrowCount_cons_of_ne (by decide), split]

/-- The restoring scan finds one placeholder for each arrow that was replaced. -/
theorem length_found_arrows (free : StemFree text) :
    (found placeholderRule (substitute arrowRule text)).length = arrowCount text := by
  induction text using substitute_induction arrowRule with
  | nil => rfl
  | kept c rest outcome ih =>
    have nothing := placeholderRule_disguised (writes_arrows rest) free
    rw [substitute_cons_of_none outcome, found_cons_of_none nothing,
      ih (free.of_suffix (List.suffix_cons c rest)), arrowCount_cons,
      arrowRule_eq_none_iff.mp outcome]
    rfl
  | taken c rest piece outcome ih =>
    obtain ⟨word, more, rfl, rfl, isWord, rfl⟩ := arrowRule_eq_some outcome
    have later : StemFree (word :: more) := free.of_suffix ⟨['-', '>'], rfl⟩
    have nothing := placeholderRule_disguised (writes_arrows more) later
    have whole : found placeholderRule
        (placeholder.toList ++ (word :: substitute arrowRule more)) =
          placeholder.toList :: found placeholderRule (word :: substitute arrowRule more) :=
      found_cons_of_some (placeholderRule_append _)
    rw [substitute_cons_of_some outcome, List.append_assoc]
    have behind : (found placeholderRule (substitute arrowRule more)).length = arrowCount more :=
      ih (later.of_suffix (List.suffix_cons word more))
    have one : beginsArrow ('-' :: '>' :: word :: more) = true := isWord
    calc (found placeholderRule (placeholder.toList ++ (word :: substitute arrowRule more))).length
        = (found placeholderRule (substitute arrowRule more)).length + 1 := by
          rw [whole, List.length_cons, found_cons_of_none nothing]
      _ = arrowCount more + 1 := by rw [behind]
      _ = arrowCount ('-' :: '>' :: word :: more) := by
          rw [arrowCount_cons, one, arrowCount_cons_of_ne (by decide),
            arrowCount_cons_of_ne (ne_hyphen_of_isWord isWord), if_pos rfl]

/-! ## What the stages between protecting and restoring see -/

theorem arrowFree_normalizeTags {tags : List String}
    (named : ∀ tag ∈ tags, ∃ c rest, tag.toList = c :: rest ∧ isWord c = true)
    (free : ArrowFree text) : ArrowFree (normalizeTags tags text) := by
  induction tags generalizing text with
  | nil => exact free
  | cons tag tags ih =>
    obtain ⟨c, rest, name, word⟩ := named tag List.mem_cons_self
    have first : ArrowFree (normalizeTag tag.toList text) := by
      rw [name]
      exact (arrowFree_run word free).2
    exact ih (fun other member => named other (List.mem_cons_of_mem tag member)) first

/-- **No arrow is seen** between protecting and restoring, whatever the text holds and however often
normalising joins what stood around a tag; and restoring finds one placeholder for each arrow of the
text, whatever placeholders were written in it. -/
theorem arrows_hidden :
    (∀ tags : List String, (∀ tag ∈ tags, ∃ c rest, tag.toList = c :: rest ∧ isWord c = true) →
      ∀ text c, isWord c = true →
        ¬ ['-', '>', c] <:+: normalizeTags tags (protectArrows text)) ∧
    ∀ text, (found placeholderRule (protectArrows text)).length = arrowCount text := by
  constructor
  · intro tags named text
    exact arrowFree_normalizeTags named (arrowFree_arrows (substitute escapeRule text))
  · intro text
    rw [protectArrows, length_found_arrows (stemFree_escape text), arrowCount_escape]

/-- Arrows around an empty value and in one, and written placeholders. -/
theorem arrows_hidden_sample :
    (∀ tag ∈ ["n:if", "n:tag"], ∃ c rest, tag.toList = c :: rest ∧ isWord c = true) ∧
    (∀ c, isWord c = true → ¬ ['-', '>', c] <:+: normalizeTags ["n:if", "n:tag"]
      (protectArrows "->n:if=\"\"b n:tag=\" $a ->b\" %%object_operator%%->c".toList)) ∧
    (found placeholderRule
      (protectArrows
        "->n:if=\"\"b n:tag=\" $a ->b\" %%object_operator%%->c".toList)).length = 3 := by
  have named : ∀ tag ∈ ["n:if", "n:tag"],
      ∃ c rest, tag.toList = c :: rest ∧ isWord c = true := by
    intro tag member
    rcases List.mem_pair.mp member with rfl | rfl
    · exact ⟨'n', ":if".toList, rfl, by decide⟩
    · exact ⟨'n', ":tag".toList, rfl, by decide⟩
  refine ⟨named, arrows_hidden.1 _ named _, ?_⟩
  rw [arrows_hidden.2]
  decide +kernel

end Templating.Source
