import Templating.Proofs.Source.OpeningTag

/-!
# Documents

A document is put together from pieces: text, closing tags, tags without attributes, and opening
tags with whatever tokens they have. Putting tags on one line goes over it piece by piece.

* `openingTagLength_written`: an opening tag is read up to its end, whatever stands behind it.
* `inlineTags_document`.
-/

namespace Templating.Source

open Templating.Text

/-! ## Pieces -/

/-- The name of a tag: a letter, and then letters, digits and colons. -/
structure TagName where
  letter : Char
  more : List Char
  isAlpha_letter : letter.isAlpha = true
  isTagNameChar_more : ∀ c ∈ more, isTagNameChar c = true

def TagName.written (name : TagName) : List Char :=
  name.letter :: name.more

/-- A token of an opening tag as it is written: a string, an arrow, or any other character. -/
inductive IsToken : List Char → Prop
  | doubleQuoted {content : List Char} : '"' ∉ content → IsToken ('"' :: (content ++ ['"']))
  | singleQuoted {content : List Char} : '\'' ∉ content → IsToken ('\'' :: (content ++ ['\'']))
  | arrow : IsToken ['-', '>']
  | other {c : Char} : c ≠ '>' → c ≠ '"' → c ≠ '\'' → IsToken [c]

/-- An opening tag with something behind its name. The last token is no `-`, which would make an
arrow of the end of the tag. -/
structure OpeningTag where
  lead : List Char
  name : TagName
  gap : List Char
  tokens : List (List Char)
  lead_blank : ∀ c ∈ lead, isBlank c = true
  gap_blank : ∀ c ∈ gap, isBlank c = true
  gap_ne_nil : gap ≠ []
  isToken_tokens : ∀ token ∈ tokens, IsToken token
  getLast?_ne_dash : tokens.getLast? ≠ some ['-']

def OpeningTag.written (tag : OpeningTag) : List Char :=
  '<' :: (tag.lead ++ (tag.name.written ++ (tag.gap ++ (tag.tokens.flatten ++ ['>']))))

/-- A piece of a document. -/
inductive Piece where
  | text (content : List Char) (noTag : '<' ∉ content)
  | closing (name : TagName)
  | bare (name : TagName)
  | opening (tag : OpeningTag)

def Piece.written : Piece → List Char
  | .text content _ => content
  | .closing name => '<' :: '/' :: (name.written ++ ['>'])
  | .bare name => '<' :: (name.written ++ ['>'])
  | .opening tag => tag.written

/-- The piece on one line: in an opening tag with a line end each run of blanks is one space, and
any other piece is kept. -/
def Piece.inlined : Piece → List Char
  | .opening tag =>
    if '\n' ∈ tag.written ∨ '\r' ∈ tag.written then spaceRuns tag.written else tag.written
  | piece => piece.written

/-! ## Reading an opening tag -/

theorem tagEnd?_closeQuote {quote : Char} {content : List Char} (inside : quote ∉ content)
    (rest : List Char) : tagEnd? (some quote) (content ++ quote :: rest) =
      (tagEnd? none rest).map (content.length + 1 + ·) := by
  induction content with
  | nil =>
    rw [List.nil_append, tagEnd?_quoted, if_pos rfl]
    exact congrArg (Option.map · _) (funext fun count => Nat.add_comm count 1)
  | cons c content ih =>
    have other : c ≠ quote := fun same => inside (same ▸ List.mem_cons_self)
    rw [List.cons_append, tagEnd?_quoted, if_neg other,
      ih fun member => inside (List.mem_cons_of_mem c member), Option.map_map]
    refine congrArg (Option.map · _) (funext fun count => ?_)
    simp only [Function.comp_apply, List.length_cons]
    omega

/-- The search goes over a token, which is the longest one that begins there. -/
theorem tagEnd?_token {token rest : List Char} {count : Nat} (isToken : IsToken token)
    (whole : token = ['-'] → rest.head? ≠ some '>') (found : tagEnd? none rest = some count) :
    tagEnd? none (token ++ rest) = some (token.length + count) := by
  have string {quote : Char} (isQuote : quote = '"' ∨ quote = '\'') {content : List Char}
      (inside : quote ∉ content) : tagEnd? none (quote :: (content ++ [quote]) ++ rest) =
        some ((quote :: (content ++ [quote])).length + count) := by
    have noEnd : quote ≠ '>' := by rcases isQuote with rfl | rfl <;> decide
    have noDash : quote ≠ '-' := by rcases isQuote with rfl | rfl <;> decide
    rw [List.cons_append, List.append_assoc, List.singleton_append,
      tagEnd?_other noEnd (absurd · noDash), if_pos isQuote, tagEnd?_closeQuote inside, found]
    refine congrArg some ?_
    simp only [List.length_cons, List.length_append, List.length_nil]
    omega
  cases isToken with
  | doubleQuoted inside => exact string (.inl rfl) inside
  | singleQuoted inside => exact string (.inr rfl) inside
  | arrow =>
    rw [List.cons_append, List.singleton_append, tagEnd?_arrow, found]
    exact congrArg some (Nat.add_comm count 2)
  | @other c noEnd noDouble noSingle =>
    rw [List.singleton_append, tagEnd?_other noEnd fun dash => whole (congrArg ([·]) dash),
      if_neg (not_or.mpr ⟨noDouble, noSingle⟩), found]
    exact congrArg some (Nat.add_comm count 1)

theorem IsToken.exists_cons {token : List Char} (isToken : IsToken token) :
    ∃ c rest, token = c :: rest ∧ c ≠ '>' := by
  cases isToken with
  | other noEnd => exact ⟨_, _, rfl, noEnd⟩
  | _ => exact ⟨_, _, rfl, by decide⟩

/-- The search goes over the tokens of a tag up to its end. -/
theorem tagEnd?_tokens {tokens : List (List Char)} (isToken : ∀ token ∈ tokens, IsToken token)
    (noDash : tokens.getLast? ≠ some ['-']) (rest : List Char) :
    tagEnd? none (tokens.flatten ++ '>' :: rest) = some (tokens.flatten.length + 1) := by
  induction tokens with
  | nil => exact tagEnd?_close rest
  | cons token more ih =>
    have isToken' : ∀ token ∈ more, IsToken token := fun other member =>
      isToken other (List.mem_cons_of_mem token member)
    have noDash' : more.getLast? ≠ some ['-'] := fun last =>
      noDash (getLast?_append_of_ends last [token])
    have whole : token = ['-'] → (more.flatten ++ '>' :: rest).head? ≠ some '>' := by
      rintro rfl begins
      cases more with
      | nil => exact noDash rfl
      | cons next more =>
        obtain ⟨c, behind, rfl, noEnd⟩ := (isToken' next List.mem_cons_self).exists_cons
        exact noEnd (Option.some.inj begins)
    rw [List.flatten_cons, List.append_assoc,
      tagEnd?_token (isToken token List.mem_cons_self) whole (ih isToken' noDash'),
      List.length_append, Nat.add_assoc]

/-- **An opening tag is read** up to its end, whatever stands behind it. -/
theorem openingTagLength_written (tag : OpeningTag) (rest : List Char) :
    openingTagLength (tag.written ++ rest) = some tag.written.length := by
  obtain ⟨lead, ⟨letter, name, isAlpha, nameChars⟩, gap, tokens, leadBlank, gapBlank, filled,
    isToken, noDash⟩ := tag
  cases gap with
  | nil => exact absurd rfl filled
  | cons first gap =>
    -- All blanks behind the first one are read as tokens.
    have singles : (gap.map ([·])).flatten = gap := by
      rw [← List.flatMap_def, List.flatMap_singleton']
    have isToken' : ∀ token ∈ gap.map ([·]) ++ tokens, IsToken token := by
      intro token member
      rcases List.mem_append.mp member with member | member
      · obtain ⟨c, inGap, rfl⟩ := List.mem_map.mp member
        have blank := gapBlank c (List.mem_cons_of_mem first inGap)
        refine .other ?_ ?_ ?_ <;> rintro rfl <;> exact absurd blank (by decide)
      · exact isToken token member
    have noDash' : (gap.map ([·]) ++ tokens).getLast? ≠ some ['-'] := by
      intro last
      rw [List.getLast?_append] at last
      rcases Option.or_eq_some_iff.mp last with last | ⟨-, last⟩
      · exact noDash last
      · obtain ⟨c, inGap, same⟩ := List.mem_map.mp (List.mem_of_getLast? last)
        obtain rfl := (List.cons.inj same).1
        exact absurd (gapBlank _ (List.mem_cons_of_mem first inGap)) (by decide)
    have ended := tagEnd?_tokens isToken' noDash' rest
    have blank := gapBlank first List.mem_cons_self
    have stops : isTagNameChar first = false := isTagNameChar_eq_false_of_isBlank blank
    have text : (OpeningTag.written ⟨lead, ⟨letter, name, isAlpha, nameChars⟩, first :: gap, tokens,
        leadBlank, gapBlank, filled, isToken, noDash⟩) ++ rest = '<' :: (lead ++ letter :: (name ++
          first :: ((gap.map ([·]) ++ tokens).flatten ++ '>' :: rest))) := by
      simp [OpeningTag.written, TagName.written, singles]
    have dense := isBlank_eq_false_of_isAlpha isAlpha
    rw [text, openingTagLength_cons, takeWhile_of_stop leadBlank dense,
      dropWhile_of_stop leadBlank dense, tagBody?_append isAlpha nameChars stops, if_pos blank,
      ended, Option.map_some, Option.map_some]
    refine congrArg some ?_
    rw [List.flatten_append, singles, OpeningTag.written, TagName.written]
    simp only [List.length_cons, List.length_append, List.length_nil]
    omega

/-! ## Piece by piece -/

theorem TagName.not_mem (name : TagName) {c : Char} (noLetter : c.isAlpha = false)
    (noNameChar : isTagNameChar c = false) : c ∉ name.written := by
  intro member
  rcases List.mem_cons.mp member with rfl | member
  · rw [name.isAlpha_letter] at noLetter
    cases noLetter
  · rw [name.isTagNameChar_more c member] at noNameChar
    cases noNameChar

/-- Behind `<` and a name there is no opening tag when the tag ends there. -/
theorem openingTagLength_bare (name : TagName) (rest : List Char) :
    openingTagLength ('<' :: (name.written ++ '>' :: rest)) = none := by
  have dense : ¬ isBlank name.letter = true :=
    Bool.eq_false_iff.mp (isBlank_eq_false_of_isAlpha name.isAlpha_letter)
  rw [openingTagLength_cons, TagName.written, List.cons_append, List.dropWhile_cons_of_neg dense,
    tagBody?_append name.isAlpha_letter name.isTagNameChar_more (by decide), if_neg (by decide),
    Option.map_none]

theorem flattenTag_eq (tag : List Char) : flattenTag tag =
    if '\n' ∈ tag ∨ '\r' ∈ tag then spaceRuns tag else tag := by
  rw [flattenTag, collapseBlanks_eq_spaceRuns]
  by_cases spans : '\n' ∈ tag ∨ '\r' ∈ tag
  · rw [if_pos spans, if_pos ((spansLines_iff tag).mpr spans)]
  · rw [if_neg spans, if_neg fun lines => spans ((spansLines_iff tag).mp lines)]

/-- A piece in front of a text is put on one line by itself. -/
theorem inlineTags_piece (piece : Piece) (rest : List Char) :
    inlineTags (piece.written ++ rest) = piece.inlined ++ inlineTags rest := by
  cases piece with
  | text content noTag => exact inlineTags_append noTag rest
  | closing name =>
    have noTag : openingTagLength ('<' :: '/' :: (name.written ++ ['>'] ++ rest)) = none := rfl
    have behind : '<' ∉ '/' :: (name.written ++ ['>']) := by
      have inName := name.not_mem (by decide : Char.isAlpha '<' = false) (by decide)
      simpa using inName
    rw [Piece.inlined, Piece.written, List.cons_append, List.cons_append, inlineTags_of_none noTag]
    · exact congrArg ('<' :: ·) (inlineTags_append behind rest)
    · nofun
  | bare name =>
    have behind : '<' ∉ name.written ++ ['>'] := by
      have inName := name.not_mem (by decide : Char.isAlpha '<' = false) (by decide)
      simpa using inName
    have noTag : openingTagLength ('<' :: (name.written ++ ['>'] ++ rest)) = none := by
      rw [List.append_assoc]
      exact openingTagLength_bare name rest
    rw [Piece.inlined, Piece.written, List.cons_append, inlineTags_of_none noTag]
    · exact congrArg ('<' :: ·) (inlineTags_append behind rest)
    · nofun
  | opening tag =>
    rw [Piece.written, inlineTags_of_tag (openingTagLength_written tag rest), List.take_left,
      List.drop_left, flattenTag_eq]
    rfl

/-- **Putting tags on one line** goes over a document piece by piece: in each opening tag with a
line end every run of blanks becomes one space, those in its strings included, and all else is
kept. -/
theorem inlineTags_document (document : List Piece) :
    inlineTags (document.flatMap Piece.written) = document.flatMap Piece.inlined := by
  induction document with
  | nil => rfl
  | cons piece document ih => rw [List.flatMap_cons, List.flatMap_cons, inlineTags_piece, ih]

example : inlineTags "a\n<ui:card\n  title=\"1 >\n 0\"\n->x>\n</ui:card>".toList =
    "a\n<ui:card title=\"1 > 0\" ->x>\n</ui:card>".toList := by decide

end Templating.Source
