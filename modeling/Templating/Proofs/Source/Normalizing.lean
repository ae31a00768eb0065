import Templating.Proofs.Source.Disguise
import Templating.Proofs.Source.TagValue

/-!
# Normalising a disguised text

Normalising does not see through a disguise of which it reads and changes no mark, and behind each
of whose marks a tag can stand, `Disguise.Inert`.

- `Disguise.Writes.of_front`, `Disguise.Writes.of_quoted`: a tag, its sign and its quotes are
  written as themselves.
- `Disguise.Writes.readTag`: in both texts the same occurrence is read.
- `Disguise.Writes.normalizeValue`, `Disguise.Writes.run`: one value, and one run over the text.
- `Disguise.Writes.normalizeTags`: normal forms of a text and of its disguise are a text and its
  disguise.
-/

namespace Templating.Source

open Templating.Text

/-! ## Marks -/

/-- A character that can be part of a tag. -/
def isTagChar (c : Char) : Bool :=
  isWord c || c = ':'

/-- A character that normalising keeps wherever it stands. -/
def isInert (c : Char) : Bool :=
  !(isPadding c || c = '=' || c = '"' || c = 'n')

/-- Text that normalising keeps wherever it stands, with a place for a tag behind it. -/
structure IsMark (mark : List Char) : Prop where
  inert : ∀ c ∈ mark, isInert c = true
  starts : ∃ c rest, mark = c :: rest ∧ isTagChar c = false
  ends : ∃ last, mark.getLast? = some last ∧ isSeparator last = true

theorem not_isPadding_of_isInert {c : Char} (inert : isInert c = true) : isPadding c = false := by
  simp only [isInert, Bool.not_eq_true', Bool.or_eq_false_iff] at inert
  exact inert.1.1.1

theorem not_isBlank_of_isInert {c : Char} (inert : isInert c = true) : isBlank c = false := by
  have dense := not_isPadding_of_isInert inert
  simp only [isPadding, Bool.or_eq_false_iff] at dense
  exact dense.1.1

theorem IsMark.ne_nil {mark : List Char} (isMark : IsMark mark) : mark ≠ [] := by
  obtain ⟨c, rest, rfl, -⟩ := isMark.starts
  exact List.cons_ne_nil c rest

theorem IsMark.not_mem {mark : List Char} (isMark : IsMark mark) {c : Char}
    (loud : isInert c = false) : c ∉ mark :=
  fun member => absurd (isMark.inert c member) (by simp [loud])

theorem IsMark.last {mark : List Char} (isMark : IsMark mark) :
    ∃ last, mark.getLast? = some last ∧ isSeparator last = true ∧ isPadding last = false := by
  obtain ⟨last, ends, separator⟩ := isMark.ends
  exact ⟨last, ends, separator,
    not_isPadding_of_isInert (isMark.inert last (List.mem_of_getLast? ends))⟩

theorem IsMark.dropWhile_append {mark : List Char} (isMark : IsMark mark) (back : List Char) :
    (mark ++ back).dropWhile isPadding = mark ++ back := by
  obtain ⟨c, rest, rfl, -⟩ := isMark.starts
  have dense := not_isPadding_of_isInert (isMark.inert c List.mem_cons_self)
  rw [List.cons_append, List.dropWhile_cons, dense]
  rfl

theorem IsMark.collapseAfter_append {mark : List Char} (isMark : IsMark mark) (afterBlank : Bool)
    (back : List Char) :
    collapseAfter afterBlank (mark ++ back) = mark ++ collapseAfter false back := by
  have dense : ∀ c ∈ mark, isBlank c = false := fun c member =>
    not_isBlank_of_isInert (isMark.inert c member)
  obtain ⟨c, rest, rfl, -⟩ := isMark.starts
  clear isMark
  induction rest generalizing c afterBlank with
  | nil =>
    rw [List.cons_append, collapseAfter, dense c List.mem_cons_self]
    rfl
  | cons d rest ih =>
    rw [List.cons_append, collapseAfter, dense c List.mem_cons_self,
      ih false d fun e member => dense e (List.mem_cons_of_mem c member)]
    rfl

/-- A text that a character ends which is not in the mark goes beyond the mark. -/
theorem exists_append_of_not_mem {c : Char} {front back sign rest : List Char} (foreign : c ∉ sign)
    (same : front ++ c :: back = sign ++ rest) :
    ∃ inside, front = sign ++ inside ∧ rest = inside ++ c :: back := by
  rcases List.append_eq_append_iff.mp same with ⟨middle, rfl, inner⟩ | ⟨middle, rfl, inner⟩
  · cases middle with
    | nil => exact ⟨[], by simp, inner.symm⟩
    | cons d middle =>
      obtain ⟨rfl, -⟩ := List.cons.inj inner
      exact absurd (List.mem_append_right front List.mem_cons_self) foreign
  · exact ⟨middle, rfl, inner⟩

/-- A tag of the host language: `n:` and then word characters and colons. -/
def IsAttributeTag (tag : List Char) : Prop :=
  ∃ name, tag = 'n' :: ':' :: name ∧ ∀ c ∈ name, isTagChar c = true

theorem IsAttributeTag.isTagChar {tag : List Char} (isTag : IsAttributeTag tag) {c : Char}
    (member : c ∈ tag) : isTagChar c = true := by
  obtain ⟨name, rfl, chars⟩ := isTag
  rcases List.mem_cons.mp member with rfl | member
  · decide
  · rcases List.mem_cons.mp member with rfl | member
    · decide
    · exact chars c member

/-! ## Disguises -/

/-- The marks of the disguise are marks for normalising, on both sides. -/
structure Disguise.Inert (disguise : Disguise) : Prop where
  written : ∀ {sign piece}, disguise.mark sign piece → IsMark sign
  meant : ∀ {sign piece}, disguise.mark sign piece → IsMark piece
  space : disguise.plain ' '

theorem Disguise.Inert.swap {disguise : Disguise} (inert : disguise.Inert) :
    disguise.swap.Inert :=
  ⟨inert.meant, inert.written, inert.space⟩

namespace Disguise.Writes

variable {disguise : Disguise} {written text front back tag : List Char}

/-- A text and its disguise are empty together. -/
theorem isEmpty_eq (inert : disguise.Inert) (writes : disguise.Writes written text) :
    written.isEmpty = text.isEmpty := by
  cases writes with
  | nil => rfl
  | keep => rfl
  | mark mark =>
    obtain ⟨c, rest, rfl, -⟩ := (inert.written mark).starts
    obtain ⟨d, rest', rfl, -⟩ := (inert.meant mark).starts
    rfl

/-- Text in which no mark can begin is written as itself. -/
theorem of_front (inert : disguise.Inert)
    (firm : ∀ c ∈ front, isInert c = false ∨ isTagChar c = true)
    (writes : disguise.Writes (front ++ back) text) :
    ∃ rest, text = front ++ rest ∧ disguise.Writes back rest ∧ ∀ c ∈ front, disguise.plain c := by
  induction front generalizing text with
  | nil => exact ⟨text, rfl, writes, by simp⟩
  | cons c front ih =>
    rw [List.cons_append] at writes
    generalize whole : c :: (front ++ back) = written at writes
    cases writes with
    | nil => cases whole
    | keep plain behind =>
      obtain ⟨rfl, rfl⟩ := List.cons.inj whole
      obtain ⟨rest, rfl, later, plains⟩ :=
        ih (fun d member => firm d (List.mem_cons_of_mem c member)) behind
      refine ⟨rest, rfl, later, ?_⟩
      intro d member
      rcases List.mem_cons.mp member with rfl | member
      · exact plain
      · exact plains d member
    | mark mark behind =>
      have isMark := inert.written mark
      obtain ⟨d, more, rfl, foreign⟩ := isMark.starts
      obtain ⟨rfl, -⟩ := List.cons.inj whole
      rcases firm c List.mem_cons_self with loud | tagChar
      · exact absurd List.mem_cons_self (isMark.not_mem loud)
      · rw [foreign] at tagChar
        cases tagChar

/-- A quote closes what is in front of it in both texts. -/
theorem of_quoted (inert : disguise.Inert) (unquoted : '"' ∉ front)
    (writes : disguise.Writes (front ++ '"' :: back) text) :
    ∃ meant rest, text = meant ++ '"' :: rest ∧ '"' ∉ meant ∧ disguise.Writes front meant ∧
      disguise.Writes back rest := by
  generalize whole : front ++ '"' :: back = written at writes
  induction writes generalizing front with
  | nil => simp at whole
  | @keep c written text plain behind ih =>
    cases front with
    | nil =>
      obtain ⟨rfl, rfl⟩ := List.cons.inj whole
      exact ⟨[], text, rfl, by simp, .nil, behind⟩
    | cons d front =>
      obtain ⟨rfl, inner⟩ := List.cons.inj whole
      obtain ⟨meant, rest, rfl, clean, writes, later⟩ :=
        ih (fun member => unquoted (List.mem_cons_of_mem d member)) inner
      refine ⟨d :: meant, rest, rfl, ?_, .keep plain writes, later⟩
      intro member
      rcases List.mem_cons.mp member with rfl | member
      · exact unquoted List.mem_cons_self
      · exact clean member
  | @mark sign piece written text mark behind ih =>
    have quote : isInert '"' = false := by decide
    obtain ⟨inside, rfl, inner⟩ :=
      exists_append_of_not_mem ((inert.written mark).not_mem quote) whole
    obtain ⟨meant, rest, rfl, clean, writes, later⟩ :=
      ih (fun member => unquoted (List.mem_append_right sign member)) inner.symm
    refine ⟨piece ++ meant, rest, List.append_assoc .. |>.symm, ?_, .mark mark writes, later⟩
    intro member
    rcases List.mem_append.mp member with member | member
    · exact (inert.meant mark).not_mem quote member
    · exact clean member

/-! ## One occurrence -/

/-- Where a tag is read in the disguise, it is read in the text, with the same value in disguise
and the same rest. -/
theorem readTag (inert : disguise.Inert) (isTag : IsAttributeTag tag)
    (writes : disguise.Writes written text) {length : Nat} {value : List Char}
    (read : Source.readTag tag written = some (length, value)) :
    ∃ length' value', Source.readTag tag text = some (length', value') ∧
      disguise.Writes value value' ∧ disguise.Writes (written.drop length) (text.drop length') ∧
      ∀ c ∈ tag ++ ['=', '"'], disguise.plain c := by
  obtain ⟨gap, inner, rest, occurrence, behind⟩ := readTag_eq_some read
  rw [behind]
  obtain ⟨gapBlank, innerBlank, unquoted, rfl⟩ := occurrence
  have blankFirm {c : Char} (blank : isBlank c = true) : isInert c = false := by
    simp [isInert, isPadding, blank]
  -- Up to the opening quote nothing can begin a mark.
  let front := tag ++ (gap ++ '=' :: (inner ++ ['"']))
  have frontFirm : ∀ c ∈ front, isInert c = false ∨ isTagChar c = true := by
    intro c member
    simp only [front, List.mem_append, List.mem_cons, List.not_mem_nil, or_false] at member
    rcases member with member | member | rfl | member | rfl
    · exact .inr (isTag.isTagChar member)
    · exact .inl (blankFirm (gapBlank c member))
    · exact .inl (by decide)
    · exact .inl (blankFirm (innerBlank c member))
    · exact .inl (by decide)
  have shape : tag ++ (gap ++ '=' :: (inner ++ '"' :: (value ++ '"' :: rest))) =
      front ++ (value ++ '"' :: rest) := by
    simp [front]
  rw [shape] at writes
  obtain ⟨back, rfl, later, plains⟩ := writes.of_front inert frontFirm
  obtain ⟨meant, rest', rfl, clean, writesValue, writesRest⟩ := later.of_quoted inert unquoted
  have occurrence : IsOccurrence tag gap inner meant rest' (front ++ (meant ++ '"' :: rest')) :=
    ⟨gapBlank, innerBlank, clean, by simp [front]⟩
  refine ⟨_, meant, readTag_occurrence occurrence, writesValue, ?_, ?_⟩
  · rw [occurrence.drop]
    exact writesRest
  · intro c member
    apply plains
    simp only [front, List.mem_append, List.mem_cons, List.not_mem_nil, or_false] at member ⊢
    rcases member with member | rfl | rfl <;> simp [*]

/-- A tag is read in both texts or in neither. -/
theorem readTag_none (inert : disguise.Inert) (isTag : IsAttributeTag tag)
    (writes : disguise.Writes written text) (nothing : Source.readTag tag written = none) :
    Source.readTag tag text = none := by
  cases read : Source.readTag tag text with
  | none => rfl
  | some occurrence =>
    obtain ⟨length, value⟩ := occurrence
    obtain ⟨_, _, readBack, -⟩ := writes.swap.readTag inert.swap isTag read
    rw [nothing] at readBack
    cases readBack

/-! ## One value -/

theorem dropWhile_padding (inert : disguise.Inert) (writes : disguise.Writes written text) :
    disguise.Writes (written.dropWhile isPadding) (text.dropWhile isPadding) := by
  induction writes with
  | nil => exact .nil
  | @keep c written text plain behind ih =>
    rw [List.dropWhile_cons, List.dropWhile_cons]
    split
    · exact ih
    · exact .keep plain behind
  | @mark sign piece written text mark behind ih =>
    rw [(inert.written mark).dropWhile_append, (inert.meant mark).dropWhile_append]
    exact .mark mark behind

theorem dropTail_padding (inert : disguise.Inert) (writes : disguise.Writes written text) :
    disguise.Writes (dropTail isPadding written) (dropTail isPadding text) := by
  induction writes with
  | nil => exact .nil
  | keep plain _ ih =>
    rw [dropTail_cons, dropTail_cons, ih.isEmpty_eq inert]
    split
    · exact .nil
    · exact .keep plain ih
  | mark mark _ ih =>
    obtain ⟨last, ends, -, dense⟩ := (inert.written mark).last
    obtain ⟨last', ends', -, dense'⟩ := (inert.meant mark).last
    rw [dropTail_append ends dense, dropTail_append ends' dense']
    exact .mark mark ih

theorem collapseAfter (inert : disguise.Inert) (writes : disguise.Writes written text)
    (afterBlank : Bool) :
    disguise.Writes (Text.collapseAfter afterBlank written)
      (Text.collapseAfter afterBlank text) := by
  induction writes generalizing afterBlank with
  | nil => exact .nil
  | keep plain _ ih =>
    rw [Text.collapseAfter, Text.collapseAfter]
    split
    · split
      · exact ih true
      · exact .keep inert.space (ih true)
    · exact .keep plain (ih false)
  | mark mark _ ih =>
    rw [(inert.written mark).collapseAfter_append, (inert.meant mark).collapseAfter_append]
    exact .mark mark (ih false)

/-- Normal values of a text and of its disguise are a text and its disguise. -/
theorem normalizeValue (inert : disguise.Inert) (writes : disguise.Writes written text) :
    disguise.Writes (Source.normalizeValue written) (Source.normalizeValue text) :=
  ((writes.dropWhile_padding inert).dropTail_padding inert).collapseAfter inert false

theorem writeTag (inert : disguise.Inert) (plain : ∀ c ∈ tag ++ ['=', '"'], disguise.plain c)
    (writes : disguise.Writes written text) :
    disguise.Writes (Source.writeTag tag written) (Source.writeTag tag text) := by
  rw [Source.writeTag, Source.writeTag, writes.isEmpty_eq inert]
  split
  · exact .nil
  · have front := of_plain plain
    have quote : disguise.plain '"' := plain '"' (by simp)
    simpa using front.append (writes.append (.keep quote .nil))

/-! ## One run -/

/-- A run for one tag keeps the disguise, behind a character that goes with a tag and at a place
where a tag is read. The induction is on the length of the disguised text, since a run goes on
behind the occurrences that it finds. -/
theorem run (inert : disguise.Inert) (isTag : IsAttributeTag tag)
    (writes : disguise.Writes written text) :
    disguise.Writes (substitute (separatedTagRule tag) written)
        (substitute (separatedTagRule tag) text) ∧
      disguise.Writes (normalizeTag tag written) (normalizeTag tag text) := by
  induction size : written.length using Nat.strongRecOn generalizing written text with
  | ind length ih =>
    subst size
    have shorter {written' text' : List Char} (less : written'.length < written.length)
        (writes' : disguise.Writes written' text') := ih _ less writes' rfl
    have behind : disguise.Writes (substitute (separatedTagRule tag) written)
        (substitute (separatedTagRule tag) text) := by
      cases writes with
      | nil => exact .nil
      | @keep c written text plain behind =>
        have later := shorter (Nat.lt_succ_self _) behind
        cases separates : isSeparator c with
        | true =>
          rw [substitute_separator separates, substitute_separator separates]
          exact .keep plain later.2
        | false =>
          rw [substitute_joined separates, substitute_joined separates]
          exact .keep plain later.1
      | @mark sign piece written text mark behind =>
        obtain ⟨name, rfl, -⟩ := isTag
        have letter : isInert 'n' = false := by decide
        have isSign := inert.written mark
        have isPiece := inert.meant mark
        obtain ⟨last, ends, separates, -⟩ := isSign.last
        obtain ⟨last', ends', separates', -⟩ := isPiece.last
        have less : written.length < (sign ++ written).length := by
          rw [List.length_append]
          have := List.length_pos_iff.mpr isSign.ne_nil
          omega
        rw [substitute_inert (isSign.not_mem letter) ends separates,
          substitute_inert (isPiece.not_mem letter) ends' separates']
        exact .mark mark (shorter less behind).2
    refine ⟨behind, ?_⟩
    cases read : Source.readTag tag written with
    | none =>
      rw [normalizeTag_of_none read, normalizeTag_of_none (writes.readTag_none inert isTag read)]
      exact behind
    | some occurrence =>
      obtain ⟨length, value⟩ := occurrence
      obtain ⟨length', value', read', writesValue, writesRest, plain⟩ :=
        writes.readTag inert isTag read
      obtain ⟨gap, inner, rest, found, rfl⟩ := readTag_eq_some read
      rw [normalizeTag_of_some read, normalizeTag_of_some read']
      exact ((writesValue.normalizeValue inert).writeTag inert plain).append
        (shorter found.length_lt writesRest).1

/-- Normalising a text and its disguise gives a text and its disguise. -/
theorem normalizeTags (inert : disguise.Inert) {tags : List String}
    (areTags : ∀ tag ∈ tags, IsAttributeTag tag.toList)
    (writes : disguise.Writes written text) :
    disguise.Writes (Source.normalizeTags tags written) (Source.normalizeTags tags text) := by
  induction tags generalizing written text with
  | nil => exact writes
  | cons tag tags ih =>
    exact ih (fun other member => areTags other (List.mem_cons_of_mem tag member))
      (writes.run inert (areTags tag List.mem_cons_self)).2

end Disguise.Writes

end Templating.Source
