import Templating.Markup.Parser
import Templating.Proofs.Markup.Pass.Separators

/-!
# Blocks of separators

Several blank texts may stand side by side in an attribute run. Tidying looks at one of them at a
time, and back at the one before only to see whether it is a single space by now, so what a block
comes to depends on the texts that it is made of.

* `tidyKinds_append`, `tidyKinds_texts`: a run is tidied block by block.
* `Mends`, `join_tidyTexts_iff`: the blocks that come to nothing or to one space.
* `interiorWhitespace_mends`: the blocks of every run in view, and
  `interiorWhitespace_keeps_return`: a carriage return that stays.
-/

namespace Templating.Markup

open Templating.Text

/-! ## A block as it is tidied -/

/-- Blank texts side by side as they are tidied, the text before them being `previous`. -/
def tidyTexts (last : Bool) (previous : Option String) : List String → List String
  | [] => []
  | text :: rest =>
    let tidy := (tidySeparator text previous (rest.isEmpty && last)).getD text
    tidy :: tidyTexts last (some tidy) rest

theorem length_tidyTexts (last : Bool) (previous : Option String) (texts : List String) :
    (tidyTexts last previous texts).length = texts.length := by
  induction texts generalizing previous with
  | nil => rfl
  | cons text rest ih => rw [tidyTexts, List.length_cons, List.length_cons, ih]

/-- A text that is written anew, as a space or as nothing. -/
def IsSeparator (text : String) : Prop :=
  BreaksLine text ∨ IsInline text

/-- Texts of which nothing is left behind a tidied text that is no space: empty ones, and one that
breaks the line at the end of the run. -/
inductive Vanishes (last : Bool) : List String → Prop
  | nil : Vanishes last []
  | empty {rest : List String} : Vanishes last rest → Vanishes last ("" :: rest)
  | final {text : String} : last = true → BreaksLine text → Vanishes last [text]

/-- Texts that come to nothing or to one space: texts that vanish, and behind empty texts one that
breaks the line or is inline, which an inline one may follow directly. -/
inductive Mends (last : Bool) : List String → Prop
  | nothing {texts : List String} : Vanishes last texts → Mends last texts
  | empty {rest : List String} : Mends last rest → Mends last ("" :: rest)
  | one {text : String} {rest : List String} :
    IsSeparator text → Vanishes last rest → Mends last (text :: rest)
  | two {text inline : String} {rest : List String} :
    IsSeparator text → IsInline inline → Vanishes last rest → Mends last (text :: inline :: rest)

section

variable {text : String} {rest texts : List String} {last : Bool} {previous : Option String}

theorem not_separator_of_returns (returns : ∀ c ∈ text.toList, c = '\r') : ¬ IsSeparator text := by
  rintro (breaks | inline)
  · exact absurd (returns _ breaks) (by decide)
  · exact not_inline_of_returns returns inline.2

theorem ne_empty_of_separator (isSeparator : IsSeparator text) : text ≠ "" := by
  rintro rfl
  exact not_separator_of_returns (List.forall_mem_nil _) isSeparator

theorem vanishes_cons : Vanishes last (text :: rest) ↔
    (text = "" ∧ Vanishes last rest) ∨ (last = true ∧ rest = [] ∧ BreaksLine text) := by
  constructor
  · intro vanishes
    cases vanishes with
    | empty vanishes => exact .inl ⟨rfl, vanishes⟩
    | final isLast breaks => exact .inr ⟨isLast, rfl, breaks⟩
  · rintro (⟨rfl, vanishes⟩ | ⟨isLast, rfl, breaks⟩)
    · exact .empty vanishes
    · exact .final isLast breaks

/-- Texts that vanish directly behind a space: the first of them may be inline. -/
def VanishesBehindSpace (last : Bool) (texts : List String) : Prop :=
  Vanishes last texts ∨
    ∃ inline rest, texts = inline :: rest ∧ IsInline inline ∧ Vanishes last rest

theorem mends_cons_of_separator (isSeparator : IsSeparator text) :
    Mends last (text :: rest) ↔ VanishesBehindSpace last rest := by
  constructor
  · intro mends
    cases mends with
    | nothing vanishes =>
      rcases vanishes_cons.mp vanishes with ⟨empty, -⟩ | ⟨-, rfl, -⟩
      · exact absurd empty (ne_empty_of_separator isSeparator)
      · exact .inl .nil
    | empty => exact absurd rfl (ne_empty_of_separator isSeparator)
    | one _ vanishes => exact .inl vanishes
    | two _ isInline vanishes => exact .inr ⟨_, _, rfl, isInline, vanishes⟩
  · rintro (vanishes | ⟨inline, more, rfl, isInline, vanishes⟩)
    · exact .one isSeparator vanishes
    · exact .two isSeparator isInline vanishes

theorem mends_cons_of_no_separator (noSeparator : ¬ IsSeparator text) :
    Mends last (text :: rest) ↔ text = "" ∧ Mends last rest := by
  constructor
  · intro mends
    cases mends with
    | nothing vanishes =>
      rcases vanishes_cons.mp vanishes with ⟨empty, vanishes⟩ | ⟨-, -, breaks⟩
      · exact ⟨empty, .nothing vanishes⟩
      · exact absurd (.inl breaks) noSeparator
    | empty mends => exact ⟨rfl, mends⟩
    | one isSeparator => exact absurd isSeparator noSeparator
    | two isSeparator => exact absurd isSeparator noSeparator
  · rintro ⟨rfl, mends⟩
    exact .empty mends

theorem join_tidyTexts_cons {tidy : String}
    (written : (tidySeparator text previous (rest.isEmpty && last)).getD text = tidy) :
    String.join (tidyTexts last previous (text :: rest)) =
      tidy ++ String.join (tidyTexts last (some tidy) rest) := by
  rw [tidyTexts, written, String.join_cons]

/-- What breaks the line becomes a space, but at the end of the run. -/
theorem tidy_of_breaks (breaks : BreaksLine text) :
    (tidySeparator text previous (rest.isEmpty && last)).getD text =
      if rest = [] ∧ last = true then "" else separator := by
  rw [tidySeparator_of_breaks breaks, Option.getD_some]
  simp only [Bool.and_eq_true, List.isEmpty_iff]

theorem tidy_of_inline (inline : IsInline text) (noSpace : previous ≠ some separator) :
    (tidySeparator text previous (rest.isEmpty && last)).getD text = separator := by
  rw [tidySeparator_of_inline inline, if_neg noSpace, Option.getD_some]

theorem tidy_of_returns (returns : ∀ c ∈ text.toList, c = '\r') :
    (tidySeparator text previous (rest.isEmpty && last)).getD text = text := by
  rw [tidySeparator_of_returns returns, Option.getD_none]

/-- Where a space is written, something is left. -/
theorem join_tidyTexts_ne_empty
    (written : (tidySeparator text previous (rest.isEmpty && last)).getD text = separator) :
    String.join (tidyTexts last previous (text :: rest)) ≠ "" := by
  rw [join_tidyTexts_cons written]
  intro none
  exact absurd (String.append_eq_empty_iff.mp none).1 (by decide)

/-- Behind a text that is no space, texts come to nothing just when they vanish. -/
theorem join_tidyTexts_eq_empty (noSpace : previous ≠ some separator)
    (blank : ∀ text ∈ texts, allBlank text.toList = true) :
    String.join (tidyTexts last previous texts) = "" ↔ Vanishes last texts := by
  induction texts generalizing previous with
  | nil => exact iff_of_true rfl .nil
  | cons text rest ih =>
    obtain ⟨isBlank, blank'⟩ := List.forall_mem_cons.mp blank
    rw [vanishes_cons]
    rcases breaks_or_inline_or_returns isBlank with breaks | inline | returns
    · by_cases final : rest = [] ∧ last = true
      · rw [join_tidyTexts_cons (tidy_of_breaks breaks), if_pos final, final.1]
        exact iff_of_true rfl (.inr ⟨final.2, rfl, breaks⟩)
      · refine iff_of_false
          (join_tidyTexts_ne_empty ((tidy_of_breaks breaks).trans (if_neg final))) ?_
        rintro (⟨empty, -⟩ | ⟨isLast, none, -⟩)
        · exact ne_empty_of_separator (.inl breaks) empty
        · exact final ⟨none, isLast⟩
    · refine iff_of_false (join_tidyTexts_ne_empty (tidy_of_inline inline noSpace)) ?_
      rintro (⟨empty, -⟩ | ⟨-, -, breaks⟩)
      · exact ne_empty_of_separator (.inr inline) empty
      · exact inline.1 breaks
    · rw [join_tidyTexts_cons (tidy_of_returns returns), String.append_eq_empty_iff]
      constructor
      · rintro ⟨rfl, nothing⟩
        exact .inl ⟨rfl, (ih (by decide) blank').mp nothing⟩
      · rintro (⟨rfl, vanishes⟩ | ⟨-, -, breaks⟩)
        · exact ⟨rfl, (ih (by decide) blank').mpr vanishes⟩
        · exact absurd (.inl breaks) (not_separator_of_returns returns)

/-- Any text but an inline one is written the same behind a space as elsewhere. -/
theorem tidyTexts_behind_space (other : ¬ IsInline text) (isBlank : allBlank text.toList = true) :
    tidyTexts last (some separator) (text :: rest) = tidyTexts last none (text :: rest) := by
  rcases breaks_or_inline_or_returns isBlank with breaks | inline | returns
  · rw [tidyTexts, tidyTexts, tidy_of_breaks breaks, tidy_of_breaks breaks]
  · exact absurd inline other
  · rw [tidyTexts, tidyTexts, tidy_of_returns returns, tidy_of_returns returns]

/-- Behind a space the first text vanishes also when it is inline. -/
theorem join_tidyTexts_behind_space (blank : ∀ text ∈ texts, allBlank text.toList = true) :
    String.join (tidyTexts last (some separator) texts) = "" ↔ VanishesBehindSpace last texts := by
  cases texts with
  | nil => exact iff_of_true rfl (.inl .nil)
  | cons text rest =>
    obtain ⟨isBlank, blank'⟩ := List.forall_mem_cons.mp blank
    by_cases inline : IsInline text
    · have tidy : (tidySeparator text (some separator) (rest.isEmpty && last)).getD text = "" := by
        rw [tidySeparator_of_inline inline, if_pos rfl, Option.getD_some]
      rw [join_tidyTexts_cons tidy, String.empty_append, join_tidyTexts_eq_empty (by decide) blank']
      constructor
      · exact fun vanishes => .inr ⟨text, rest, rfl, inline, vanishes⟩
      · rintro (vanishes | ⟨_, _, same, -, vanishes⟩)
        · rcases vanishes_cons.mp vanishes with ⟨empty, -⟩ | ⟨-, -, breaks⟩
          · exact absurd empty (ne_empty_of_separator (.inr inline))
          · exact absurd breaks inline.1
        · exact (List.cons.inj same).2 ▸ vanishes
    · rw [tidyTexts_behind_space inline isBlank,
        join_tidyTexts_eq_empty (Option.some_ne_none separator).symm blank]
      refine ⟨.inl, ?_⟩
      rintro (vanishes | ⟨_, _, same, isInline, -⟩)
      · exact vanishes
      · exact absurd ((List.cons.inj same).1 ▸ isInline) inline

/-- Where a space is written it depends on the texts behind it whether the block mends. -/
theorem join_tidyTexts_iff_of_separator (isSeparator : IsSeparator text)
    (blank : ∀ text ∈ rest, allBlank text.toList = true)
    (written : (tidySeparator text previous (rest.isEmpty && last)).getD text = separator) :
    (String.join (tidyTexts last previous (text :: rest)) = "" ∨
      String.join (tidyTexts last previous (text :: rest)) = separator) ↔
    Mends last (text :: rest) := by
  rw [or_iff_right (join_tidyTexts_ne_empty written), join_tidyTexts_cons written,
    String.append_eq_left_iff, join_tidyTexts_behind_space blank,
    mends_cons_of_separator isSeparator]

/-- **A block comes to nothing or one space** just when it mends. -/
theorem join_tidyTexts_iff (noSpace : previous ≠ some separator)
    (blank : ∀ text ∈ texts, allBlank text.toList = true) :
    (String.join (tidyTexts last previous texts) = "" ∨
      String.join (tidyTexts last previous texts) = separator) ↔ Mends last texts := by
  induction texts generalizing previous with
  | nil => exact iff_of_true (.inl rfl) (.nothing .nil)
  | cons text rest ih =>
    obtain ⟨isBlank, blank⟩ := List.forall_mem_cons.mp blank
    rcases breaks_or_inline_or_returns isBlank with breaks | inline | returns
    · by_cases final : rest = [] ∧ last = true
      · rw [join_tidyTexts_cons (tidy_of_breaks breaks), if_pos final, final.1]
        exact iff_of_true (.inl rfl) (.nothing (.final final.2 breaks))
      · exact join_tidyTexts_iff_of_separator (.inl breaks) blank
          ((tidy_of_breaks breaks).trans (if_neg final))
    · exact join_tidyTexts_iff_of_separator (.inr inline) blank (tidy_of_inline inline noSpace)
    · rw [mends_cons_of_no_separator (not_separator_of_returns returns),
        join_tidyTexts_cons (tidy_of_returns returns)]
      by_cases empty : text = ""
      · rw [empty, String.empty_append, ih (by decide) blank, and_iff_right rfl]
      · -- A carriage return stays and is no space.
        refine iff_of_false ?_ fun mends => empty mends.1
        rintro (none | space)
        · exact empty (String.append_eq_empty_iff.mp none).1
        · obtain ⟨c, member⟩ := List.exists_mem_of_ne_nil _ (mt String.toList_eq_nil_iff.mp empty)
          have inSpace : c ∈ separator.toList := by
            rw [← space, String.toList_append]
            exact List.mem_append_left _ member
          rw [returns c member] at inSpace
          exact absurd inSpace (by decide)

end

/-! ## Blocks of a run -/

/-- The contents of the texts among the items of a run. -/
def textsOf (kinds : List NodeKind) : List String :=
  kinds.filterMap NodeKind.text?

/-- A maximal block of blank texts in a run, and what stands in front of it and behind it. -/
structure BlankBlock (kinds front block back : List NodeKind) : Prop where
  whole : kinds = front ++ block ++ back
  blank : ∀ kind ∈ block, kind.isBlank = true
  before : front.getLast?.any NodeKind.isBlank = false
  behind : back.head?.any NodeKind.isBlank = false

section

variable {kind : NodeKind} {previous : Option NodeKind} {last : Bool}
  {kinds front block back : List NodeKind}

theorem tidyKind_of_not_blank (notBlank : kind.isBlank = false) :
    tidyKind previous last kind = kind := by
  cases kind with
  | text content => exact if_neg (Bool.eq_false_iff.mp notBlank)
  | _ => rfl

theorem tidyKind_text {content : String} (blank : allBlank content.toList = true) :
    tidyKind previous last (.text content) =
      .text ((tidySeparator content (previous.bind NodeKind.text?) last).getD content) :=
  if_pos blank

/-- What is tidied stays blank. -/
theorem isBlank_tidyKind : (tidyKind previous last kind).isBlank = kind.isBlank := by
  cases blank : kind.isBlank with
  | false => rw [tidyKind_of_not_blank blank, blank]
  | true =>
    cases kind with
    | text content =>
      rw [tidyKind_text blank]
      cases written : tidySeparator content (previous.bind NodeKind.text?) last with
      | none => exact blank
      | some tidy => exact (allBlank_iff _).mpr (solid_tidySeparator written)
    | _ => cases blank

theorem map_isBlank_tidyKinds (previous : Option NodeKind) (kinds : List NodeKind) :
    (tidyKinds previous kinds).map NodeKind.isBlank = kinds.map NodeKind.isBlank := by
  induction kinds generalizing previous with
  | nil => rfl
  | cons kind rest ih =>
    rw [tidyKinds, List.map_cons, List.map_cons, isBlank_tidyKind, ih]

/-- Tidying goes on behind the first items, of which the last one is as it was
unless it is blank. -/
theorem tidyKinds_append (previous : Option NodeKind) (front kinds : List NodeKind) :
    ∃ tidied, tidied.length = front.length ∧
      (front.getLast?.any NodeKind.isBlank = false → tidied.getLast? = front.getLast?) ∧
      tidyKinds previous (front ++ kinds) =
        tidied ++ tidyKinds (tidied.getLast?.or previous) kinds := by
  induction front generalizing previous with
  | nil => exact ⟨[], rfl, fun _ => rfl, rfl⟩
  | cons kind rest ih =>
    let tidy := tidyKind previous (rest ++ kinds).isEmpty kind
    obtain ⟨tidied, lengths, ends, split⟩ := ih (some tidy)
    refine ⟨tidy :: tidied, congrArg Nat.succ lengths, fun notBlank => ?_, ?_⟩
    · cases rest with
      | nil =>
        obtain rfl := List.eq_nil_of_length_eq_zero lengths
        exact congrArg some (tidyKind_of_not_blank notBlank)
      | cons next rest =>
        rw [List.getLast?_cons_cons] at notBlank ⊢
        have ends := ends notBlank
        rw [List.getLast?_cons, ends, List.getLast?_cons, Option.getD_some]
    · rw [List.cons_append, tidyKinds, split, List.cons_append, List.getLast?_cons, Option.or_some,
        Option.some_or]

/-- Blank texts are tidied as a block. -/
theorem exists_tidyKinds_texts (previous : Option NodeKind) {texts : List String}
    (blank : ∀ text ∈ texts, allBlank text.toList = true) (back : List NodeKind) :
    ∃ tidied, tidyKinds previous (texts.map NodeKind.text ++ back) =
      (tidyTexts back.isEmpty (previous.bind NodeKind.text?) texts).map NodeKind.text ++
        tidied := by
  induction texts generalizing previous with
  | nil => exact ⟨_, rfl⟩
  | cons text rest ih =>
    obtain ⟨isBlank, blank⟩ := List.forall_mem_cons.mp blank
    have ends : (rest.map NodeKind.text ++ back).isEmpty = (rest.isEmpty && back.isEmpty) := by
      cases rest <;> rfl
    obtain ⟨tidied, split⟩ := ih
      (some (tidyKind previous (rest.map NodeKind.text ++ back).isEmpty (.text text))) blank
    refine ⟨tidied, ?_⟩
    rw [List.map_cons, List.cons_append, tidyKinds, split, ends, tidyKind_text isBlank, tidyTexts,
      List.map_cons, List.cons_append]
    rfl

theorem textsOf_map (texts : List String) : textsOf (texts.map NodeKind.text) = texts := by
  rw [textsOf, List.filterMap_map]
  exact List.filterMap_some

/-- A block holds nothing but its texts. -/
theorem map_textsOf (blank : ∀ kind ∈ block, kind.isBlank = true) :
    (textsOf block).map NodeKind.text = block ∧
      ∀ text ∈ textsOf block, allBlank text.toList = true := by
  induction block with
  | nil => exact ⟨rfl, List.forall_mem_nil _⟩
  | cons kind rest ih =>
    obtain ⟨isBlank, blank⟩ := List.forall_mem_cons.mp blank
    obtain ⟨whole, texts⟩ := ih blank
    cases kind with
    | text content =>
      exact ⟨congrArg (NodeKind.text content :: ·) whole, List.forall_mem_cons.mpr ⟨isBlank, texts⟩⟩
    | _ => cases isBlank

/-- Where blocks are depends on which items are blank text. -/
theorem BlankBlock.exists_of_map {others : List NodeKind}
    (isBlock : BlankBlock others front block back)
    (same : kinds.map NodeKind.isBlank = others.map NodeKind.isBlank) :
    ∃ front' block' back', BlankBlock kinds front' block' back' ∧ front'.length = front.length ∧
      block'.length = block.length ∧ back'.isEmpty = back.isEmpty := by
  rw [isBlock.whole, List.map_append, List.map_append] at same
  obtain ⟨inner, back', rfl, same, behind⟩ := List.map_eq_append_iff.mp same
  obtain ⟨front', block', rfl, before, inside⟩ := List.map_eq_append_iff.mp same
  have lengths {first second : List NodeKind}
      (same : first.map NodeKind.isBlank = second.map NodeKind.isBlank) :
      first.length = second.length := by
    rw [← List.length_map, same, List.length_map]
  refine ⟨front', block', back', ⟨rfl, fun kind member => ?_, ?_, ?_⟩, lengths before,
    lengths inside, ?_⟩
  · have member' := List.mem_map_of_mem member (f := NodeKind.isBlank)
    rw [inside] at member'
    obtain ⟨other, member, isBlank⟩ := List.mem_map.mp member'
    rw [← isBlank, isBlock.blank other member]
  · rw [← isBlock.before]
    have ends := congrArg (fun blanks => blanks.getLast?.any id) before
    rwa [List.getLast?_map, List.getLast?_map, Option.any_map, Option.any_map] at ends
  · rw [← isBlock.behind]
    have starts := congrArg (fun blanks => blanks.head?.any id) behind
    rwa [List.head?_map, List.head?_map, Option.any_map, Option.any_map] at starts
  · rw [← List.isEmpty_map, behind, List.isEmpty_map]

/-- **A run is tidied block by block**: each block of a tidied run has come from the block that
was in its place. -/
theorem BlankBlock.exists_tidied (isBlock : BlankBlock (tidyKinds none kinds) front block back) :
    ∃ front' block' back' previous, BlankBlock kinds front' block' back' ∧
      front'.length = front.length ∧ block'.length = block.length ∧ previous ≠ some separator ∧
      textsOf block = tidyTexts back.isEmpty previous (textsOf block') := by
  obtain ⟨front', block', back', was, frontLength, blockLength, ends⟩ :=
    isBlock.exists_of_map (map_isBlank_tidyKinds none kinds).symm
  obtain ⟨texts, blank⟩ := map_textsOf was.blank
  obtain ⟨tidied, tidiedLength, tidiedEnds, split⟩ :=
    tidyKinds_append none front' (block' ++ back')
  rw [← texts] at split
  obtain ⟨rest, inside⟩ := exists_tidyKinds_texts (tidied.getLast?.or none) blank back'
  have whole := isBlock.whole
  rw [was.whole, List.append_assoc, ← texts, split, inside, List.append_assoc] at whole
  obtain ⟨-, whole⟩ := List.append_inj whole (tidiedLength.trans frontLength)
  obtain ⟨isTidied, -⟩ := List.append_inj whole <| by
    rw [List.length_map, length_tidyTexts, ← blockLength, ← List.length_map (f := NodeKind.text),
      texts]
  refine ⟨front', block', back', (tidied.getLast?.or none).bind NodeKind.text?, was, frontLength,
    blockLength, ?_, ?_⟩
  · rw [tidiedEnds was.before, Option.or_none]
    intro space
    obtain ⟨kind, isLast, isSpace⟩ := Option.bind_eq_some_iff.mp space
    have notBlank := was.before
    rw [isLast, Option.any_some] at notBlank
    cases kind with
    | text content =>
      obtain rfl := Option.some.inj isSpace
      exact absurd notBlank (by decide)
    | _ => cases isSpace
  · rw [← isTidied, textsOf_map, ends]

end

/-! ## Blocks of a tree -/

/-- What is left of a blank text is a single space or carriage returns, if anything. -/
theorem isTidy_of_mem_tidyTexts {last : Bool} {previous : Option String} {texts : List String}
    (blank : ∀ text ∈ texts, allBlank text.toList = true) :
    ∀ tidy ∈ tidyTexts last previous texts, IsTidy tidy := by
  induction texts generalizing previous with
  | nil => exact List.forall_mem_nil _
  | cons text rest ih =>
    obtain ⟨isBlank, blank⟩ := List.forall_mem_cons.mp blank
    refine List.forall_mem_cons.mpr ⟨?_, ih blank⟩
    cases written : tidySeparator text previous (rest.isEmpty && last) with
    | none => exact isTidy_of_kept isBlank written
    | some tidy => exact isTidy_tidySeparator written

/-- **Which blocks of separators mend.** One walk over a well-formed tree ends without an error. In
the run of each element in view a maximal block of blank texts then holds no line feed, and comes to
nothing or to one space just when the block that was in its place mends. -/
theorem interiorWhitespace_mends (tree : Tree) (wf : tree.WellFormed) :
    ∃ after, interiorWhitespace.walk tree = .ok () after ∧
      ∀ id name, after.Visible id → after.elementName? id = some name →
        ∀ front block back, BlankBlock (after.runKinds id) front block back →
          (∀ text ∈ textsOf block, IsTidy text) ∧
          ∃ front' block' back', BlankBlock (tree.runKinds id) front' block' back' ∧
            front'.length = front.length ∧ block'.length = block.length ∧
            ((String.join (textsOf block) = "" ∨ String.join (textsOf block) = " ") ↔
              Mends back.isEmpty (textsOf block')) := by
  obtain ⟨after, walked, remade⟩ := Pass.Local.exists_remade interiorWhitespace_local
    (interiorWhitespace_reruns tree) wf
  refine ⟨after, walked, fun id name visible element front block back isBlock => ?_⟩
  obtain ⟨run, isElement⟩ := Tree.exists_attributeRun? element
  obtain ⟨seen, wasElement⟩ := remade.element visible isElement
  rw [remade.runs id run seen wasElement] at isBlock
  obtain ⟨front', block', back', previous, was, frontLength, blockLength, noSpace, texts⟩ :=
    isBlock.exists_tidied
  have blank := (map_textsOf was.blank).2
  rw [texts]
  exact ⟨isTidy_of_mem_tidyTexts blank, front', block', back', was, frontLength, blockLength,
    join_tidyTexts_iff noSpace blank⟩

/-- An element with two blank texts in front of its attribute and one behind it. -/
def blankTextsTree : Tree :=
  ⟨#[⟨.fragment [2], none⟩, ⟨.fragment [3, 4, 5, 6], some 2⟩, ⟨.element "input" 1 [], some 0⟩,
    ⟨.text " \n", some 1⟩, ⟨.text "\t", some 1⟩, ⟨.attr (.text "a") none none, some 1⟩,
    ⟨.text "\n", some 1⟩]⟩

/-- The same element when its separators are tidied. -/
def tidyTextsTree : Tree :=
  ⟨#[⟨.fragment [2], none⟩, ⟨.fragment [3, 4, 5, 6], some 2⟩, ⟨.element "input" 1 [], some 0⟩,
    ⟨.text " ", some 1⟩, ⟨.text "", some 1⟩, ⟨.attr (.text "a") none none, some 1⟩,
    ⟨.text "", some 1⟩]⟩

theorem interiorWhitespace_mends_sample : blankTextsTree.WellFormed ∧
    interiorWhitespace.walk blankTextsTree = .ok () tidyTextsTree ∧ tidyTextsTree.Visible 2 ∧
    tidyTextsTree.elementName? 2 = some "input" ∧
    ∃ block back, BlankBlock (tidyTextsTree.runKinds 2) [] block back ∧ block.length = 2 ∧
      (String.join (textsOf block) = "" ∨ String.join (textsOf block) = " ") := by
  have wf : blankTextsTree.WellFormed :=
    .of_closed [0, 1, 2, 3, 4, 5, 6] (by decide) (by decide) (by decide) (by decide)
  have result : interiorWhitespace.walk blankTextsTree = .ok () tidyTextsTree := rfl
  have visible : tidyTextsTree.Visible 2 := .child .root ⟨rfl, .head _⟩
  have isBlock : BlankBlock (tidyTextsTree.runKinds 2) [] [.text " ", .text ""]
      [.attr (.text "a") none none, .text ""] := ⟨rfl, by decide, rfl, rfl⟩
  obtain ⟨after, walked, blocks⟩ := interiorWhitespace_mends blankTextsTree wf
  obtain rfl : tidyTextsTree = after := by
    cases result.symm.trans walked
    rfl
  obtain ⟨-, front', block', back', was, frontLength, blockLength, mends⟩ :=
    blocks 2 "input" visible rfl _ _ _ isBlock
  obtain rfl := List.eq_nil_of_length_eq_zero frontLength
  have whole : [.text " \n", .text "\t"] ++ [.attr (.text "a") none none, .text "\n"] =
    block' ++ back' := was.whole
  obtain ⟨rfl, -⟩ := List.append_inj whole blockLength.symm
  refine ⟨wf, result, visible, rfl, _, _, isBlock, rfl, mends.mpr ?_⟩
  exact .two (.inl (by decide)) ⟨by decide, by decide⟩ .nil

/-- The tree of an element whose attributes stand on two lines that a carriage return divides. -/
def returnTree : Tree :=
  ⟨#[⟨.fragment [2], none⟩, ⟨.fragment [3, 4, 5, 6], some 2⟩, ⟨.element "input" 1 [], some 0⟩,
    ⟨.text " ", some 1⟩, ⟨.attr (.text "a") none none, some 1⟩, ⟨.text "\r", some 1⟩,
    ⟨.attr (.text "b") none none, some 1⟩]⟩

/-- A carriage return between two attributes stays, which is neither nothing nor one space. -/
theorem interiorWhitespace_keeps_return : parseMarkup "<input a\rb>" = .ok returnTree ∧
    returnTree.WellFormed ∧ interiorWhitespace.walk returnTree = .ok () returnTree ∧
    returnTree.Visible 2 ∧ returnTree.elementName? 2 = some "input" ∧
    ∃ front block back, BlankBlock (returnTree.runKinds 2) front block back ∧
      String.join (textsOf block) ≠ "" ∧ String.join (textsOf block) ≠ " " := by
  have wf : returnTree.WellFormed :=
    .of_closed [0, 1, 2, 3, 4, 5, 6] (by decide) (by decide) (by decide) (by decide)
  refine ⟨by decide +kernel, wf, rfl, .child .root ⟨rfl, .head _⟩, rfl,
    [.text " ", .attr (.text "a") none none], [.text "\r"], [.attr (.text "b") none none],
    ⟨rfl, by decide, rfl, rfl⟩, by decide, by decide⟩

end Templating.Markup
