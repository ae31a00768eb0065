import Templating.Proofs.Source.TagValue
import Templating.Proofs.Text.Runs
import Templating.Proofs.Text.Substitution
import Templating.Source.OpeningTag

/-!
# Reading opening tags

`tagEnd?` searches for the end of a tag as its pattern does: token by token, and with the last arrow
taken apart first when a tag cannot be ended. This is what the single run of `tokensEnd` finds.

* `tokensEnd_eq`: the run and the search find the same end.
* `inlineTags_of_tag`, `inlineTags_of_none`: what a run over a text does at an opening tag and at
  any other place.
* `openingTagLength_collapseBlanks`: **where opening tags are and what they take does not depend on
  what the runs of blanks are**, within them or anywhere behind them.
-/

namespace Templating.Source

open Templating.Text

/-! ## The end of a tag -/

/-- The search for the `>` that ends a tag, in or out of a quote: tokens are read as long as there
are any, and when the tag cannot be ended behind them the last arrow is taken apart. -/
def tagEnd? : Option Char → List Char → Option Nat
  | _, [] => none
  | some quote, c :: rest =>
    (tagEnd? (if c = quote then none else some quote) rest).map (· + 1)
  | none, '-' :: '>' :: rest => ((tagEnd? none rest).map (· + 2)).or (some 2)
  | none, '>' :: _ => some 1
  | none, c :: rest =>
    (tagEnd? (if c = '"' ∨ c = '\'' then some c else none) rest).map (· + 1)

theorem tagEnd?_nil (quote : Option Char) : tagEnd? quote [] = none := by
  cases quote <;> rfl

theorem tagEnd?_quoted (quote c : Char) (rest : List Char) : tagEnd? (some quote) (c :: rest) =
    (tagEnd? (if c = quote then none else some quote) rest).map (· + 1) := rfl

theorem tagEnd?_arrow (rest : List Char) :
    tagEnd? none ('-' :: '>' :: rest) = ((tagEnd? none rest).map (· + 2)).or (some 2) := rfl

theorem tagEnd?_close (rest : List Char) : tagEnd? none ('>' :: rest) = some 1 := rfl

/-- A character that neither ends the tag nor begins an arrow. -/
theorem tagEnd?_other {c : Char} {rest : List Char} (noEnd : c ≠ '>')
    (noArrow : c = '-' → rest.head? ≠ some '>') : tagEnd? none (c :: rest) =
      (tagEnd? (if c = '"' ∨ c = '\'' then some c else none) rest).map (· + 1) := by
  rw [tagEnd?]
  · rintro more rfl rfl
    exact noArrow rfl rfl
  · exact noEnd

/-- A single run with the last arrow in mind finds what the search finds. -/
theorem tokensEnd_eq (quote : Option Char) (taken : Nat) (lastArrow : Option Nat)
    (text : List Char) : tokensEnd quote taken lastArrow text =
      ((tagEnd? quote text).map (taken + ·)).or lastArrow := by
  have later (taken more : Nat) : (taken + more + ·) = (taken + ·) ∘ (· + more) := by
    funext count
    exact (Nat.add_right_comm taken more count).trans (Nat.add_assoc taken count more)
  fun_induction tokensEnd quote taken lastArrow text with
  | case1 quote taken lastArrow => rw [tagEnd?_nil, Option.map_none, Option.none_or]
  | case2 quote taken lastArrow c rest ih =>
    rw [ih, tagEnd?_quoted, Option.map_map, later]
  | case3 taken lastArrow rest ih =>
    rw [ih, tagEnd?_arrow]
    cases tagEnd? none rest with
    | none => rfl
    | some count => exact congrArg some (congrFun (later taken 2) count)
  | case4 taken lastArrow rest =>
    rw [tagEnd?_close]
    rfl
  | case5 taken lastArrow c rest noArrow noEnd ih =>
    have noArrow' : c = '-' → rest.head? ≠ some '>' := fun dash begins => by
      obtain ⟨more, whole⟩ := List.head?_eq_some_iff.mp begins
      exact noArrow more dash whole
    rw [ih, tagEnd?_other noEnd noArrow', Option.map_map, later]

theorem getLast?_append_of_ends {α : Type} {back : List α} {last : α}
    (ends : back.getLast? = some last) (front : List α) :
    (front ++ back).getLast? = some last := by
  rw [List.getLast?_append, ends, Option.some_or]

/-- The search ends behind a `>`. -/
theorem getLast?_take_tagEnd? {quote : Option Char} {text : List Char} {count : Nat}
    (found : tagEnd? quote text = some count) : (text.take count).getLast? = some '>' := by
  fun_induction tagEnd? quote text generalizing count with
  | case1 => cases found
  | case2 quote c rest ih =>
    obtain ⟨inner, found', rfl⟩ := Option.map_eq_some_iff.mp found
    exact getLast?_append_of_ends (ih found') [c]
  | case3 rest ih =>
    cases inner : tagEnd? none rest with
    | none =>
      rw [inner] at found
      obtain rfl := Option.some.inj found
      rfl
    | some count' =>
      rw [inner] at found
      obtain rfl := Option.some.inj found
      exact getLast?_append_of_ends (ih inner) ['-', '>']
  | case4 rest =>
    obtain rfl := Option.some.inj found
    rfl
  | case5 c rest noArrow noEnd ih =>
    obtain ⟨inner, found', rfl⟩ := Option.map_eq_some_iff.mp found
    exact getLast?_append_of_ends (ih found') [c]

/-! ## Tags whose blanks are collapsed -/

/-- One step of the search over collapsed blanks, from `before` to `after` in the text. -/
theorem tagEnd?_collapseAfter_cons {before after : Option Char} {c : Char} {rest : List Char}
    (later : ∀ afterBlank, tagEnd? after (collapseAfter afterBlank rest) =
      (tagEnd? after rest).map fun count => (collapseAfter afterBlank (rest.take count)).length)
    (passes : isBlank c = true → after = before ∧
      ∀ text, tagEnd? before (' ' :: text) = (tagEnd? before text).map (· + 1))
    (step : isBlank c = false → tagEnd? before (c :: collapseBlanks rest) =
      (tagEnd? after (collapseBlanks rest)).map (· + 1)) (afterBlank : Bool) :
    tagEnd? before (collapseAfter afterBlank (c :: rest)) =
      ((tagEnd? after rest).map (· + 1)).map fun count =>
        (collapseAfter afterBlank ((c :: rest).take count)).length := by
  rw [Option.map_map]
  cases blank : isBlank c with
  | true =>
    obtain ⟨rfl, space⟩ := passes blank
    cases afterBlank with
    | true =>
      rw [collapseAfter_cons_of_blank blank, if_pos rfl, later]
      refine congrArg (Option.map · _) (funext fun count => ?_)
      rw [Function.comp_apply, List.take_succ_cons, collapseAfter_cons_of_blank blank, if_pos rfl]
    | false =>
      rw [collapseAfter_cons_of_blank blank, if_neg Bool.false_ne_true, space, later,
        Option.map_map]
      refine congrArg (Option.map · _) (funext fun count => ?_)
      rw [Function.comp_apply, Function.comp_apply, List.take_succ_cons,
        collapseAfter_cons_of_blank blank, if_neg Bool.false_ne_true, List.length_cons]
  | false =>
    rw [collapseAfter_cons_of_dense blank, ← collapseBlanks, step blank, collapseBlanks, later,
      Option.map_map]
    refine congrArg (Option.map · _) (funext fun count => ?_)
    rw [Function.comp_apply, Function.comp_apply, List.take_succ_cons,
      collapseAfter_cons_of_dense blank, List.length_cons]

/-- The search goes over collapsed blanks to the same place. -/
theorem tagEnd?_collapseAfter {quote : Option Char} (dense : ∀ q ∈ quote, isBlank q = false)
    (afterBlank : Bool) (text : List Char) : tagEnd? quote (collapseAfter afterBlank text) =
      (tagEnd? quote text).map fun count =>
        (collapseAfter afterBlank (text.take count)).length := by
  have notBlank {c d : Char} (blank : isBlank c = true) (dense : isBlank d = false) : c ≠ d := by
    rintro rfl
    rw [blank] at dense
    cases dense
  fun_induction tagEnd? quote text generalizing afterBlank with
  | case1 quote =>
    rw [collapseAfter_nil, tagEnd?_nil]
    rfl
  | case2 quote c rest ih =>
    have stays {d : Char} (blank : isBlank d = true) :
        (if d = quote then none else some quote) = some quote :=
      if_neg (notBlank blank (dense quote rfl))
    refine tagEnd?_collapseAfter_cons (ih fun q inside => ?_) (fun blank => ?_) (fun _ => ?_) _
    · split at inside
      · cases inside
      · exact dense q inside
    · refine ⟨stays blank, fun text => ?_⟩
      rw [tagEnd?_quoted, stays (by decide)]
    · exact tagEnd?_quoted quote c _
  | case3 rest ih =>
    have arrow (text : List Char) : collapseAfter afterBlank ('-' :: '>' :: text) =
        '-' :: '>' :: collapseAfter false text := by
      rw [collapseAfter_cons_of_dense (by decide), collapseAfter_cons_of_dense (by decide)]
    rw [arrow, tagEnd?_arrow, ih dense]
    cases tagEnd? none rest with
    | none => exact congrArg some (congrArg List.length (arrow [])).symm
    | some count => exact congrArg some (congrArg List.length (arrow (rest.take count))).symm
  | case4 rest =>
    have close (text : List Char) :
        collapseAfter afterBlank ('>' :: text) = '>' :: collapseAfter false text :=
      collapseAfter_cons_of_dense (by decide) afterBlank text
    rw [close, tagEnd?_close]
    exact congrArg some (congrArg List.length (close [])).symm
  | case5 c rest noArrow noEnd ih =>
    have noArrow' : c = '-' → rest.head? ≠ some '>' := fun dash begins => by
      obtain ⟨more, whole⟩ := List.head?_eq_some_iff.mp begins
      exact noArrow more dash whole
    have quotes : ∀ q ∈ (if c = '"' ∨ c = '\'' then some c else none), isBlank q = false := by
      intro q inside
      split at inside
      · obtain rfl := Option.some.inj inside
        rcases ‹_ ∨ _› with rfl | rfl <;> decide
      · cases inside
    refine tagEnd?_collapseAfter_cons (ih quotes) (fun blank => ?_) (fun _ => ?_) _
    · refine ⟨if_neg ?_, fun text => ?_⟩
      · rintro (rfl | rfl) <;> exact absurd blank (by decide)
      · rw [tagEnd?_other (by decide) (fun dash => absurd dash (by decide)), if_neg (by decide)]
    · -- An arrow is not put together by collapsing.
      exact tagEnd?_other noEnd fun dash => head?_collapseBlanks_ne (by decide) (noArrow' dash)

/-! ## The whole tag -/

/-- How many characters a tag takes from its letter on. -/
def tagBody? : List Char → Option Nat
  | [] => none
  | letter :: named =>
    if letter.isAlpha then
      match named.dropWhile isTagNameChar with
      | [] => none
      | gap :: tokens =>
        if isBlank gap then
          (tagEnd? none tokens).map ((named.takeWhile isTagNameChar).length + 2 + ·)
        else
          none
    else
      none

theorem tagBody?_eq_none {text : List Char}
    (noLetter : ∀ c, c.isAlpha = true → text.head? ≠ some c) : tagBody? text = none := by
  cases text with
  | nil => rfl
  | cons c rest => exact if_neg fun letter => noLetter c letter rfl

/-- Nothing is read where only a name follows. -/
theorem tagBody?_of_named (letter : Char) {name : List Char}
    (named : ∀ c ∈ name, isTagNameChar c = true) : tagBody? (letter :: name) = none := by
  rw [tagBody?, List.dropWhile_eq_nil_iff.mpr named]
  exact ite_self none

/-- A blank has to end the name, and behind it are the tokens. -/
theorem tagBody?_append {letter gap : Char} (isLetter : letter.isAlpha = true) {name : List Char}
    (named : ∀ c ∈ name, isTagNameChar c = true) (stops : isTagNameChar gap = false)
    (tokens : List Char) : tagBody? (letter :: (name ++ gap :: tokens)) =
      if isBlank gap then (tagEnd? none tokens).map (name.length + 2 + ·) else none := by
  rw [tagBody?, if_pos isLetter, takeWhile_of_stop named stops, dropWhile_of_stop named stops]

/-- An opening tag is `<`, a run of blanks and what follows from the letter on. -/
theorem openingTagLength_cons (rest : List Char) : openingTagLength ('<' :: rest) =
    (tagBody? (rest.dropWhile isBlank)).map ((rest.takeWhile isBlank).length + 1 + ·) := by
  rw [openingTagLength]
  simp only
  cases rest.dropWhile isBlank with
  | nil => rfl
  | cons letter named =>
    simp only [tagBody?]
    split
    · cases named.dropWhile isTagNameChar with
      | nil => rfl
      | cons gap tokens =>
        simp only
        split
        · rw [tokensEnd_eq, Option.or_none, Option.map_map, Option.map_map]
          refine congrArg (Option.map · _) (funext fun count => ?_)
          simp only [Function.comp_apply]
          omega
        · rfl
    · rfl

theorem openingTagLength_eq_none {text : List Char} (other : text.head? ≠ some '<') :
    openingTagLength text = none := by
  rw [openingTagLength]
  rintro rest rfl
  exact other rfl

/-! ## Running over a text -/

theorem spansLines_iff (text : List Char) :
    spansLines text = true ↔ '\n' ∈ text ∨ '\r' ∈ text := by
  simp only [spansLines, List.any_eq_true, Bool.or_eq_true, decide_eq_true_eq]
  constructor
  · rintro ⟨c, member, rfl | rfl⟩
    · exact .inl member
    · exact .inr member
  · rintro (member | member)
    · exact ⟨_, member, .inl rfl⟩
    · exact ⟨_, member, .inr rfl⟩

/-- What the rule for opening tags finds at the start of a text, and what is left behind it. -/
theorem openingTagRule_of_tag {c : Char} {rest : List Char} {length : Nat}
    (tag : openingTagLength (c :: rest) = some length) :
    ∃ found, openingTagRule (c :: rest) = some found ∧
      found.text = flattenTag ((c :: rest).take length) ∧
      c :: rest.take found.extra = (c :: rest).take length ∧
      rest.drop found.extra = (c :: rest).drop length := by
  have long := three_le_openingTagLength tag
  obtain ⟨extra, rfl⟩ : ∃ extra, length = extra + 1 := ⟨length - 1, by omega⟩
  exact ⟨⟨extra, _⟩, by rw [openingTagRule, tag]; rfl, rfl, rfl, rfl⟩

/-- An opening tag is written on one line, and the run goes on behind it. -/
theorem inlineTags_of_tag {text : List Char} {length : Nat}
    (tag : openingTagLength text = some length) : inlineTags text =
      flattenTag (text.take length) ++ inlineTags (text.drop length) := by
  cases text with
  | nil => cases tag
  | cons c rest =>
    obtain ⟨found, outcome, written, -, behind⟩ := openingTagRule_of_tag tag
    rw [inlineTags, substitute_cons_of_some outcome, written, behind, inlineTags]

theorem inlineTags_of_none {c : Char} {rest : List Char}
    (noTag : openingTagLength (c :: rest) = none) :
    inlineTags (c :: rest) = c :: inlineTags rest := by
  have outcome : openingTagRule (c :: rest) = none := by rw [openingTagRule, noTag]; rfl
  rw [inlineTags, substitute_cons_of_none outcome, inlineTags]

/-- The tags that are found, from the first one on. -/
theorem found_of_tag {text : List Char} {length : Nat}
    (tag : openingTagLength text = some length) : found openingTagRule text =
      text.take length :: found openingTagRule (text.drop length) := by
  cases text with
  | nil => cases tag
  | cons c rest =>
    obtain ⟨piece, outcome, -, taken, behind⟩ := openingTagRule_of_tag tag
    rw [found_cons_of_some outcome, taken, behind]

theorem found_of_none {c : Char} {rest : List Char}
    (noTag : openingTagLength (c :: rest) = none) :
    found openingTagRule (c :: rest) = found openingTagRule rest := by
  have outcome : openingTagRule (c :: rest) = none := by rw [openingTagRule, noTag]; rfl
  rw [found_cons_of_none outcome]

/-- Induction over a text: past an opening tag, or past a character where none begins. -/
theorem openingTag_induction {motive : List Char → Prop} (nil : motive [])
    (kept : ∀ c rest, openingTagLength (c :: rest) = none → motive rest → motive (c :: rest))
    (tag : ∀ text length, openingTagLength text = some length → motive (text.drop length) →
      motive text) (text : List Char) : motive text := by
  refine substitute_induction openingTagRule nil (fun c rest outcome ih => ?_)
    (fun c rest piece outcome ih => ?_) text
  · exact kept c rest (Option.map_eq_none_iff.mp outcome) ih
  · obtain ⟨length, isTag, -⟩ := Option.map_eq_some_iff.mp outcome
    obtain ⟨piece', outcome', -, -, behind⟩ := openingTagRule_of_tag isTag
    obtain rfl := Option.some.inj (outcome.symm.trans outcome')
    exact tag (c :: rest) length isTag (behind ▸ ih)

/-- A run passes over text in which no tag begins. -/
theorem inlineTags_append {front : List Char} (noTag : '<' ∉ front) (back : List Char) :
    inlineTags (front ++ back) = front ++ inlineTags back := by
  induction front with
  | nil => rfl
  | cons c front ih =>
    have other : (c :: (front ++ back)).head? ≠ some '<' := fun same =>
      noTag (Option.some.inj same ▸ List.mem_cons_self)
    rw [List.cons_append, inlineTags_of_none (openingTagLength_eq_none other),
      ih fun member => noTag (List.mem_cons_of_mem c member), List.cons_append]

/-! ## Blanks and names -/

/-- No blank is a letter or a digit. -/
theorem isAlphanum_eq_false_of_isBlank {c : Char} (blank : isBlank c = true) :
    c.isAlphanum = false := by
  have listed : ∀ n ∈ blankCodes, (Char.ofNat n).isAlphanum = false := by decide
  simpa using listed c.toNat (toNat_mem_blankCodes blank)

theorem isTagNameChar_eq_false_of_isBlank {c : Char} (blank : isBlank c = true) :
    isTagNameChar c = false := by
  have noColon : c ≠ ':' := by
    rintro rfl
    exact absurd blank (by decide)
  rw [isTagNameChar, isAlphanum_eq_false_of_isBlank blank, decide_eq_false noColon]
  rfl

theorem isBlank_eq_false_of_isAlpha {c : Char} (letter : c.isAlpha = true) : isBlank c = false := by
  rw [Bool.eq_false_iff]
  intro blank
  have noLetter := isAlphanum_eq_false_of_isBlank blank
  rw [Char.isAlphanum, letter] at noLetter
  cases noLetter

/-! ## Whole tags whose blanks are collapsed -/

theorem tagBody?_collapseBlanks (text : List Char) : tagBody? (collapseBlanks text) =
    (tagBody? text).map fun count => (collapseBlanks (text.take count)).length := by
  by_cases noLetter : ∀ c, c.isAlpha = true → text.head? ≠ some c
  · have noLetter' (c : Char) (letter : c.isAlpha = true) :
        (collapseBlanks text).head? ≠ some c := by
      refine head?_collapseBlanks_ne ?_ (noLetter c letter)
      rintro rfl
      cases letter
    rw [tagBody?_eq_none noLetter, tagBody?_eq_none noLetter', Option.map_none]
  · push Not at noLetter
    obtain ⟨letter, isLetter, begins⟩ := noLetter
    obtain ⟨named, rfl⟩ := List.head?_eq_some_iff.mp begins
    have dense {name : List Char} (named : ∀ c ∈ name, isTagNameChar c = true) :
        ∀ c ∈ letter :: name, isBlank c = false := by
      intro c member
      rcases List.mem_cons.mp member with rfl | member
      · exact isBlank_eq_false_of_isAlpha isLetter
      · rw [Bool.eq_false_iff]
        intro blank
        have nameChar := named c member
        rw [isTagNameChar_eq_false_of_isBlank blank] at nameChar
        cases nameChar
    rcases exists_stop isTagNameChar named with all | ⟨name, gap, tokens, rfl, named, stops⟩
    · rw [collapseBlanks_of_dense (dense all), tagBody?_of_named letter all, Option.map_none]
    · have kept (rest : List Char) : collapseBlanks (letter :: (name ++ rest)) =
          letter :: (name ++ collapseBlanks rest) :=
        collapseBlanks_dense_append (dense named) rest
      rw [kept, tagBody?_append isLetter named stops]
      cases blank : isBlank gap with
      | true =>
        have space (rest : List Char) :
            collapseBlanks (gap :: rest) = ' ' :: collapseAfter true rest := by
          rw [collapseBlanks, collapseAfter_cons_of_blank blank, if_neg Bool.false_ne_true]
        rw [space, tagBody?_append isLetter named (by decide), if_pos (by decide), if_pos rfl,
          tagEnd?_collapseAfter (fun q inside => absurd inside (Option.not_mem_none q)),
          Option.map_map, Option.map_map]
        refine congrArg (Option.map · _) (funext fun count => ?_)
        have taken : (letter :: (name ++ gap :: tokens)).take (name.length + 2 + count) =
            letter :: (name ++ gap :: tokens.take count) := by
          rw [show name.length + 2 + count = name.length + (count + 1) + 1 by omega,
            List.take_succ_cons, List.take_length_add_append, List.take_succ_cons]
        rw [Function.comp_apply, Function.comp_apply, taken, kept, space]
        simp only [List.length_cons, List.length_append]
        omega
      | false =>
        rw [collapseBlanks, collapseAfter_cons_of_dense blank,
          tagBody?_append isLetter named stops, blank]
        rfl

/-- What a tag takes from its letter on. -/
theorem tagBody?_eq_some {text : List Char} {length : Nat} (body : tagBody? text = some length) :
    ∃ front tokens count, text = front ++ tokens ∧ tagEnd? none tokens = some count ∧
      length = front.length + count := by
  by_cases noLetter : ∀ c, c.isAlpha = true → text.head? ≠ some c
  · rw [tagBody?_eq_none noLetter] at body
    cases body
  · push Not at noLetter
    obtain ⟨letter, isLetter, begins⟩ := noLetter
    obtain ⟨named, rfl⟩ := List.head?_eq_some_iff.mp begins
    rcases exists_stop isTagNameChar named with all | ⟨name, gap, tokens, rfl, named, stops⟩
    · rw [tagBody?_of_named letter all] at body
      cases body
    · rw [tagBody?_append isLetter named stops] at body
      split at body
      · obtain ⟨count, found, rfl⟩ := Option.map_eq_some_iff.mp body
        refine ⟨letter :: (name ++ [gap]), tokens, count, ?_, found, ?_⟩
        · simp
        · simp only [List.length_cons, List.length_append, List.length_nil]
      · cases body

/-- An opening tag ends in `>`. -/
theorem getLast?_take_openingTagLength {text : List Char} {length : Nat}
    (tag : openingTagLength text = some length) : (text.take length).getLast? = some '>' := by
  cases text with
  | nil => cases tag
  | cons c rest =>
    by_cases opens : c = '<'
    · subst opens
      rw [openingTagLength_cons] at tag
      obtain ⟨count, body, rfl⟩ := Option.map_eq_some_iff.mp tag
      obtain ⟨front, tokens, count, behind, found, rfl⟩ := tagBody?_eq_some body
      have whole := List.takeWhile_append_dropWhile (p := isBlank) (l := rest)
      rw [behind] at whole
      generalize rest.takeWhile isBlank = lead at whole
      subst whole
      have taken : ('<' :: (lead ++ (front ++ tokens))).take
          (lead.length + 1 + (front.length + count)) =
            '<' :: (lead ++ front) ++ tokens.take count := by
        rw [Nat.add_right_comm, List.take_succ_cons, List.take_length_add_append,
          List.take_length_add_append, List.cons_append, List.append_assoc]
      rw [taken]
      exact getLast?_append_of_ends (getLast?_take_tagEnd? found) _
    · have other : (c :: rest).head? ≠ some '<' := fun same => opens (Option.some.inj same)
      rw [openingTagLength_eq_none other] at tag
      cases tag

/-- **Reading an opening tag** goes over collapsed blanks to the same place. -/
theorem openingTagLength_collapseBlanks (text : List Char) :
    openingTagLength (collapseBlanks text) =
      (openingTagLength text).map fun count => (collapseBlanks (text.take count)).length := by
  cases text with
  | nil => rfl
  | cons c rest =>
    by_cases opens : c = '<'
    · subst opens
      have first (rest : List Char) :
          collapseBlanks ('<' :: rest) = '<' :: collapseAfter false rest :=
        collapseAfter_cons_of_dense (by decide) false rest
      rw [first, openingTagLength_cons, openingTagLength_cons, dropWhile_isBlank_collapseAfter,
        takeWhile_isBlank_collapseAfter, tagBody?_collapseBlanks, Option.map_map, Option.map_map]
      have whole := List.takeWhile_append_dropWhile (p := isBlank) (l := rest)
      have begins := List.head?_dropWhile_not isBlank rest
      generalize rest.takeWhile isBlank = lead at whole
      generalize rest.dropWhile isBlank = tail at whole begins
      subst whole
      refine congrArg (Option.map · _) (funext fun count => ?_)
      have taken : ('<' :: (lead ++ tail)).take (lead.length + 1 + count) =
          '<' :: (lead ++ tail.take count) := by
        rw [Nat.add_right_comm, List.take_succ_cons, List.take_length_add_append]
      have dense : ∀ d ∈ (tail.take count).head?, isBlank d = false := by
        intro d isFirst
        cases tail with
        | nil => simp at isFirst
        | cons e tail =>
          cases count with
          | zero => cases isFirst
          | succ count =>
            obtain rfl := Option.some.inj isFirst
            simpa using begins
      rw [Function.comp_apply, Function.comp_apply, taken, first,
        collapseAfter_append_of_begins dense, List.length_cons, List.length_append, collapseBlanks]
      omega
    · have other : (c :: rest).head? ≠ some '<' := fun same => opens (Option.some.inj same)
      rw [openingTagLength_eq_none other,
        openingTagLength_eq_none (head?_collapseBlanks_ne (by decide) other), Option.map_none]

end Templating.Source
