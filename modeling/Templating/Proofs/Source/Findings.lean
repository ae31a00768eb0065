import Templating.Proofs.Source.Separated

/-!
# What a run finds

A run that normalises the values of a tag goes over a text once. It keeps the characters of names as
they are, comes to the text behind a separator as to the start of a text, and goes on behind each
occurrence that it finds. So what begins an occurrence in the text that it gives began one before,
unless a find was taken out from between its parts.

* `Finding.Apart`: a find has nothing to do with what stands around it.
* `exists_of_run_name`, `exists_of_run_separators`: where the characters come from that a run gives.
* `not_isOccurrence_run`: it puts no occurrence together when all finds are apart.
-/

namespace Templating.Source

open Templating.Text

variable {tag text front back value rest : List Char}

/-- Behind this text an occurrence can begin: it is empty, or it ends in a separator. -/
def ReadyForTag (front : List Char) : Prop :=
  ∀ last ∈ front.getLast?, isSeparator last = true

instance (front : List Char) : Decidable (ReadyForTag front) :=
  decidable_of_iff (front.getLast?.all isSeparator = true) (Option.all_eq_true _ _)

/-! ## Finds -/

/-- A find of a run: the text in front of the occurrence, its value, and the text behind it. -/
structure Finding where
  front : List Char
  value : List Char
  rest : List Char
  deriving DecidableEq, Repr

/-- What a run finds behind the text `seen`, of which it has taken the next `skip` characters. -/
def findingsFrom (tag seen : List Char) : Nat → List Char → List Finding
  | _, [] => []
  | skip + 1, c :: rest => findingsFrom tag (seen ++ [c]) skip rest
  | 0, c :: rest =>
    if isSeparator c then
      match readTag tag rest with
      | some (length, value) =>
        ⟨seen ++ [c], value, rest.drop length⟩ :: findingsFrom tag (seen ++ [c]) length rest
      | none => findingsFrom tag (seen ++ [c]) 0 rest
    else
      findingsFrom tag (seen ++ [c]) 0 rest

/-- What a run finds behind the text `seen` when an occurrence can begin there. -/
def findingsBehind (tag seen text : List Char) : List Finding :=
  match readTag tag text with
  | some (length, value) => ⟨seen, value, text.drop length⟩ :: findingsFrom tag seen length text
  | none => findingsFrom tag seen 0 text

/-- What a run over the text finds. -/
def findings (tag text : List Char) : List Finding :=
  findingsBehind tag [] text

/-- The text ends in the tag, and the tag can begin an occurrence. -/
def EndsInTag (tag text : List Char) : Prop :=
  tag <:+ text ∧ ReadyForTag (text.take (text.length - tag.length))

/-- The text ends in `=`, with the tag and blanks in front of it. -/
def EndsInSign (tag text : List Char) : Prop :=
  text.getLast? = some '=' ∧ EndsInTag tag (dropTail isBlank text.dropLast)

instance (tag text : List Char) : Decidable (EndsInTag tag text) :=
  inferInstanceAs (Decidable (_ ∧ _))

instance (tag text : List Char) : Decidable (EndsInSign tag text) :=
  inferInstanceAs (Decidable (_ ∧ _))

/-- The find has nothing to do with what stands around it. No occurrence begins where it ends; the
value that is written does not end in the tag and its sign, which the closing quote would open; and
if it is taken out, it does not stand between the tag and its sign, or behind both. -/
structure Finding.Apart (tag : List Char) (finding : Finding) : Prop where
  alone : readTag tag finding.rest = none
  closed : ¬ EndsInSign tag (normalizeValue finding.value)
  parted : normalizeValue finding.value = [] →
    ¬ EndsInTag tag (dropTail isBlank finding.front) ∧
      ¬ EndsInSign tag (dropTail isBlank finding.front)

instance (tag : List Char) (finding : Finding) : Decidable (finding.Apart tag) :=
  decidable_of_iff (readTag tag finding.rest = none ∧
      ¬ EndsInSign tag (normalizeValue finding.value) ∧
      (normalizeValue finding.value = [] →
        ¬ EndsInTag tag (dropTail isBlank finding.front) ∧
          ¬ EndsInSign tag (dropTail isBlank finding.front)))
    ⟨fun apart => ⟨apart.1, apart.2.1, apart.2.2⟩,
      fun apart => ⟨apart.alone, apart.closed, apart.parted⟩⟩

/-! ## Running over the text -/

theorem findingsFrom_eq_drop (seen : List Char) (skip : Nat) (text : List Char) :
    findingsFrom tag seen skip text =
      findingsFrom tag (seen ++ text.take skip) 0 (text.drop skip) := by
  induction skip generalizing seen text with
  | zero => rw [List.take_zero, List.append_nil, List.drop_zero]
  | succ skip ih =>
    cases text with
    | nil => rfl
    | cons c rest =>
      rw [findingsFrom, ih, List.take_succ_cons, List.drop_succ_cons, List.append_assoc]
      rfl

theorem findingsFrom_separator {c : Char} (separator : isSeparator c = true)
    (seen rest : List Char) :
    findingsFrom tag seen 0 (c :: rest) = findingsBehind tag (seen ++ [c]) rest := by
  rw [findingsFrom, if_pos separator]
  rfl

theorem findingsFrom_joined {c : Char} (joined : isSeparator c = false) (seen rest : List Char) :
    findingsFrom tag seen 0 (c :: rest) = findingsFrom tag (seen ++ [c]) 0 rest := by
  rw [findingsFrom, if_neg (by simp [joined])]

theorem findingsBehind_of_none (nothing : readTag tag text = none) (seen : List Char) :
    findingsBehind tag seen text = findingsFrom tag seen 0 text := by
  rw [findingsBehind, nothing]

theorem findingsBehind_of_some {length : Nat} (read : readTag tag text = some (length, value))
    (seen : List Char) :
    findingsBehind tag seen text = ⟨seen, value, text.drop length⟩ ::
      findingsFrom tag (seen ++ text.take length) 0 (text.drop length) := by
  rw [findingsBehind, read, ← findingsFrom_eq_drop]

/-- A run takes in no character of a name: there a text is what the run has made of it. -/
theorem exists_of_run_name (name : ∀ c ∈ front, isSeparator c = false)
    (run : substitute (separatedTagRule tag) text = front ++ back) (seen : List Char) :
    ∃ rest, text = front ++ rest ∧ back = substitute (separatedTagRule tag) rest ∧
      findingsFrom tag seen 0 text = findingsFrom tag (seen ++ front) 0 rest := by
  induction front generalizing text seen with
  | nil => exact ⟨text, rfl, run.symm, by rw [List.append_nil]⟩
  | cons c front ih =>
    obtain ⟨text, rfl⟩ := eq_cons_of_substitute_eq_cons run
    have joined := name c List.mem_cons_self
    rw [substitute_joined joined] at run
    obtain ⟨rest, rfl, same, finds⟩ := ih (fun d member => name d (List.mem_cons_of_mem c member))
      (List.cons.inj run).2 (seen ++ [c])
    refine ⟨rest, rfl, same, ?_⟩
    rw [findingsFrom_joined joined, finds, List.append_assoc]
    rfl

/-- Where a run gives separators, the text has them as well, unless an occurrence was taken out
between two of them. -/
theorem exists_of_run_separators (some : tag ≠ []) (name : ∀ c ∈ tag, isSeparator c = false)
    (filled : front ≠ []) (separators : ∀ c ∈ front, isSeparator c = true)
    (run : substitute (separatedTagRule tag) text = front ++ back) (seen : List Char) :
    (∃ rest, text = front ++ rest ∧ back = normalizeTag tag rest) ∨
      ∃ before behind finding, front = before ++ behind ∧ behind ≠ [] ∧
        finding ∈ findingsFrom tag seen 0 text ∧ finding.front = seen ++ before ∧
        normalizeValue finding.value = [] := by
  induction front generalizing text seen with
  | nil => exact absurd rfl filled
  | cons c front ih =>
    obtain ⟨text, rfl⟩ := eq_cons_of_substitute_eq_cons run
    have separator := separators c List.mem_cons_self
    rw [substitute_separator separator] at run
    have behindFirst : normalizeTag tag text = front ++ back := (List.cons.inj run).2
    by_cases last : front = []
    · subst last
      exact .inl ⟨text, rfl, behindFirst.symm⟩
    cases read : readTag tag text with
    | none =>
      rw [normalizeTag_of_none read] at behindFirst
      have finds : findingsFrom tag seen 0 (c :: text) = findingsFrom tag (seen ++ [c]) 0 text := by
        rw [findingsFrom_separator separator, findingsBehind_of_none read]
      rcases ih last (fun d member => separators d (List.mem_cons_of_mem c member)) behindFirst
        (seen ++ [c]) with ⟨rest, rfl, same⟩ |
        ⟨before, behind, finding, rfl, more, member, stands, removed⟩
      · exact .inl ⟨rest, rfl, same⟩
      · refine .inr ⟨c :: before, behind, finding, rfl, more, finds ▸ member, ?_, removed⟩
        rw [stands, List.append_assoc]
        rfl
    | some found =>
      obtain ⟨length, value⟩ := found
      refine .inr ⟨[c], front, ⟨seen ++ [c], value, text.drop length⟩, rfl, last, ?_, rfl, ?_⟩
      · rw [findingsFrom_separator separator, findingsBehind_of_some read]
        exact List.mem_cons_self
      · -- What is written for an occurrence begins with no separator.
        by_contra written
        obtain ⟨p, tail, rfl⟩ := List.exists_cons_of_ne_nil some
        obtain ⟨d, front, rfl⟩ := List.exists_cons_of_ne_nil last
        have second := separators d (List.mem_cons_of_mem c List.mem_cons_self)
        rw [normalizeTag_of_some read, writeTag, if_neg (by simpa using written)] at behindFirst
        rw [← (List.cons.inj behindFirst).1, name p List.mem_cons_self] at second
        cases second

/-- A run puts no quotes into a text without any. -/
theorem mem_of_mem_normalizeTag (quoted : '"' ∈ normalizeTag tag text) : '"' ∈ text := by
  by_contra unquoted
  have nothing (tail : List Char) (part : tail <:+ text) : readTag tag tail = none := by
    cases read : readTag tag tail with
    | none => rfl
    | some found =>
      obtain ⟨gap, inner, rest, occurrence, -⟩ := readTag_eq_some read
      refine absurd (part.subset ?_) unquoted
      rw [occurrence.text_eq]
      simp
  have kept : substitute (separatedTagRule tag) text = text := by
    refine substitute_eq_self fun tail part => ?_
    cases tail with
    | nil => rfl
    | cons c rest =>
      rw [separatedTagRule, nothing rest ((List.suffix_cons c rest).trans part)]
      exact ite_self none
  rw [normalizeTag_of_none (nothing text (List.suffix_refl text)), kept] at quoted
  exact unquoted quoted

/-! ## Where an occurrence can begin -/

theorem isSeparator_eq_false_of_all (passes : (tag.all fun c => !isSeparator c) = true) :
    ∀ c ∈ tag, isSeparator c = false := by
  simpa using passes

theorem isSeparator_of_isBlank {c : Char} (blank : isBlank c = true) : isSeparator c = true := by
  have other {sign : Char} (dense : isBlank sign = false) : decide (c = sign) = false := by
    apply decide_eq_false
    rintro rfl
    rw [blank] at dense
    cases dense
  rw [isSeparator, isWord_eq_false_of_isBlank blank, other (by decide), other (by decide),
    other (by decide)]
  rfl

theorem readyForTag_nil : ReadyForTag [] := by
  intro last ends
  cases ends

theorem readyForTag_concat {c : Char} (separator : isSeparator c = true) (front : List Char) :
    ReadyForTag (front ++ [c]) := by
  intro last ends
  rw [List.getLast?_concat] at ends
  exact Option.some.inj ends ▸ separator

theorem ReadyForTag.of_append (front : List Char) (ready : ReadyForTag (front ++ back)) :
    ReadyForTag back := by
  intro last ends
  apply ready last
  rw [List.getLast?_append, ends]
  rfl

/-- Behind an occurrence another one can begin. -/
theorem IsOccurrence.readyForTag {gap inner : List Char} {length : Nat}
    (occurrence : IsOccurrence tag gap inner value rest text) (split : text.drop length = rest)
    (seen : List Char) : ReadyForTag (seen ++ text.take length) := by
  have whole : text = tag ++ (gap ++ '=' :: (inner ++ '"' :: value)) ++ ['"'] ++ rest := by
    rw [occurrence.text_eq]
    simp
  have taken : text.take length ++ rest = text := split ▸ List.take_append_drop length text
  rw [List.append_cancel_right (taken.trans whole), ← List.append_assoc]
  exact readyForTag_concat (by decide) _

section

variable (some : tag ≠ []) (name : ∀ c ∈ tag, isSeparator c = false)

include some name

/-- No occurrence begins behind a name. -/
theorem not_readyForTag_append (front : List Char) : ¬ ReadyForTag (front ++ tag) := by
  intro ready
  have last := List.getLast?_eq_some_getLast some
  have separator := ready.of_append front _ last
  rw [name _ (List.mem_of_getLast? last)] at separator
  cases separator

theorem endsInTag_dropTail (ready : ReadyForTag front) {gap : List Char}
    (blank : ∀ c ∈ gap, isBlank c = true) :
    EndsInTag tag (dropTail isBlank (front ++ (tag ++ gap))) := by
  have last := List.getLast?_eq_some_getLast some
  have ends : (front ++ tag).getLast? = .some (tag.getLast some) := by
    rw [List.getLast?_append, last]
    rfl
  have dense : isBlank (tag.getLast some) = false := by
    refine Bool.eq_false_iff.mpr fun blank => ?_
    have joined := name _ (List.mem_of_getLast? last)
    rw [isSeparator_of_isBlank blank] at joined
    cases joined
  rw [← List.append_assoc, dropTail_append ends dense, dropTail_eq_rdropWhile,
    List.rdropWhile_eq_nil_iff.mpr blank, List.append_nil]
  refine ⟨List.suffix_append front tag, ?_⟩
  rwa [List.length_append, Nat.add_sub_cancel, List.take_left]

theorem endsInSign_concat (ready : ReadyForTag front) {gap : List Char}
    (blank : ∀ c ∈ gap, isBlank c = true) : EndsInSign tag (front ++ (tag ++ gap) ++ ['=']) := by
  refine ⟨List.getLast?_concat, ?_⟩
  rw [List.dropLast_concat]
  exact endsInTag_dropTail some name ready blank

/-- A beginning of what stands between a tag and the quote behind its sign ends in the tag or in the
sign, blanks aside. -/
theorem endsIn_of_prefix (ready : ReadyForTag front) {gap inner before : List Char}
    (gapBlank : ∀ c ∈ gap, isBlank c = true) (innerBlank : ∀ c ∈ inner, isBlank c = true)
    (starts : before <+: gap ++ '=' :: inner) :
    EndsInTag tag (dropTail isBlank (front ++ (tag ++ before))) ∨
      EndsInSign tag (dropTail isBlank (front ++ (tag ++ before))) := by
  obtain ⟨behind, split⟩ := starts
  rcases List.append_eq_append_iff.mp split with ⟨part, rfl, -⟩ | ⟨part, rfl, inSign⟩
  · exact .inl (endsInTag_dropTail some name ready fun c member =>
      gapBlank c (List.mem_append_left part member))
  · cases part with
    | nil =>
      rw [List.append_nil]
      exact .inl (endsInTag_dropTail some name ready gapBlank)
    | cons c part =>
      obtain ⟨rfl, rfl⟩ := List.cons.inj inSign
      have regroup : front ++ (tag ++ (gap ++ '=' :: part)) =
          (front ++ (tag ++ gap) ++ ['=']) ++ part := by simp
      have partBlank : ∀ c ∈ part, isBlank c = true := fun c member =>
        innerBlank c (List.mem_append_left behind member)
      rw [regroup, dropTail_append List.getLast?_concat (by decide), dropTail_eq_rdropWhile,
        List.rdropWhile_eq_nil_iff.mpr partBlank, List.append_nil]
      exact .inr (endsInSign_concat some name ready gapBlank)

/-- **No occurrence begins a run** in a text that does not begin with one, when no find is taken out
between the parts of an occurrence. -/
theorem not_isOccurrence_run {seen : List Char} (ready : ReadyForTag seen)
    (nothing : readTag tag text = none)
    (apart : ∀ finding ∈ findingsFrom tag seen 0 text, finding.Apart tag)
    {gap inner : List Char} :
    ¬ IsOccurrence tag gap inner value rest (substitute (separatedTagRule tag) text) := by
  intro occurrence
  have gapBlank := occurrence.gap_blank
  have innerBlank := occurrence.inner_blank
  obtain ⟨behindTag, rfl, run, finds⟩ := exists_of_run_name name occurrence.text_eq seen
  have regroup : gap ++ '=' :: (inner ++ '"' :: (value ++ '"' :: rest)) =
      (gap ++ '=' :: inner ++ ['"']) ++ (value ++ '"' :: rest) := by simp
  have separators : ∀ c ∈ gap ++ '=' :: inner ++ ['"'], isSeparator c = true := by
    intro c member
    rcases List.mem_append.mp member with member | member
    · rcases List.mem_append.mp member with member | member
      · exact isSeparator_of_isBlank (gapBlank c member)
      · rcases List.mem_cons.mp member with rfl | member
        · decide
        · exact isSeparator_of_isBlank (innerBlank c member)
    · rw [List.mem_singleton.mp member]
      decide
  rw [regroup] at run
  rcases exists_of_run_separators some name (by simp) separators run.symm (seen ++ tag) with
    ⟨quoted, rfl, same⟩ | ⟨before, behind, finding, split, more, member, stands, removed⟩
  · -- The text has the parts of an occurrence, and a quote that closes its value.
    have written : '"' ∈ normalizeTag tag quoted := by
      rw [← same]
      simp
    have closed : '"' ∈ quoted := mem_of_mem_normalizeTag written
    obtain ⟨inside, back, rfl, unquoted⟩ := List.eq_append_cons_of_mem closed
    have before : IsOccurrence tag gap inner inside back
        (tag ++ (gap ++ '=' :: inner ++ ['"'] ++ (inside ++ '"' :: back))) :=
      ⟨gapBlank, innerBlank, unquoted, by simp⟩
    rw [readTag_occurrence before] at nothing
    cases nothing
  · have spread := apart finding (finds ▸ member)
    have starts : before <+: gap ++ '=' :: inner := by
      rcases List.prefix_concat_iff.mp ⟨behind, split.symm⟩ with whole | starts
      · rw [whole] at split
        exact absurd (List.append_right_eq_self.mp split.symm) more
      · exact starts
    have around := endsIn_of_prefix some name ready gapBlank innerBlank starts
    rw [← List.append_assoc, ← stands] at around
    exact around.elim (spread.parted removed).1 (spread.parted removed).2

end

end Templating.Source
