import Templating.Proofs.Source.Findings

/-!
# Settled texts

A text is settled for a tag when each of its occurrences is in its normal form. A run that
normalises the values of a tag does not always settle a text: it goes on behind what it has found,
so that it passes over an occurrence that begins there, and what it writes can make an occurrence
of what stood around it, behind the quote that ends a value or where an empty one was taken out.

* `normalizeTag_settled`: nothing else stands in the way.
* `normalizeTag_unsettled`: a text for each of these.
-/

namespace Templating.Source

open Templating.Text

variable {tag text front back value rest : List Char}

/-! ## Settled texts -/

/-- A value as it is written: not empty, without blanks and braces at its ends, and with no blanks
in it but single spaces. -/
structure IsNormalValue (value : List Char) : Prop where
  some : value ≠ []
  begins : ∀ c ∈ value.head?, isPadding c = false
  ends : ∀ c ∈ value.getLast?, isPadding c = false
  spaces : ∀ c ∈ value, isBlank c = true → c = ' '
  single : ¬ [' ', ' '] <:+: value

/-- An occurrence that begins the text is in its normal form. -/
def NormalAt (tag text : List Char) : Prop :=
  ∀ gap inner value rest, IsOccurrence tag gap inner value rest text →
    gap = [] ∧ inner = [] ∧ IsNormalValue value

/-- Wherever an occurrence of the tag stands, it is in its normal form. -/
def Settled (tag text : List Char) : Prop :=
  ∀ front back, text = front ++ back → ReadyForTag front → NormalAt tag back

/-- The same of the places behind the first character. -/
def SettledInside (tag text : List Char) : Prop :=
  ∀ front back, text = front ++ back → front ≠ [] → ReadyForTag front → NormalAt tag back

/-! ## Normal values -/

theorem isBlank_of_isPadding {c : Char} (kept : isPadding c = false) : isBlank c = false := by
  simp only [isPadding, Bool.or_eq_false_iff] at kept
  exact kept.1.1

theorem isNormalValue_normalizeValue (some : normalizeValue value ≠ []) :
    IsNormalValue (normalizeValue value) := by
  have trimmed := isTrimmed_trimBy isPadding value
  have spaces : ∀ c ∈ normalizeValue value, isBlank c = true → c = ' ' :=
    fun c => eq_space_of_mem_collapseAfter
  refine ⟨some, fun c first => ?_, fun c last => ?_, spaces, not_infix_collapseBlanks _⟩
  · cases core : trimBy isPadding value with
    | nil =>
      rw [normalizeValue, core] at first
      cases first
    | cons d rest =>
      have kept := trimmed.begins d (by rw [core]; rfl)
      rw [normalizeValue, core, collapseBlanks,
        collapseAfter_cons_of_dense (isBlank_of_isPadding kept)] at first
      exact Option.some.inj first ▸ kept
  · rcases List.eq_nil_or_concat (trimBy isPadding value) with core | ⟨init, d, core⟩
    · rw [normalizeValue, core] at last
      cases last
    · have kept := trimmed.ends d (by rw [core, List.concat_eq_append]; exact List.getLast?_concat)
      have dense := isBlank_of_isPadding kept
      have begins : ∀ e ∈ [d].head?, isBlank e = false := by
        intro e first
        exact Option.some.inj first ▸ dense
      rw [normalizeValue, core, List.concat_eq_append, collapseBlanks,
        collapseAfter_append_of_begins begins, collapseAfter_cons_of_dense dense,
        collapseAfter_nil, List.getLast?_concat] at last
      exact Option.some.inj last ▸ kept

/-- Collapsing puts no character in but spaces. -/
theorem mem_of_mem_collapseAfter {afterBlank : Bool} {c : Char} (noSpace : c ≠ ' ')
    (member : c ∈ collapseAfter afterBlank text) : c ∈ text := by
  induction text generalizing afterBlank with
  | nil => cases member
  | cons d rest ih =>
    cases blank : isBlank d with
    | true =>
      rw [collapseAfter_cons_of_blank blank] at member
      split at member
      · exact List.mem_cons_of_mem d (ih member)
      · rcases List.mem_cons.mp member with same | later
        · exact absurd same noSpace
        · exact List.mem_cons_of_mem d (ih later)
    | false =>
      rw [collapseAfter_cons_of_dense blank] at member
      rcases List.mem_cons.mp member with rfl | later
      · exact List.mem_cons_self
      · exact List.mem_cons_of_mem d (ih later)

theorem not_mem_normalizeValue (unquoted : '"' ∉ value) : '"' ∉ normalizeValue value := by
  intro member
  obtain ⟨front, back, split, -, -⟩ := (isTrimmed_trimBy isPadding value).around
  have inCore : '"' ∈ trimBy isPadding value := mem_of_mem_collapseAfter (by decide) member
  apply unquoted
  rw [split]
  exact List.mem_append_right front (List.mem_append_left back inCore)

/-! ## Settling -/

section

variable (some : tag ≠ []) (name : ∀ c ∈ tag, isSeparator c = false)

include some name

/-- A text that begins with a separator begins with no occurrence. -/
theorem normalAt_cons {c : Char} (separator : isSeparator c = true) : NormalAt tag (c :: rest) := by
  intro gap inner value back occurrence
  obtain ⟨p, tail, rfl⟩ := List.exists_cons_of_ne_nil some
  have joined := name p List.mem_cons_self
  rw [← (List.cons.inj occurrence.text_eq).1, separator] at joined
  cases joined

/-- An occurrence that begins in a value and is opened by the closing quote of the value. -/
theorem endsInSign_of_closing {inside gap inner value' rest' : List Char}
    (normal : IsNormalValue (front ++ inside)) (unquoted : '"' ∉ front ++ inside)
    (ready : ReadyForTag front)
    (occurrence : IsOccurrence tag gap inner value' rest' (inside ++ '"' :: rest)) :
    EndsInSign tag (front ++ inside) := by
  have opening : inside ++ '"' :: rest =
      (tag ++ (gap ++ '=' :: inner)) ++ '"' :: (value' ++ '"' :: rest') := by
    rw [occurrence.text_eq]
    simp
  have inValue : ∀ c ∈ inside, decide (c ≠ '"') = true := by
    intro c member
    exact decide_eq_true fun same => unquoted (List.mem_append_right front (same ▸ member))
  have inSign : ∀ c ∈ tag ++ (gap ++ '=' :: inner), decide (c ≠ '"') = true := by
    intro c member
    apply decide_eq_true
    rintro rfl
    simp only [List.mem_append, List.mem_cons] at member
    rcases member with inTag | inGap | isSign | inInner
    · cases name _ inTag
    · cases occurrence.gap_blank _ inGap
    · cases isSign
    · cases occurrence.inner_blank _ inInner
  -- The first quote behind the place is the one that closes the value.
  have same : inside = tag ++ (gap ++ '=' :: inner) := by
    have closing : decide ('"' ≠ '"') = false := by decide
    have taken := takeWhile_of_stop inValue closing rest
    rw [opening, takeWhile_of_stop inSign closing] at taken
    exact taken.symm
  subst same
  rcases List.eq_nil_or_concat inner with rfl | ⟨init, c, rfl⟩
  · have regroup : front ++ (tag ++ (gap ++ ['='])) = front ++ (tag ++ gap) ++ ['='] := by simp
    rw [regroup]
    exact endsInSign_concat some name ready occurrence.gap_blank
  · -- A normal value ends in no blank.
    have blank := occurrence.inner_blank c (by simp)
    have regroup : front ++ (tag ++ (gap ++ '=' :: init.concat c)) =
        front ++ (tag ++ (gap ++ '=' :: init)) ++ [c] := by simp
    rw [regroup] at normal
    have kept := normal.ends c List.getLast?_concat
    rw [isBlank_of_isPadding kept] at blank
    cases blank

/-- **What is written is settled**: the occurrence itself, the value in it, and the text behind. -/
theorem settled_written (normal : IsNormalValue value) (unquoted : '"' ∉ value)
    (closed : ¬ EndsInSign tag value) (behind : Settled tag rest) :
    Settled tag (tag ++ ('=' :: '"' :: (value ++ '"' :: rest))) := by
  intro front back split ready
  rcases List.append_eq_append_iff.mp split with ⟨part, rfl, behindTag⟩ | ⟨part, inTag, rfl⟩
  · match part with
    | [] =>
      rw [List.append_nil] at ready
      exact absurd ready (not_readyForTag_append some name [])
    | [c] =>
      obtain ⟨-, rfl⟩ := List.cons.inj behindTag
      exact normalAt_cons some name (by decide)
    | c :: d :: part =>
      have inQuotes : value ++ '"' :: rest = part ++ back :=
        (List.cons.inj (List.cons.inj behindTag).2).2
      have readyInside : ReadyForTag part := by
        have regroup : tag ++ c :: d :: part = (tag ++ [c, d]) ++ part := by simp
        rw [regroup] at ready
        exact ready.of_append _
      rcases List.append_eq_append_iff.mp inQuotes with ⟨more, rfl, closing⟩ | ⟨more, rfl, rfl⟩
      · cases more with
        | nil =>
          obtain rfl : '"' :: rest = back := closing
          exact normalAt_cons some name (by decide)
        | cons e more =>
          exact behind more back (List.cons.inj closing).2
            ((readyInside.of_append _).of_append [e])
      · intro gap inner value' rest' occurrence
        exact absurd (endsInSign_of_closing some name normal unquoted readyInside occurrence) closed
  · cases front with
    | nil =>
      obtain rfl : tag = part := inTag
      intro gap inner value' rest' occurrence
      have written : IsOccurrence tag [] [] value rest
          (tag ++ '=' :: '"' :: (value ++ '"' :: rest)) :=
        ⟨List.forall_mem_nil _, List.forall_mem_nil _, unquoted, rfl⟩
      have same := (readTag_occurrence occurrence).symm.trans (readTag_occurrence written)
      obtain ⟨lengths, rfl⟩ := Prod.mk.inj (Option.some.inj same)
      simp only [List.length_nil] at lengths
      exact ⟨List.eq_nil_of_length_eq_zero (by omega), List.eq_nil_of_length_eq_zero (by omega),
        normal⟩
    | cons c front =>
      have joined : ∀ d ∈ c :: front, isSeparator d = false := fun d member =>
        name d (inTag ▸ List.mem_append_left part member)
      exact absurd ready (not_readyForTag_append (List.cons_ne_nil c front) joined [])

end

theorem settledInside_of_settled {c : Char} (settled : Settled tag rest) :
    SettledInside tag (c :: rest) := by
  intro front back split filled ready
  cases front with
  | nil => exact absurd rfl filled
  | cons d front =>
    obtain ⟨-, rfl⟩ := List.cons.inj split
    exact settled front back rfl (ready.of_append [d])

theorem settledInside_joined {c : Char} (joined : isSeparator c = false)
    (settled : SettledInside tag rest) : SettledInside tag (c :: rest) := by
  intro front back split filled ready
  cases front with
  | nil => exact absurd rfl filled
  | cons d front =>
    obtain ⟨rfl, rfl⟩ := List.cons.inj split
    by_cases alone : front = []
    · subst alone
      have separator := ready c rfl
      rw [joined] at separator
      cases separator
    · exact settled front back rfl alone (ready.of_append [c])

theorem SettledInside.settled (inside : SettledInside tag text) (start : NormalAt tag text) :
    Settled tag text := by
  intro front back split ready
  by_cases nothing : front = []
  · subst nothing
    obtain rfl : text = back := split
    exact start
  · exact inside front back split nothing ready

theorem settled_run (some : tag ≠ []) (name : ∀ c ∈ tag, isSeparator c = false) (seen : List Char) :
    ((∀ finding ∈ findingsFrom tag seen 0 text, finding.Apart tag) →
      SettledInside tag (substitute (separatedTagRule tag) text)) ∧
    (ReadyForTag seen → (∀ finding ∈ findingsBehind tag seen text, finding.Apart tag) →
      Settled tag (normalizeTag tag text)) := by
  induction size : text.length using Nat.strong_induction_on generalizing text seen with
  | _ bound ih =>
    have inside (apart : ∀ finding ∈ findingsFrom tag seen 0 text, finding.Apart tag) :
        SettledInside tag (substitute (separatedTagRule tag) text) := by
      cases text with
      | nil =>
        intro front back split filled
        exact absurd (List.append_eq_nil_iff.mp split.symm).1 filled
      | cons c rest =>
        have behind := ih rest.length (by rw [← size]; exact Nat.lt_succ_self _) (seen ++ [c]) rfl
        cases separates : isSeparator c with
        | true =>
          rw [findingsFrom_separator separates] at apart
          rw [substitute_separator separates]
          exact settledInside_of_settled (behind.2 (readyForTag_concat separates seen) apart)
        | false =>
          rw [findingsFrom_joined separates] at apart
          rw [substitute_joined separates]
          exact settledInside_joined separates (behind.1 apart)
    refine ⟨inside, fun ready apart => ?_⟩
    cases read : readTag tag text with
    | none =>
      rw [findingsBehind_of_none read] at apart
      rw [normalizeTag_of_none read]
      refine (inside apart).settled fun gap inner value rest occurrence => ?_
      exact absurd occurrence (not_isOccurrence_run some name ready read apart)
    | some found =>
      obtain ⟨length, value⟩ := found
      obtain ⟨gap, inner, rest, occurrence, split⟩ := readTag_eq_some read
      rw [findingsBehind_of_some read, split] at apart
      rw [normalizeTag_of_some read, split]
      have here := apart _ List.mem_cons_self
      have later : ∀ finding ∈ findingsFrom tag (seen ++ text.take length) 0 rest,
          finding.Apart tag := fun finding member => apart finding (List.mem_cons_of_mem _ member)
      have readyBehind := occurrence.readyForTag split seen
      have shorter : rest.length < bound := size ▸ occurrence.length_lt
      have behind : Settled tag (substitute (separatedTagRule tag) rest) := by
        refine ((ih rest.length shorter _ rfl).1 later).settled ?_
        intro gap inner value back begins
        exact absurd begins (not_isOccurrence_run some name readyBehind here.alone later)
      rw [writeTag]
      split
      · exact behind
      · rename_i filled
        have normal := isNormalValue_normalizeValue (by simpa using filled)
        have written := settled_written some name normal
          (not_mem_normalizeValue occurrence.value_unquoted) here.closed behind
        simpa using written

/-- **A run settles a text** when each find has nothing to do with what stands around it: wherever
the tag, a sign and a quoted value stand in the text that it gives, they are in their normal form,
also where the run has found nothing. -/
theorem normalizeTag_settled (some : tag ≠ []) (name : ∀ c ∈ tag, isSeparator c = false)
    (apart : ∀ finding ∈ findings tag text, finding.Apart tag) :
    Settled tag (normalizeTag tag text) :=
  (settled_run some name []).2 readyForTag_nil apart

/-- Finds in the middle of what looks like other occurrences. -/
theorem normalizeTag_settled_sample :
    Settled "n:if".toList (normalizeTag "n:if".toList
      ("n:if =\n\" \x7b $a\t\n== n:if = 1 \x7d\" <p an:if=' n:if=\"\x7b\x7d\" " ++
        "n:if =\" b \"' $n:if=>").toList) := by
  have name : ∀ c ∈ "n:if".toList, isSeparator c = false :=
    isSeparator_eq_false_of_all (by decide)
  exact normalizeTag_settled (by decide) name (by decide +kernel)

/-- An occurrence with blanks in front of its sign, or with a blank or a brace in front of its
value, is not settled. -/
theorem not_settled (spelling : Spelling) (rest : List Char) (ready : ReadyForTag front)
    (loose : spelling.gap ≠ [] ∨ ∃ c ∈ spelling.value.head?, isPadding c = true) :
    ¬ Settled tag (front ++ (spelling.written tag ++ rest)) := by
  intro settled
  have occurrence : IsOccurrence tag spelling.gap spelling.inner spelling.value rest
      (spelling.written tag ++ rest) :=
    ⟨spelling.gap_blank, spelling.inner_blank, spelling.value_unquoted, by simp [Spelling.written]⟩
  obtain ⟨noGap, -, normal⟩ := settled front _ rfl ready _ _ _ _ occurrence
  rcases loose with gap | ⟨c, first, padding⟩
  · exact gap noGap
  · rw [normal.begins c first] at padding
    cases padding

/-- **A run leaves some texts unsettled**: where an occurrence begins directly behind another one,
where a value ends in the tag and its sign, and where an empty occurrence stands between the two. -/
theorem normalizeTag_unsettled :
    "n:if".toList ≠ [] ∧ (∀ c ∈ "n:if".toList, isSeparator c = false) ∧
    ¬ Settled "n:if".toList
      (normalizeTag "n:if".toList "n:if=\"a\"n:if=\"\x7b b \x7d\"".toList) ∧
    ¬ Settled "n:if".toList (normalizeTag "n:if".toList "n:if=\"n:if=\" x\"".toList) ∧
    ¬ Settled "n:if".toList (normalizeTag "n:if".toList "n:if n:if=\"\" =\" x\"".toList) := by
  have name : ∀ c ∈ "n:if".toList, isSeparator c = false :=
    isSeparator_eq_false_of_all (by decide)
  have noBlank : ∀ c ∈ ([] : List Char), isBlank c = true := List.forall_mem_nil _
  refine ⟨by decide, name, ?_, ?_, ?_⟩
  · have adjacent : ReadyForTag "n:if=\"a\"".toList := by decide
    exact not_settled ⟨[], [], "\x7b b \x7d".toList, noBlank, noBlank, by decide⟩ [] adjacent
      (.inr ⟨_, rfl, by decide⟩)
  · have inValue : ReadyForTag "n:if=\"".toList := by decide
    exact not_settled ⟨[], [], " x".toList, noBlank, noBlank, by decide⟩ [] inValue
      (.inr ⟨_, rfl, by decide⟩)
  · have joined : ReadyForTag [] := readyForTag_nil
    have blank : ∀ c ∈ [' ', ' '], isBlank c = true := List.all_eq_true.mp rfl
    exact not_settled ⟨[' ', ' '], [], " x".toList, blank, noBlank, by decide⟩ [] joined
      (.inl (List.cons_ne_nil ' ' [' ']))

end Templating.Source
