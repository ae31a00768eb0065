import Templating.TagCache.Artifact

/-!
# What a fingerprint tells apart

The fingerprint of a set of extensions is the digest of a stream of bytes, in which every name, tag
and extension ends in a control character of its own. These characters are not escaped, so the
stream is read back in one way only as long as no name and no tag is taken for two of them: such
extensions are `Separable`.

* `ExtensionSet.stream_eq`: the stream is the UTF-8 form of the letters of the extensions, so that
  reading it back is a matter of characters.
* `Extension.of_letters`: the letters of an extension, whatever stands behind them, give its
  name and its tags.
* `fingerprint_identifies` is the result for sets, and `fingerprint_ambiguous` two sets that have
  one stream because a tag of the second holds the mark that ends a tag.
-/

namespace Templating

/-! ## Letters of a stream -/

/-- The mark behind a name. -/
def nameEnd : Char := '\x1e'

/-- The mark behind a tag. -/
def tagEnd : Char := '\x1f'

/-- The mark behind an extension. -/
def extensionEnd : Char := '\x1d'

/-- Tags with the mark behind each. -/
def tagLetters (tags : List String) : List Char :=
  tags.flatMap fun tag => tag.toList ++ [tagEnd]

/-- The characters of an extension in the stream of its set. -/
def Extension.letters (extension : Extension) : List Char :=
  extension.name.toList ++ nameEnd :: (tagLetters extension.tags ++ [extensionEnd])

/-- UTF-8 loses nothing. -/
theorem flatMap_utf8EncodeChar_inj {left right : List Char}
    (same : left.flatMap String.utf8EncodeChar = right.flatMap String.utf8EncodeChar) :
    left = right := by
  have encoded : left.utf8Encode = right.utf8Encode := congrArg List.toByteArray same
  rw [← String.toByteArray_ofList, ← String.toByteArray_ofList, String.toByteArray_inj] at encoded
  simpa using congrArg String.toList encoded

theorem Extension.stream_eq (extension : Extension) :
    extension.stream = extension.letters.flatMap String.utf8EncodeChar := by
  have tags : extension.tags.flatMap (fun tag => utf8Bytes tag ++ [0x1f]) =
      (tagLetters extension.tags).flatMap String.utf8EncodeChar := by
    rw [tagLetters, List.flatMap_assoc]
    refine congrArg (List.flatMap · extension.tags) (funext fun tag => ?_)
    rw [List.flatMap_append]
    rfl
  rw [stream, letters, List.flatMap_append, List.flatMap_cons, List.flatMap_append, tags,
    List.append_assoc]
  rfl

/-- The stream of a set is the UTF-8 form of the letters of its extensions. -/
theorem ExtensionSet.stream_eq (set : ExtensionSet) :
    set.stream = (set.extensions.flatMap Extension.letters).flatMap String.utf8EncodeChar := by
  rw [stream, List.flatMap_assoc]
  exact congrArg (List.flatMap · set.extensions) (funext Extension.stream_eq)

/-! ## Reading back -/

/-- No mark of the name or of a tag is met before its end: the name does not hold the mark that ends
it, no tag holds the one that ends a tag, and none begins as the end of the extension does. -/
structure Extension.Separable (extension : Extension) : Prop where
  name : nameEnd ∉ extension.name.toList
  tags : ∀ tag ∈ extension.tags, tagEnd ∉ tag.toList ∧ tag.toList.head? ≠ some extensionEnd

instance (extension : Extension) : Decidable extension.Separable :=
  decidable_of_iff (nameEnd ∉ extension.name.toList ∧ ∀ tag ∈ extension.tags,
      tagEnd ∉ tag.toList ∧ tag.toList.head? ≠ some extensionEnd)
    ⟨fun ⟨name, tags⟩ => ⟨name, tags⟩, fun separable => ⟨separable.name, separable.tags⟩⟩

/-- A text ends where its mark stands first. -/
theorem of_append_mark {mark : Char} {left right rest rest' : List Char} (free : mark ∉ left)
    (free' : mark ∉ right) (same : left ++ mark :: rest = right ++ mark :: rest') :
    left = right ∧ rest = rest' := by
  induction left generalizing right with
  | nil =>
    cases right with
    | nil => exact ⟨rfl, (List.cons.inj same).2⟩
    | cons c right =>
      obtain ⟨rfl, -⟩ := List.cons.inj same
      exact absurd List.mem_cons_self free'
  | cons c left ih =>
    cases right with
    | nil =>
      obtain ⟨rfl, -⟩ := List.cons.inj same
      exact absurd List.mem_cons_self free
    | cons c' right =>
      obtain ⟨rfl, later⟩ := List.cons.inj same
      obtain ⟨rfl, rfl⟩ := ih (fun member => free (List.mem_cons_of_mem _ member))
        (fun member => free' (List.mem_cons_of_mem _ member)) later
      exact ⟨rfl, rfl⟩

/-- A tag with its mark does not begin with the end of the extension. -/
theorem append_tagEnd_ne {tag rest rest' : List Char} (begins : tag.head? ≠ some extensionEnd) :
    tag ++ tagEnd :: rest ≠ extensionEnd :: rest' := by
  intro same
  cases tag with
  | nil => exact absurd (List.cons.inj same).1 (by decide)
  | cons c tag =>
    obtain ⟨rfl, -⟩ := List.cons.inj same
    exact begins rfl

/-- Tags are read up to the end of their extension. The induction is on the tags of one side; a list
that ends first would meet a tag that begins as the end does. -/
theorem of_tagLetters {left right : List String} {rest rest' : List Char}
    (separable : ∀ tag ∈ left, tagEnd ∉ tag.toList ∧ tag.toList.head? ≠ some extensionEnd)
    (separable' : ∀ tag ∈ right, tagEnd ∉ tag.toList ∧ tag.toList.head? ≠ some extensionEnd)
    (same : tagLetters left ++ extensionEnd :: rest = tagLetters right ++ extensionEnd :: rest') :
    left = right ∧ rest = rest' := by
  have split (tag : String) (tags : List String) (rest : List Char) :
      tagLetters (tag :: tags) ++ rest = tag.toList ++ tagEnd :: (tagLetters tags ++ rest) := by
    simp [tagLetters]
  induction left generalizing right with
  | nil =>
    cases right with
    | nil => exact ⟨rfl, (List.cons.inj same).2⟩
    | cons tag right =>
      rw [split] at same
      exact absurd same.symm (append_tagEnd_ne (separable' tag List.mem_cons_self).2)
  | cons tag left ih =>
    have free := separable tag List.mem_cons_self
    cases right with
    | nil =>
      rw [split] at same
      exact absurd same (append_tagEnd_ne free.2)
    | cons tag' right =>
      rw [split, split] at same
      obtain ⟨first, same⟩ := of_append_mark free.1 (separable' tag' List.mem_cons_self).1 same
      obtain ⟨rfl, rfl⟩ := ih (fun other member => separable other (List.mem_cons_of_mem _ member))
        (fun other member => separable' other (List.mem_cons_of_mem _ member)) same
      exact ⟨congrArg (· :: left) (String.toList_inj.mp first), rfl⟩

/-- An extension is read up to its end. -/
theorem Extension.of_letters {left right : Extension} {rest rest' : List Char}
    (separable : left.Separable) (separable' : right.Separable)
    (same : left.letters ++ rest = right.letters ++ rest') : left = right ∧ rest = rest' := by
  have split (extension : Extension) (rest : List Char) : extension.letters ++ rest =
      extension.name.toList ++ nameEnd :: (tagLetters extension.tags ++ extensionEnd :: rest) := by
    simp [letters]
  rw [split, split] at same
  obtain ⟨names, same⟩ := of_append_mark separable.name separable'.name same
  obtain ⟨tags, rfl⟩ := of_tagLetters separable.tags separable'.tags same
  cases left
  cases right
  cases String.toList_inj.mp names
  cases tags
  exact ⟨rfl, rfl⟩

theorem Extension.letters_ne_nil (extension : Extension) : extension.letters ≠ [] := by
  simp [letters]

/-- Extensions are read one after the other. -/
theorem eq_of_flatMap_letters {left right : List Extension}
    (separable : ∀ extension ∈ left, extension.Separable)
    (separable' : ∀ extension ∈ right, extension.Separable)
    (same : left.flatMap Extension.letters = right.flatMap Extension.letters) : left = right := by
  induction left generalizing right with
  | nil =>
    cases right with
    | nil => rfl
    | cons extension right =>
      rw [List.flatMap_cons] at same
      exact absurd (List.append_eq_nil_iff.mp same.symm).1 extension.letters_ne_nil
  | cons extension left ih =>
    cases right with
    | nil =>
      rw [List.flatMap_cons] at same
      exact absurd (List.append_eq_nil_iff.mp same).1 extension.letters_ne_nil
    | cons extension' right =>
      rw [List.flatMap_cons, List.flatMap_cons] at same
      obtain ⟨rfl, later⟩ := Extension.of_letters (separable extension List.mem_cons_self)
        (separable' extension' List.mem_cons_self) same
      rw [ih (fun other member => separable other (List.mem_cons_of_mem _ member))
        (fun other member => separable' other (List.mem_cons_of_mem _ member)) later]

/-! ## Fingerprints -/

/-- Every extension of the set is separable. -/
def ExtensionSet.Separable (set : ExtensionSet) : Prop :=
  ∀ extension ∈ set.extensions, extension.Separable

theorem ExtensionSet.eq_of_stream_eq {left right : ExtensionSet} (separable : left.Separable)
    (separable' : right.Separable) (same : left.stream = right.stream) : left = right := by
  rw [stream_eq, stream_eq] at same
  have letters := flatMap_utf8EncodeChar_inj same
  cases left
  cases right
  exact congrArg ExtensionSet.mk (eq_of_flatMap_letters separable separable' letters)

/-- **A fingerprint identifies separable extensions.** Two sets of them that feed the same bytes to
the digest are the same; so, when the digest does not collide on the two, an artifact that was built
from one set and is fresh for the other has the tags of both. -/
theorem fingerprint_identifies {built live : ExtensionSet} (separable : built.Separable)
    (separable' : live.Separable) :
    (built.stream = live.stream → built = live) ∧
      ∀ (now : Moment) (generator : String),
        (Artifact.build now generator built).isFreshFor live = true →
        (built.fingerprint = live.fingerprint → built.stream = live.stream) →
        built = live ∧ (Artifact.build now generator built).tags = live.attributeTags := by
  refine ⟨ExtensionSet.eq_of_stream_eq separable separable', ?_⟩
  intro now generator fresh noCollision
  have prints : built.fingerprint = live.fingerprint := (Artifact.isFreshFor_iff.mp fresh).2
  obtain rfl := ExtensionSet.eq_of_stream_eq separable separable' (noCollision prints)
  exact ⟨rfl, rfl⟩

theorem firstMonth_range : 1 ≤ 1 ∧ 1 ≤ 12 := by decide

def sampleBuildTime : Moment where
  date := ⟨2024, 1, 2, firstMonth_range, by decide⟩
  hour := 3
  minute := 4
  second := 5
  nanos := 0
  hour_range := by decide
  minute_range := by decide
  second_range := by decide
  nanos_range := by decide

/-- Names and tags that hold each other's marks, and an empty tag. -/
def markedSet : ExtensionSet :=
  .ofList [⟨"a\x1f\x1d", ["\x1en:b", "n:\x1d", ""]⟩, ⟨"", []⟩]

/-- The same with the empty tag in the other extension. -/
def movedTagSet : ExtensionSet :=
  .ofList [⟨"a\x1f\x1d", ["\x1en:b", "n:\x1d"]⟩, ⟨"", [""]⟩]

theorem fingerprint_identifies_marked :
    markedSet.Separable ∧ movedTagSet.Separable ∧ markedSet.stream ≠ movedTagSet.stream ∧
      (Artifact.build sampleBuildTime "g" markedSet).isFreshFor markedSet = true ∧
      (Artifact.build sampleBuildTime "g" markedSet).tags = markedSet.attributeTags := by
  have separable : markedSet.Separable := by unfold ExtensionSet.Separable; decide
  have separable' : movedTagSet.Separable := by unfold ExtensionSet.Separable; decide
  have fresh : (Artifact.build sampleBuildTime "g" markedSet).isFreshFor markedSet = true :=
    Artifact.isFreshFor_iff.mpr ⟨rfl, rfl⟩
  refine ⟨separable, separable', fun same => ?_, fresh, ?_⟩
  · exact absurd ((fingerprint_identifies separable separable').1 same) (by decide)
  · exact ((fingerprint_identifies separable separable).2 _ _ fresh fun _ => rfl).2

/-! ## One stream of two sets -/

def splitTags : ExtensionSet :=
  .ofList [⟨"a", ["n:b", "n:c"]⟩]

/-- One tag that holds the mark of a tag. -/
def joinedTags : ExtensionSet :=
  .ofList [⟨"a", ["n:b\x1fn:c"]⟩]

/-- A mark within a tag makes one stream of two sets, so that the artifact of the one is fresh for
the other, which has other tags. -/
theorem fingerprint_ambiguous :
    splitTags.stream = joinedTags.stream ∧ splitTags ≠ joinedTags ∧
      (Artifact.build sampleBuildTime "g" splitTags).isFreshFor joinedTags = true ∧
      (Artifact.build sampleBuildTime "g" splitTags).tags ≠ joinedTags.attributeTags := by
  have same : splitTags.stream = joinedTags.stream := by decide
  have prints : splitTags.fingerprint = joinedTags.fingerprint :=
    congrArg Digest.sha256Hex same
  exact ⟨same, by decide, Artifact.isFreshFor_iff.mpr ⟨by decide, prints⟩, by decide⟩

end Templating
