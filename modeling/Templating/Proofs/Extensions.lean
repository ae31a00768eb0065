import Mathlib.Data.List.Induction
import Templating.Extensions
import Templating.Proofs.Text.Words

/-!
# Extensions that are added one after the other

Of the extensions that are added under one name a set holds the first. Its attribute-tags are those
that the held extensions advertise, each once, and stand in the order in which they first appear.

* `names_ofList`, `mem_extensions_ofList`: what a set holds, by the extensions that were added.
* `ofList_of_known`: an extension whose name is known leaves no trace.
* `attributeTags_prefix_add`: the attribute-tags only grow at their end.
* `first_added_count` puts them together.
-/

namespace Templating

namespace ExtensionSet

open Templating.Text

/-! ## What a set holds -/

theorem ofList_concat (added : List Extension) (last : Extension) :
    ofList (added ++ [last]) = (ofList added).add last := by
  rw [ofList, List.foldl_append]
  rfl

theorem extensions_add (set : ExtensionSet) (extension : Extension) :
    (set.add extension).extensions =
      set.extensions ++ if extension.name ∈ set.names then [] else [extension] := by
  by_cases known : extension.name ∈ set.names
  · rw [add_of_contains (List.contains_iff_mem.mpr known), if_pos known, List.append_nil]
  · rw [add, contains, if_neg (mt List.contains_iff_mem.mp known), if_neg known]

/-- **The names of a set** are the names that were added, each once. -/
theorem names_ofList (added : List Extension) :
    (ofList added).names = (added.map Extension.name).eraseDups := by
  induction added using List.reverseRecOn with
  | nil => rfl
  | append_singleton added last ih =>
    rw [ofList_concat, names, extensions_add, List.map_append, ← names, ih, List.map_append,
      List.map_singleton, eraseDups_concat]
    simp only [List.mem_eraseDups]
    split <;> rfl

theorem mem_names_ofList {added : List Extension} {name : String} :
    name ∈ (ofList added).names ↔ name ∈ added.map Extension.name := by
  rw [names_ofList, List.mem_eraseDups]

/-- The extension that was added first under a name. -/
def firstNamed? (added : List Extension) (name : String) : Option Extension :=
  added.find? fun extension => extension.name = name

theorem firstNamed?_concat (added : List Extension) (last : Extension) (name : String) :
    firstNamed? (added ++ [last]) name =
      (firstNamed? added name).or (if last.name = name then some last else none) := by
  rw [firstNamed?, List.find?_append, List.find?_singleton, firstNamed?]
  simp only [decide_eq_true_eq]

theorem firstNamed?_eq_none_iff {added : List Extension} {name : String} :
    firstNamed? added name = none ↔ name ∉ added.map Extension.name := by
  simp [firstNamed?]

/-- **The extensions of a set** are those that were added first under their names. -/
theorem mem_extensions_ofList (added : List Extension) (extension : Extension) :
    extension ∈ (ofList added).extensions ↔
      firstNamed? added extension.name = some extension := by
  induction added using List.reverseRecOn with
  | nil => exact iff_of_false List.not_mem_nil (Option.some_ne_none extension).symm
  | append_singleton added last ih =>
    rw [ofList_concat, extensions_add, List.mem_append, ih, firstNamed?_concat,
      Option.or_eq_some_iff, firstNamed?_eq_none_iff]
    -- The last one is held under a new name only, and is the first one there then.
    refine or_congr_right ?_
    simp only [mem_names_ofList]
    constructor
    · intro new
      split at new
      · cases new
      · rename_i unknown
        obtain rfl := List.mem_singleton.mp new
        exact ⟨unknown, if_pos rfl⟩
    · rintro ⟨unknown, first⟩
      split at first
      · obtain rfl := Option.some.inj first
        rw [if_neg unknown]
        exact List.mem_singleton_self last
      · cases first

/-- **An extension whose name is known** leaves no trace. -/
theorem ofList_of_known {front : List Extension} {again : Extension}
    (known : again.name ∈ front.map Extension.name) (back : List Extension) :
    ofList (front ++ again :: back) = ofList (front ++ back) := by
  have same : (ofList front).add again = ofList front :=
    add_of_contains (List.contains_iff_mem.mpr (mem_names_ofList.mpr known))
  rw [ofList, ofList, List.foldl_append, List.foldl_append, List.foldl_cons]
  exact congrArg (List.foldl add · back) same

/-! ## Attribute-tags -/

theorem isAttributeTag_iff {tag : String} :
    isAttributeTag tag = true ↔ attributeTagStart.toList <+: tag.toList :=
  List.isPrefixOf_iff_prefix

/-- The implicit tag is listed like one that is advertised in front of all others. -/
theorem attributeTags_eq (set : ExtensionSet) :
    set.attributeTags = ((implicitTag :: set.advertised).filter isAttributeTag).eraseDups := by
  rw [attributeTags, List.filter_cons_of_pos (by decide)]

/-- **One more extension** adds attribute-tags at the end. -/
theorem attributeTags_prefix_add (set : ExtensionSet) (extension : Extension) :
    set.attributeTags <+: (set.add extension).attributeTags := by
  rw [attributeTags, attributeTags, advertised, advertised, extensions_add, List.flatMap_append,
    List.filter_append, ← List.cons_append, List.eraseDups_append]
  exact List.prefix_append _ _

/-- **The first extension of a name counts.** Whatever extensions are added, the set holds those
that were added first under their names, in the order in which the names first appear, and one that
is added later under a known name changes neither the attribute-tags nor the fingerprint. The
attribute-tags are the implicit tag and then all tags of the held extensions, of which those with
the common start are listed, each once and in the order in which they first appear. So no tag is
listed twice, and exactly the implicit tag and the advertised ones with the common start are. If one
more extension is added, the list only grows at its end. -/
theorem first_added_count (added : List Extension) :
    let set := ofList added
    FirstAppearances (added.map Extension.name) set.names ∧
    (∀ extension, extension ∈ set.extensions ↔
      firstNamed? added extension.name = some extension) ∧
    (∀ front again back, added = front ++ again :: back → again.name ∈ front.map Extension.name →
      set.attributeTags = (ofList (front ++ back)).attributeTags ∧
        set.fingerprint = (ofList (front ++ back)).fingerprint) ∧
    FirstAppearances ((implicitTag :: set.extensions.flatMap Extension.tags).filter isAttributeTag)
      set.attributeTags ∧
    set.attributeTags.Nodup ∧
    (∀ tag, tag ∈ set.attributeTags ↔ tag = implicitTag ∨
      (attributeTagStart.toList <+: tag.toList ∧
        ∃ extension ∈ set.extensions, tag ∈ extension.tags)) ∧
    ∀ extension, set.attributeTags <+: (set.add extension).attributeTags := by
  intro set
  have names : FirstAppearances (added.map Extension.name) set.names := by
    rw [names_ofList]
    exact firstAppearances_eraseDups _
  have tags : FirstAppearances
      ((implicitTag :: set.extensions.flatMap Extension.tags).filter isAttributeTag)
      set.attributeTags := by
    rw [attributeTags_eq]
    exact firstAppearances_eraseDups _
  refine ⟨names, mem_extensions_ofList added, ?_, tags, tags.nodup, fun tag => ?_,
    attributeTags_prefix_add set⟩
  · rintro front again back rfl known
    have same : set = ofList (front ++ back) := ofList_of_known known back
    rw [same]
    exact ⟨rfl, rfl⟩
  · rw [mem_attributeTags, advertised, List.mem_flatMap, isAttributeTag_iff, and_comm]

/-- The second of two extensions under one name, between which another one is added. -/
theorem first_added_count_again :
    let forms : Extension := ⟨"forms", ["n:field", "block"]⟩
    let ui : Extension := ⟨"ui", ["n:class", "n:field", "n:if"]⟩
    let again : Extension := ⟨"forms", ["n:other"]⟩
    again.name ∈ [forms, ui].map Extension.name ∧
      (ofList [forms, ui, again]).attributeTags = (ofList [forms, ui]).attributeTags ∧
      (ofList [forms, ui, again]).fingerprint = (ofList [forms, ui]).fingerprint ∧
      (ofList [forms, ui]).attributeTags = ["n:if", "n:field", "n:class"] := by
  intro forms ui again
  have known : again.name ∈ [forms, ui].map Extension.name := by decide
  obtain ⟨-, -, later, -⟩ := first_added_count [forms, ui, again]
  obtain ⟨tags, fingerprint⟩ := later [forms, ui] again [] rfl known
  exact ⟨known, tags, fingerprint, by decide⟩

end ExtensionSet

end Templating
