import Mathlib.Data.List.DropRight
import Templating.Proofs.Path.NormalForm

/-!
# Names beside the referring template

A name that one template refers to another by is read behind the path of the first and a step up.
The step up leaves the last name that this path means, whatever slashes and steps the path is
written with, so the name goes where the last segment of the normal form was.

* `Route.text_of_segments`: the text of a route up to its last segment does not
  depend on this segment.
* `exists_last_name`: a normal form that ends in a segment other than `..` is of a route
  that ends in a name.
* `StandsAlone.ofText_beside`: what the path, the step up and the name mean together.
* `referredName_beside` puts them together.
-/

namespace Templating.Path

/-! ## Last segments -/

/-- Whether a path starts at the root. -/
def isAbsolute (path : String) : Bool :=
  path.toList.head?.any isSlash

/-- What stands behind the last slash of a path. -/
def lastSegment (path : String) : String :=
  String.ofList (path.toList.rtakeWhile (!isSlash ·))

/-- The path with a name in place of its last segment. -/
def withLastSegment (path name : String) : String :=
  String.ofList (path.toList.rdropWhile (!isSlash ·)) ++ name

/-- Taking from the right ends where it first fails. -/
theorem rtakeWhile_append {α : Type} {p : α → Bool} {front back : List α}
    (stops : ∀ item ∈ front.getLast?, p item = false) (taken : ∀ item ∈ back, p item = true) :
    (front ++ back).rtakeWhile p = back ∧ (front ++ back).rdropWhile p = front := by
  induction back using List.reverseRecOn with
  | nil =>
    rw [List.append_nil, List.rtakeWhile_eq_nil_iff, List.rdropWhile_eq_self_iff]
    have last (filled : front ≠ []) : ¬ p (front.getLast filled) = true :=
      Bool.eq_false_iff.mp (stops _ (List.getLast?_eq_getLast_of_ne_nil filled))
    exact ⟨last, last⟩
  | append_singleton back item ih =>
    obtain ⟨took, left⟩ := ih fun other member => taken other (List.mem_append_left _ member)
    have more := taken item (List.mem_append_right _ List.mem_cons_self)
    rw [← List.append_assoc, List.rtakeWhile_concat_pos _ _ _ more,
      List.rdropWhile_concat_pos _ _ _ more, took, left]
    exact ⟨rfl, rfl⟩

theorem intercalate_concat (segments : List (List Char)) (last : List Char) :
    ['/'].intercalate (segments ++ [last]) = segments.flatMap (· ++ ['/']) ++ last := by
  induction segments with
  | nil => exact List.intercalate_singleton
  | cons segment rest ih =>
    obtain ⟨next, others, shape⟩ := List.exists_cons_of_ne_nil (List.concat_ne_nil last rest)
    rw [List.cons_append, shape, List.intercalate_cons_cons, ← shape, ih, List.flatMap_cons]
    simp only [List.append_assoc]

namespace Route

/-- The text that a route is written with up to the last of its segments. -/
def front (absolute : Bool) (segments : List (List Char)) : List Char :=
  (if absolute then ['/'] else []) ++ segments.flatMap (· ++ ['/'])

theorem text_of_segments {route : Route} {segments : List (List Char)} {last : List Char}
    (ends : route.segments = segments ++ [last]) :
    route.text = front route.absolute segments ++ last := by
  rw [text, ends, intercalate_concat, front, List.append_assoc]

/-- A slash stands in front of the last segment, or nothing. -/
theorem isSlash_getLast?_front (absolute : Bool) (segments : List (List Char)) :
    ∀ c ∈ (front absolute segments).getLast?, (!isSlash c) = false := by
  intro c last
  rcases List.eq_nil_or_concat' segments with rfl | ⟨segments, segment, rfl⟩
  · cases absolute with
    | true =>
      obtain rfl : '/' = c := Option.some.inj last
      rfl
    | false => cases last
  · rw [front, List.flatMap_append, List.flatMap_singleton, ← List.append_assoc,
      ← List.append_assoc, List.getLast?_concat] at last
    obtain rfl : '/' = c := Option.some.inj last
    rfl

end Route

section

variable {path : String} {segments : List (List Char)} {last : List Char}
  (ends : (Route.ofText path.toList).segments = segments ++ [last])

include ends

theorem splits_normalize : (normalize path).toList =
    Route.front (Route.ofText path.toList).absolute segments ++ last := by
  rw [toList_normalize, Route.text_of_segments ends]

theorem clear_of_segments : ∀ c ∈ last, (!isSlash c) = true := by
  have member : last ∈ (Route.ofText path.toList).segments :=
    ends ▸ List.mem_append_right _ List.mem_cons_self
  intro c here
  rw [((plain_ofText path.toList).clear_segments last member).2 c here]
  rfl

theorem lastSegment_normalize : lastSegment (normalize path) = String.ofList last := by
  rw [lastSegment, splits_normalize ends,
    (rtakeWhile_append (Route.isSlash_getLast?_front _ _) (clear_of_segments ends)).1]

theorem withLastSegment_normalize (name : String) : withLastSegment (normalize path) name =
    String.ofList (Route.front (Route.ofText path.toList).absolute segments ++ name.toList) := by
  rw [withLastSegment, splits_normalize ends,
    (rtakeWhile_append (Route.isSlash_getLast?_front _ _) (clear_of_segments ends)).2,
    String.ofList_append, String.ofList_toList]

end

/-- A normal form that ends in a segment other than `..` is of a route that ends in a name. -/
theorem exists_last_name {path : String} (filled : lastSegment (normalize path) ≠ "")
    (notUp : lastSegment (normalize path) ≠ "..") :
    ∃ names last, (Route.ofText path.toList).names = names ++ [last] := by
  rcases List.eq_nil_or_concat' (Route.ofText path.toList).names with none | ends
  · have steps : (Route.ofText path.toList).segments =
        List.replicate (Route.ofText path.toList).ups stepUp := by
      rw [Route.segments, none, List.append_nil]
      rfl
    cases ups : (Route.ofText path.toList).ups with
    | zero =>
      -- Nothing but the root is left, or nothing at all.
      rw [ups, List.replicate_zero] at steps
      refine absurd ?_ filled
      rw [lastSegment, toList_normalize, Route.text, steps]
      cases (Route.ofText path.toList).absolute <;> rfl
    | succ ups =>
      rw [ups, List.replicate_succ'] at steps
      exact absurd (lastSegment_normalize steps) notUp
  · exact ends

/-! ## Names that stand beside a template -/

theorem isSlash_eq_false_of_any {segment : List Char} (clear : segment.any isSlash = false) :
    ∀ c ∈ segment, isSlash c = false := by
  intro c member
  exact Bool.eq_false_iff.mpr (List.any_eq_false.mp clear c member)

/-- A name that is a single segment, does not mean a folder and has no scheme. -/
structure StandsAlone (name : String) : Prop where
  filled : name ≠ ""
  notHere : name ≠ "."
  notUp : name ≠ ".."
  noSlash : name.toList.any isSlash = false
  noScheme : hasScheme name = false

namespace StandsAlone

variable {name : String} (alone : StandsAlone name)

include alone

theorem isName : IsName name.toList := by
  refine ⟨?_, fun same => alone.notUp (String.toList_inj.mp same)⟩
  rintro (empty | here)
  · exact alone.filled (String.toList_eq_nil_iff.mp empty)
  · exact alone.notHere (String.toList_inj.mp here)

theorem clear : ∀ c ∈ name.toList, isSlash c = false :=
  isSlash_eq_false_of_any alone.noSlash

theorem referredName_eq (referring : String) :
    referredName name referring = normalize (referring ++ "/../" ++ name) := by
  rw [referredName, alone.noSlash, alone.noScheme]
  rfl

/-- **A step up and a name** behind a path that ends in a name mean the path with the other name. -/
theorem ofText_beside {referring : String} {names : List (List Char)} {last : List Char}
    (ends : (Route.ofText referring.toList).names = names ++ [last]) :
    Route.ofText (referring ++ "/../" ++ name).toList =
      { Route.ofText referring.toList with names := names ++ [name.toList] } := by
  have filled : referring.toList ≠ [] := by
    intro empty
    rw [empty] at ends
    exact List.append_ne_nil_of_right_ne_nil names (List.cons_ne_nil last []) ends.symm
  have text : (referring ++ "/../" ++ name).toList =
      referring.toList ++ '/' :: (stepUp ++ '/' :: name.toList) := by
    rw [String.toList_append, String.toList_append, List.append_assoc]
    rfl
  have up : ∀ c ∈ stepUp, isSlash c = false := isSlash_eq_false_of_any (by decide)
  have whole : Route.ofText referring.toList = { ({ Route.ofText referring.toList with
      names := names } : Route) with names := names ++ [last] } := by
    rw [← ends]
  rw [text, ofText_append filled, List.splitOnP_append_cons_of_forall_mem up _ rfl,
    List.splitOnP_eq_singleton alone.clear, List.foldl_cons, List.foldl_cons, List.foldl_nil, whole,
    Route.step_stepUp_of_name { Route.ofText referring.toList with names := names } last,
    Route.step_of_isName alone.isName]

end StandsAlone

/-- **A template is referred to beside the one that refers to it.** Let a name be a single
segment that does not mean a folder, without a scheme, and let the referring path have a normal
form that ends in a segment other than `..`. Then the name stands for this normal form with the
name in place of the last segment. So it is absolute just when the referring path is, and is
its own normal form. -/
theorem referredName_beside {name referring : String} (alone : StandsAlone name)
    (filled : lastSegment (normalize referring) ≠ "")
    (notUp : lastSegment (normalize referring) ≠ "..") :
    referredName name referring = withLastSegment (normalize referring) name ∧
      isAbsolute (referredName name referring) = isAbsolute referring ∧
      normalize (referredName name referring) = referredName name referring := by
  obtain ⟨names, last, ends⟩ := exists_last_name filled notUp
  have beside := alone.ofText_beside ends
  have absolute (path : String) : (Route.ofText path.toList).absolute = isAbsolute path :=
    (reads_iff.mpr rfl).absolute
  rw [alone.referredName_eq]
  refine ⟨?_, ?_, normalize_eq_iff.mpr (ofText_normalize _)⟩
  · have before : (Route.ofText referring.toList).segments =
        List.replicate (Route.ofText referring.toList).ups stepUp ++ names ++ [last] := by
      rw [Route.segments, ends, List.append_assoc]
      rfl
    have after : (Route.ofText (referring ++ "/../" ++ name).toList).segments =
        List.replicate (Route.ofText referring.toList).ups stepUp ++ names ++ [name.toList] := by
      rw [Route.segments, beside, List.append_assoc]
      rfl
    rw [withLastSegment_normalize before, normalize, Route.text_of_segments after, beside]
  · rw [← absolute, ← absolute, ofText_normalize, beside]

/-- Slashes of both kinds, one at the end, an inner step up and one that is not paired. -/
theorem referredName_beside_untidy :
    let referring := "..\\views//./x/../base.tmpl/"
    StandsAlone "nav.tmpl" ∧ lastSegment (normalize referring) = "base.tmpl" ∧
      referredName "nav.tmpl" referring = "../views/nav.tmpl" := by
  intro referring
  have alone : StandsAlone "nav.tmpl" := by constructor <;> decide
  have segment : lastSegment (normalize referring) = "base.tmpl" := by decide
  have filled : lastSegment (normalize referring) ≠ "" := segment ▸ by decide
  have notUp : lastSegment (normalize referring) ≠ ".." := segment ▸ by decide
  obtain ⟨beside, -, -⟩ := referredName_beside alone filled notUp
  exact ⟨alone, segment, beside.trans (by decide)⟩

end Templating.Path
