import Mathlib.Data.List.Basic
import Mathlib.Data.List.Induction
import Templating.Path
import Templating.Proofs.Text.Pieces

/-!
# Normal forms of paths

A step up and the name that it leaves again stand like two brackets: whatever is between them is
paired in itself. `Paired` and `Leaves` say so of the segments of a path, without reading them from
left to right, and `Reads` says what a path means by that.

* `foldl_leaves`, `exists_leaves`: reading from left to right finds what is left, and something
  always is.
* `ofText_text`: a route is read back from its text.
* `ofText_append`: behind a path and a slash reading goes on from what the path means.
* `normalize_canonical` puts them together.
-/

namespace Templating.Path

/-! ## Pairs of names and steps up -/

/-- The segment for a step up. -/
def stepUp : List Char := ['.', '.']

/-- A segment that leads nowhere. -/
def IsIdle (segment : List Char) : Prop :=
  segment = [] ∨ segment = ['.']

/-- A segment that goes down. -/
def IsName (segment : List Char) : Prop :=
  ¬ IsIdle segment ∧ segment ≠ stepUp

/-- Each name among the segments is paired with a step up behind it, each step up with a name in
front of it, and each pair stands around whole pairs. -/
inductive Paired : List (List Char) → Prop
  | nil : Paired []
  | idle {segment : List Char} {rest : List (List Char)} :
    IsIdle segment → Paired rest → Paired (segment :: rest)
  | pair {name : List Char} {inner rest : List (List Char)} :
    IsName name → Paired inner → Paired rest → Paired (name :: inner ++ stepUp :: rest)

/-- What pairing leaves of segments: so many steps up, which have no name left in front of them, and
then names. -/
inductive Leaves : List (List Char) → Nat → List (List Char) → Prop
  | nothing {segments : List (List Char)} : Paired segments → Leaves segments 0 []
  | stepUp {front back : List (List Char)} {ups : Nat} :
    Leaves front ups [] → Paired back → Leaves (front ++ stepUp :: back) (ups + 1) []
  | name {front back names : List (List Char)} {name : List Char} {ups : Nat} :
    Leaves front ups names → IsName name → Paired back →
    Leaves (front ++ name :: back) ups (names ++ [name])

/-- The segments of a path stand between its slashes. -/
def segmentsOf (path : String) : List (List Char) :=
  path.toList.splitOnP isSlash

/-- What a path means: what pairing leaves of its segments, but for the steps up when it starts at
the root. -/
structure Reads (path : String) (route : Route) : Prop where
  absolute : route.absolute = path.toList.head?.any isSlash
  left : ∃ ups, Leaves (segmentsOf path) ups route.names ∧
    route.ups = if route.absolute then 0 else ups

theorem Paired.append {front back : List (List Char)} (first : Paired front)
    (second : Paired back) : Paired (front ++ back) := by
  induction first with
  | nil => exact second
  | idle isIdle _ ih => exact .idle isIdle ih
  | pair isName inner _ _ ih =>
    rw [List.append_assoc, List.cons_append]
    exact .pair isName inner ih

theorem Leaves.append {front back names : List (List Char)} {ups : Nat}
    (left : Leaves front ups names) (paired : Paired back) : Leaves (front ++ back) ups names := by
  cases left with
  | nothing first => exact .nothing (first.append paired)
  | stepUp left first =>
    rw [List.append_assoc, List.cons_append]
    exact .stepUp left (first.append paired)
  | name left isName first =>
    rw [List.append_assoc, List.cons_append]
    exact .name left isName (first.append paired)

/-- Pairing always leaves something. -/
theorem exists_leaves (segments : List (List Char)) : ∃ ups names, Leaves segments ups names := by
  induction segments using List.reverseRecOn with
  | nil => exact ⟨0, [], .nothing .nil⟩
  | append_singleton front segment ih =>
    obtain ⟨ups, names, left⟩ := ih
    by_cases isIdle : IsIdle segment
    · exact ⟨ups, names, left.append (.idle isIdle .nil)⟩
    by_cases isUp : segment = Path.stepUp
    · subst isUp
      -- The step up is paired with the last name that is left, if there is one.
      cases left with
      | nothing paired => exact ⟨1, [], .stepUp (.nothing paired) .nil⟩
      | stepUp left paired => exact ⟨_, [], .stepUp (.stepUp left paired) .nil⟩
      | @name front back names name _ left isName paired =>
        refine ⟨ups, names, ?_⟩
        rw [List.append_assoc]
        exact left.append (.pair isName paired .nil)
    · exact ⟨ups, names ++ [segment], .name left ⟨isIdle, isUp⟩ .nil⟩

/-! ## Reading from left to right -/

namespace Route

variable {route : Route} {segment : List Char}

theorem step_of_isIdle (isIdle : IsIdle segment) : route.step segment = route :=
  if_pos isIdle

theorem step_of_isName (isName : IsName segment) :
    route.step segment = { route with names := route.names ++ [segment] } :=
  (if_neg isName.1).trans (if_neg isName.2)

/-- A step up leaves the last name. -/
theorem step_stepUp_of_name (route : Route) (name : List Char) :
    { route with names := route.names ++ [name] }.step stepUp = route := by
  simp [step, stepUp]

/-- Without names a step up counts, but does not lead out of the root. -/
theorem step_stepUp_of_nil (none : route.names = []) : route.step stepUp =
    { route with ups := if route.absolute then route.ups else route.ups + 1 } := by
  obtain ⟨absolute, ups, names⟩ := route
  obtain rfl : names = [] := none
  cases absolute <;> rfl

/-- Pairs lead back to where they start. -/
theorem foldl_paired {segments : List (List Char)} (paired : Paired segments) (route : Route) :
    segments.foldl step route = route := by
  induction paired generalizing route with
  | nil => rfl
  | idle isIdle _ ih => rw [List.foldl_cons, step_of_isIdle isIdle, ih]
  | @pair name inner rest isName _ _ inside behind =>
    rw [List.cons_append, List.foldl_cons, step_of_isName isName, List.foldl_append, inside,
      List.foldl_cons, step_stepUp_of_name, behind]

/-- **Reading from left to right** finds what pairing leaves. -/
theorem foldl_leaves {segments names : List (List Char)} {ups : Nat}
    (left : Leaves segments ups names) (absolute : Bool) :
    segments.foldl step ⟨absolute, 0, []⟩ = ⟨absolute, if absolute then 0 else ups, names⟩ := by
  induction left with
  | nothing paired =>
    rw [foldl_paired paired, ite_self]
  | stepUp _ paired ih =>
    rw [List.foldl_append, ih, List.foldl_cons, foldl_paired paired, step_stepUp_of_nil rfl]
    cases absolute <;> rfl
  | name _ isName paired ih =>
    rw [List.foldl_append, ih, List.foldl_cons, foldl_paired paired, step_of_isName isName]

end Route

/-- A path means one thing, which is what is read from left to right. -/
theorem reads_iff {path : String} {route : Route} :
    Reads path route ↔ Route.ofText path.toList = route := by
  rw [Route.ofText]
  constructor
  · rintro ⟨absolute, ups, left, same⟩
    rw [← segmentsOf, Route.foldl_leaves left, ← absolute, ← same]
  · rintro rfl
    obtain ⟨ups, names, left⟩ := exists_leaves (segmentsOf path)
    rw [← segmentsOf, Route.foldl_leaves left]
    exact ⟨rfl, ups, left, rfl⟩

/-- Behind a path and a slash reading goes on from what the path means. -/
theorem ofText_append {front : List Char} (filled : front ≠ []) (back : List Char) :
    Route.ofText (front ++ '/' :: back) =
      (back.splitOnP isSlash).foldl Route.step (Route.ofText front) := by
  have start : (front ++ '/' :: back).head? = front.head? :=
    List.head?_append_of_ne_nil _ filled
  rw [Route.ofText, Route.ofText, start, List.splitOnP_append_cons front back rfl,
    List.foldl_append]

/-! ## What a path can mean -/

namespace Route

/-- What a path can mean: there are no steps up at the root, and names hold no slash. -/
structure Plain (route : Route) : Prop where
  root : route.absolute = true → route.ups = 0
  names : ∀ name ∈ route.names, IsName name ∧ ∀ c ∈ name, isSlash c = false

theorem Plain.step {route : Route} (plain : route.Plain) {segment : List Char}
    (clear : ∀ c ∈ segment, isSlash c = false) : (route.step segment).Plain := by
  by_cases isIdle : IsIdle segment
  · rwa [step_of_isIdle isIdle]
  by_cases isUp : segment = stepUp
  · subst isUp
    obtain ⟨absolute, ups, names⟩ := route
    rcases List.eq_nil_or_concat' names with rfl | ⟨names, name, rfl⟩
    · rw [step_stepUp_of_nil rfl]
      refine ⟨fun root => ?_, plain.names⟩
      rw [if_pos root]
      exact plain.root root
    · rw [step_stepUp_of_name ⟨absolute, ups, names⟩ name]
      exact ⟨plain.root, fun other member => plain.names other (List.mem_append_left _ member)⟩
  · rw [step_of_isName ⟨isIdle, isUp⟩]
    refine ⟨plain.root, fun name member => ?_⟩
    rcases List.mem_append.mp member with old | new
    · exact plain.names name old
    · rw [List.mem_singleton.mp new]
      exact ⟨⟨isIdle, isUp⟩, clear⟩

theorem Plain.foldl {route : Route} (plain : route.Plain) {segments : List (List Char)}
    (clear : ∀ segment ∈ segments, ∀ c ∈ segment, isSlash c = false) :
    (segments.foldl Route.step route).Plain := by
  induction segments generalizing route with
  | nil => exact plain
  | cons segment rest ih =>
    obtain ⟨here, behind⟩ := List.forall_mem_cons.mp clear
    exact ih (plain.step here) behind

end Route

theorem plain_ofText (text : List Char) : (Route.ofText text).Plain := by
  have start : Route.Plain ⟨text.head?.any isSlash, 0, []⟩ :=
    ⟨fun _ => rfl, List.forall_mem_nil _⟩
  rw [Route.ofText]
  refine start.foldl fun segment member => ?_
  rw [← List.splitOnPPrepend_nil_right] at member
  exact Text.clear_of_mem_splitOnPPrepend (List.forall_mem_nil _) member

/-! ## Reading what is written -/

theorem leaves_replicate (ups : Nat) : Leaves (List.replicate ups stepUp) ups [] := by
  induction ups with
  | zero => exact .nothing .nil
  | succ ups ih =>
    rw [List.replicate_succ']
    exact .stepUp ih .nil

/-- Nothing is paired among the segments that a route is written with. -/
theorem leaves_segments {ups : Nat} {names : List (List Char)}
    (isName : ∀ name ∈ names, IsName name) :
    Leaves (List.replicate ups stepUp ++ names) ups names := by
  induction names using List.reverseRecOn with
  | nil =>
    rw [List.append_nil]
    exact leaves_replicate ups
  | append_singleton names name ih =>
    rw [← List.append_assoc]
    exact .name (ih fun other member => isName other (List.mem_append_left _ member))
      (isName name (List.mem_append_right _ List.mem_cons_self)) .nil

section

variable {segments : List (List Char)}
  (clear : ∀ segment ∈ segments, ∀ c ∈ segment, isSlash c = false)

include clear

theorem splitOnP_intercalate (filled : segments ≠ []) :
    (['/'].intercalate segments).splitOnP isSlash = segments := by
  induction segments with
  | nil => exact absurd rfl filled
  | cons segment rest ih =>
    obtain ⟨here, behind⟩ := List.forall_mem_cons.mp clear
    cases rest with
    | nil => rw [List.intercalate_singleton, List.splitOnP_eq_singleton here]
    | cons next rest =>
      rw [List.intercalate_cons_cons, List.append_assoc, List.singleton_append,
        List.splitOnP_append_cons_of_forall_mem here _ rfl, ih behind (List.cons_ne_nil _ _)]

/-- Written segments are read back, also when there are none. -/
theorem foldl_splitOnP_intercalate (start : Route) :
    ((['/'].intercalate segments).splitOnP isSlash).foldl Route.step start =
      segments.foldl Route.step start := by
  cases segments with
  | nil =>
    rw [List.intercalate_nil, List.splitOnP_nil]
    exact Route.step_of_isIdle (.inl rfl)
  | cons segment rest => rw [splitOnP_intercalate clear (List.cons_ne_nil _ _)]

theorem head?_intercalate (filled : ∀ segment ∈ segments, segment ≠ []) :
    (['/'].intercalate segments).head?.any isSlash = false := by
  cases segments with
  | nil => rfl
  | cons segment rest =>
    obtain ⟨first, more, rfl⟩ := List.exists_cons_of_ne_nil (filled segment List.mem_cons_self)
    have noSlash := clear _ List.mem_cons_self first List.mem_cons_self
    cases rest with
    | nil => exact noSlash
    | cons next rest => exact noSlash

end

namespace Route.Plain

variable {route : Route} (plain : route.Plain)

include plain

theorem clear_segments : ∀ segment ∈ route.segments,
    segment ≠ [] ∧ ∀ c ∈ segment, isSlash c = false := by
  intro segment member
  rcases List.mem_append.mp member with isUp | isName
  · obtain rfl := List.eq_of_mem_replicate isUp
    have clear : stepUp.all (!isSlash ·) = true := by decide
    exact ⟨List.cons_ne_nil _ _, fun c here => by simpa using List.all_eq_true.mp clear c here⟩
  · obtain ⟨isName, clear⟩ := plain.names segment isName
    exact ⟨fun empty => isName.1 (.inl empty), clear⟩

theorem foldl_segments : route.segments.foldl Route.step ⟨route.absolute, 0, []⟩ = route := by
  have left : Leaves route.segments route.ups route.names :=
    leaves_segments fun name member => (plain.names name member).1
  rw [foldl_leaves left]
  cases root : route.absolute with
  | false => rw [if_neg Bool.false_ne_true, ← root]
  | true => rw [if_pos rfl, ← plain.root root, ← root]

/-- **A route is read back** from its text. -/
theorem ofText_text : ofText route.text = route := by
  have clear := fun segment member => (plain.clear_segments segment member).2
  cases root : route.absolute with
  | true =>
    have written : route.text = '/' :: ['/'].intercalate route.segments := by
      rw [text, root]
      rfl
    have slash : isSlash '/' = true := rfl
    rw [written, ofText, List.splitOnP_cons_eq_if_modifyHead, if_pos slash, List.foldl_cons,
      step_of_isIdle (.inl rfl), foldl_splitOnP_intercalate clear, List.head?_cons,
      Option.any_some, slash, ← root, plain.foldl_segments]
  | false =>
    have written : route.text = ['/'].intercalate route.segments := by
      rw [text, root]
      rfl
    rw [written, ofText, foldl_splitOnP_intercalate clear, head?_intercalate clear
      fun segment member => (plain.clear_segments segment member).1, ← root, plain.foldl_segments]

end Route.Plain

/-! ## Normal forms -/

theorem toList_normalize (path : String) :
    (normalize path).toList = (Route.ofText path.toList).text := by
  rw [normalize, String.toList_ofList]

/-- A path and its normal form mean the same. -/
theorem ofText_normalize (path : String) :
    Route.ofText (normalize path).toList = Route.ofText path.toList := by
  rw [toList_normalize, (plain_ofText path.toList).ofText_text]

theorem normalize_eq_iff {path other : String} :
    normalize path = normalize other ↔ Route.ofText path.toList = Route.ofText other.toList := by
  constructor
  · intro same
    rw [← ofText_normalize, same, ofText_normalize]
  · intro same
    rw [normalize, normalize, same]

/-- What stands behind a path and a slash goes on from the path's normal form. -/
theorem normalize_append {path : String} (filled : normalize path ≠ "") (rest : String) :
    normalize (path ++ "/" ++ rest) = normalize (normalize path ++ "/" ++ rest) := by
  have toList (path : String) :
      (path ++ "/" ++ rest).toList = path.toList ++ '/' :: rest.toList := by
    rw [String.toList_append, String.toList_append, List.append_assoc]
    rfl
  have filled' : path ≠ "" := by
    rintro rfl
    exact filled rfl
  rw [normalize_eq_iff, toList, toList, ofText_append (mt String.toList_eq_nil_iff.mp filled'),
    ofText_append (mt String.toList_eq_nil_iff.mp filled), ofText_normalize]

/-- **A path has one normal form.** It means one route, and its normal form is that route
written out: a slash if the path starts at the root, the steps up that are left, and the names
that are left, with one slash between two of them. So a normal form is its own, two paths have
one normal form just when they mean one route, and a path that goes on behind a slash can be put
in normal form first. -/
theorem normalize_canonical (path : String) : ∃ route, Reads path route ∧
    (∀ other, Reads path other → other = route) ∧
    (normalize path).toList = (if route.absolute then ['/'] else []) ++
      ['/'].intercalate (List.replicate route.ups stepUp ++ route.names) ∧
    normalize (normalize path) = normalize path ∧
    (∀ path' route', Reads path' route' → (normalize path = normalize path' ↔ route = route')) ∧
    (normalize path ≠ "" →
      ∀ rest, normalize (path ++ "/" ++ rest) = normalize (normalize path ++ "/" ++ rest)) := by
  refine ⟨Route.ofText path.toList, reads_iff.mpr rfl, fun other reads => ?_,
    toList_normalize path, ?_, fun path' route' reads => ?_, normalize_append⟩
  · exact (reads_iff.mp reads).symm
  · rw [normalize_eq_iff, ofText_normalize]
  · rw [normalize_eq_iff, reads_iff.mp reads]

/-- A step up that is paired, one that is not, and slashes of both kinds. -/
theorem normalize_canonical_mixed : Reads "a\\..//./../b" ⟨false, 1, [['b']]⟩ ∧
    normalize "a\\..//./../b" = "../b" ∧ "../b" ≠ "" ∧
    normalize ("a\\..//./../b" ++ "/" ++ "../c") = normalize ("../b" ++ "/" ++ "../c") := by
  have means : Reads "a\\..//./../b" ⟨false, 1, [['b']]⟩ := reads_iff.mpr (by decide)
  obtain ⟨route, -, unique, written, -, -, goesOn⟩ := normalize_canonical "a\\..//./../b"
  obtain rfl := unique _ means
  have normal : normalize "a\\..//./../b" = "../b" := String.toList_inj.mp written
  have filled : "../b" ≠ "" := by decide
  exact ⟨means, normal, filled, normal ▸ goesOn (normal ▸ filled) "../c"⟩

end Templating.Path
