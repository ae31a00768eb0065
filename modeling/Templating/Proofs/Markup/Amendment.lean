import Mathlib.Data.List.Pairwise
import Templating.Proofs.Markup.RunEdit

/-!
# Amending an attribute run

A pass that adds an attribute amends the run of an element: the first attribute of a name is
changed in its value or, when there is none, a new one is put at the end (`Amendment.apply`).
Amendments of different names touch different attributes, so their order shows in nothing but the
places of the new attributes.

* `Amendment.filter_apply`, `Amendment.filter_isOther_apply`: an amendment acts on the attributes of
  its own name, and on nothing else in the run.
* `filter_amendedAll`: so do several, each on those of its name.
* `any_isNamed_amendedAll`: a name is there in the end when it was there or has been due.
* `akin_amendedAll`: amendments of different names leave akin runs in any order: what has one name
  stands in the same order, and so does what is no attribute.
-/

namespace Templating.Markup

open Templating.Text

/-! ## What stands in a run -/

namespace NodeKind

def isAttr (kind : NodeKind) : Bool :=
  kind.shape = .attr

def isBlank (kind : NodeKind) : Bool :=
  match kind with
  | .text content => allBlank content.toList
  | _ => false

/-- Whether the kind is neither an attribute nor blank text. -/
def isOther (kind : NodeKind) : Bool :=
  !kind.isAttr && !kind.isBlank

/-- Whether the kind is an attribute with this literal name, in any case of its letters. -/
def isNamed (name : String) (kind : NodeKind) : Bool :=
  kind.literalName?.any (sameName · name)

/-- Whether the kind is an attribute whose name, literal or not, is spelled like this in any case of
its letters. -/
def isSpelled (name : String) (kind : NodeKind) : Bool :=
  match kind with
  | .attr part _ _ => sameName part.source name
  | _ => false

section

variable {kind : NodeKind} {name other : String}

theorem isAttr_iff : kind.isAttr = true ↔ ∃ part value quote, kind = .attr part value quote := by
  constructor
  · intro isAttr
    cases kind with
    | attr part value quote => exact ⟨part, value, quote, rfl⟩
    | _ => cases isAttr
  · rintro ⟨part, value, quote, rfl⟩
    rfl

theorem isNamed_iff : kind.isNamed name = true ↔
    ∃ literal value quote, kind = .attr (.text literal) value quote ∧
      sameName literal name = true := by
  constructor
  · intro named
    unfold isNamed literalName? at named
    split at named
    · exact ⟨_, _, _, rfl, named⟩
    · cases named
  · rintro ⟨literal, value, quote, rfl, same⟩
    exact same

theorem isSpelled_of_isNamed (named : kind.isNamed name = true) : kind.isSpelled name = true := by
  obtain ⟨literal, value, quote, rfl, same⟩ := isNamed_iff.mp named
  exact same

theorem isAttr_of_isSpelled (spelled : kind.isSpelled name = true) : kind.isAttr = true := by
  cases kind with
  | attr => rfl
  | _ => cases spelled

theorem isSpelled_of_sameName (same : sameName name other = true) (kind : NodeKind) :
    kind.isSpelled name = kind.isSpelled other := by
  cases kind with
  | attr part =>
    rw [isSpelled, isSpelled, Bool.eq_iff_iff]
    refine ⟨fun spelled => sameName_trans spelled same, fun spelled => ?_⟩
    rw [sameName_comm] at same
    exact sameName_trans spelled same
  | _ => rfl

theorem isSpelled_eq_false (differ : sameName name other = false)
    (spelled : kind.isSpelled name = true) : kind.isSpelled other = false := by
  cases kind with
  | attr part =>
    rw [Bool.eq_false_iff]
    intro spelled'
    have same : sameName name part.source = true := (sameName_comm _ _).trans spelled
    rw [sameName_trans same spelled'] at differ
    cases differ
  | _ => cases spelled

end

end NodeKind

/-! ## Changing the first -/

section

variable {α : Type} (test : α → Bool) (change : α → α)

/-- The list with the first item that passes the test changed. -/
def changeFirst : List α → List α
  | [] => []
  | item :: rest => if test item then change item :: rest else item :: changeFirst rest

variable {test change}

theorem changeFirst_append {front back : List α} {item : α}
    (none : ∀ earlier ∈ front, test earlier = false) (first : test item = true) :
    changeFirst test change (front ++ item :: back) = front ++ change item :: back := by
  induction front with
  | nil => rw [List.nil_append, List.nil_append, changeFirst, if_pos first]
  | cons earlier front ih =>
    have fails := Bool.eq_false_iff.mp (none earlier List.mem_cons_self)
    rw [List.cons_append, List.cons_append, changeFirst, if_neg fails,
      ih fun other member => none other (List.mem_cons_of_mem _ member)]

theorem changeFirst_id (items : List α) : changeFirst test id items = items := by
  induction items with
  | nil => rfl
  | cons item rest ih =>
    rw [changeFirst, ih, id]
    split <;> rfl

/-- What is changed is seen when the change makes it seen. -/
theorem any_changeFirst {look : α → Bool} {items : List α} (there : items.any test = true)
    (changed : ∀ item, test item = true → look (change item) = true) :
    (changeFirst test change items).any look = true := by
  induction items with
  | nil => cases there
  | cons item rest ih =>
    rw [changeFirst]
    split
    · rename_i first
      rw [List.any_cons, changed item first, Bool.true_or]
    · rename_i other
      rw [List.any_cons, Bool.eq_false_iff.mpr other, Bool.false_or] at there
      rw [List.any_cons, ih there, Bool.or_true]

/-- What a filter picks of the list when it sees no change. -/
theorem filter_changeFirst_of_blind {pick : α → Bool}
    (blind : ∀ item, test item = true → pick item = false ∧ pick (change item) = false)
    (items : List α) : (changeFirst test change items).filter pick = items.filter pick := by
  induction items with
  | nil => rfl
  | cons item rest ih =>
    rw [changeFirst]
    split
    · obtain ⟨before, after⟩ := blind item ‹_›
      rw [List.filter_cons_of_neg (Bool.eq_false_iff.mp after),
        List.filter_cons_of_neg (Bool.eq_false_iff.mp before)]
    · rw [List.filter_cons, List.filter_cons, ih]

/-- What a filter picks of the list when it picks all that could be changed. -/
theorem filter_changeFirst {pick : α → Bool}
    (picks : ∀ item, test item = true → pick item = true ∧ pick (change item) = true)
    (items : List α) :
    (changeFirst test change items).filter pick = changeFirst test change (items.filter pick) := by
  induction items with
  | nil => rfl
  | cons item rest ih =>
    rw [changeFirst]
    by_cases passes : test item = true
    · obtain ⟨before, after⟩ := picks item passes
      rw [if_pos passes, List.filter_cons_of_pos after, List.filter_cons_of_pos before, changeFirst,
        if_pos passes]
    · rw [if_neg passes]
      by_cases picked : pick item = true
      · rw [List.filter_cons_of_pos picked, List.filter_cons_of_pos picked, changeFirst,
          if_neg passes, ih]
      · rw [List.filter_cons_of_neg picked, List.filter_cons_of_neg picked, ih]

end

/-! ## Amendments -/

/-- What an element gets: an attribute of a name, which has a value when it is new and is changed in
its value when it is there. -/
structure Amendment where
  name : String
  value : String
  change : NodeKind → NodeKind
  /-- A changed attribute has its name. -/
  change_attr : ∀ part value quote, ∃ value' quote',
    change (.attr part value quote) = .attr part value' quote'

/-- What is put in front of an attribute at the end of a run. -/
def leadOf (kinds : List NodeKind) : List NodeKind :=
  if kinds.getLast?.any NodeKind.isBlank then [] else [.text separator]

/-- What has a literal name is among what is spelled like it. -/
theorem any_isNamed_filter (kinds : List NodeKind) (name : String) :
    (kinds.filter (NodeKind.isSpelled name)).any (NodeKind.isNamed name) =
      kinds.any (NodeKind.isNamed name) := by
  rw [List.any_filter]
  refine congrArg (List.any kinds) (funext fun kind => ?_)
  cases named : kind.isNamed name with
  | true => rw [NodeKind.isSpelled_of_isNamed named]; rfl
  | false => exact Bool.and_false _

namespace Amendment

/-- The first attribute of the name is changed, or a new one stands at the end. -/
def apply (amendment : Amendment) (kinds : List NodeKind) : List NodeKind :=
  if kinds.any (NodeKind.isNamed amendment.name) then
    changeFirst (NodeKind.isNamed amendment.name) amendment.change kinds
  else
    kinds ++ leadOf kinds ++ [.literal amendment.name amendment.value]

/-- What an amendment makes of the attributes that are spelled like its name. -/
def among (amendment : Amendment) (kinds : List NodeKind) : List NodeKind :=
  if kinds.any (NodeKind.isNamed amendment.name) then
    changeFirst (NodeKind.isNamed amendment.name) amendment.change kinds
  else
    kinds ++ [.literal amendment.name amendment.value]

/-- An attribute that is missing is added, and one that is there stays as it is. -/
def filling (name value : String) : Amendment where
  name := name
  value := value
  change := id
  change_attr := fun _ value quote => ⟨value, quote, rfl⟩

variable (amendment : Amendment) {kinds : List NodeKind} {name : String}

theorem isAttr_change {kind : NodeKind} (isAttr : kind.isAttr = true) :
    (amendment.change kind).isAttr = true := by
  obtain ⟨part, value, quote, rfl⟩ := NodeKind.isAttr_iff.mp isAttr
  obtain ⟨value', quote', changed⟩ := amendment.change_attr part value quote
  rw [changed]
  rfl

theorem isSpelled_change {kind : NodeKind} (isAttr : kind.isAttr = true) (name : String) :
    (amendment.change kind).isSpelled name = kind.isSpelled name := by
  obtain ⟨part, value, quote, rfl⟩ := NodeKind.isAttr_iff.mp isAttr
  obtain ⟨value', quote', changed⟩ := amendment.change_attr part value quote
  rw [changed]
  rfl

theorem apply_of_there (there : kinds.any (NodeKind.isNamed amendment.name) = true) :
    amendment.apply kinds = changeFirst (NodeKind.isNamed amendment.name) amendment.change kinds :=
  if_pos there

theorem apply_of_missing (missing : kinds.any (NodeKind.isNamed amendment.name) = false) :
    amendment.apply kinds = kinds ++ leadOf kinds ++ [.literal amendment.name amendment.value] :=
  if_neg (Bool.eq_false_iff.mp missing)

/-- Nothing that is put in front of an attribute is one. -/
theorem filter_leadOf {pick : NodeKind → Bool} (gap : pick (.text separator) = false)
    (kinds : List NodeKind) : (leadOf kinds).filter pick = [] := by
  rw [leadOf]
  split
  · rfl
  · rw [List.filter_singleton, gap]
    rfl

/-- An amendment leaves alone what a filter picks that has nothing to do with its name. -/
theorem filter_apply_of_blind {pick : NodeKind → Bool}
    (blind : ∀ kind, kind.isSpelled amendment.name = true → pick kind = false)
    (gap : pick (.text separator) = false) (kinds : List NodeKind) :
    (amendment.apply kinds).filter pick = kinds.filter pick := by
  rw [apply]
  split
  · refine filter_changeFirst_of_blind (fun kind named => ?_) kinds
    have spelled := NodeKind.isSpelled_of_isNamed named
    refine ⟨blind kind spelled, blind _ ?_⟩
    rwa [amendment.isSpelled_change (NodeKind.isAttr_of_isSpelled spelled)]
  · have added : pick (.literal amendment.name amendment.value) = false :=
      blind _ (sameName_refl amendment.name)
    rw [List.filter_append, List.filter_append, filter_leadOf gap, List.filter_singleton, added,
      List.append_nil]
    exact List.append_nil _

/-- What is neither an attribute nor blank stays. -/
theorem filter_isOther_apply (kinds : List NodeKind) :
    (amendment.apply kinds).filter NodeKind.isOther = kinds.filter NodeKind.isOther := by
  refine amendment.filter_apply_of_blind (fun kind spelled => ?_) (by decide) kinds
  rw [NodeKind.isOther, NodeKind.isAttr_of_isSpelled spelled]
  rfl

/-- **An amendment acts on the attributes of its own name**: on those that are spelled otherwise it
does not act. -/
theorem filter_apply (kinds : List NodeKind) (name : String) :
    (amendment.apply kinds).filter (NodeKind.isSpelled name) =
      if sameName amendment.name name then amendment.among (kinds.filter (NodeKind.isSpelled name))
      else kinds.filter (NodeKind.isSpelled name) := by
  cases same : sameName amendment.name name with
  | false =>
    exact amendment.filter_apply_of_blind (fun kind => NodeKind.isSpelled_eq_false same) rfl kinds
  | true =>
    have spelled (kind : NodeKind) (named : kind.isNamed amendment.name = true) :
        kind.isSpelled name = true := by
      rw [← NodeKind.isSpelled_of_sameName same]
      exact NodeKind.isSpelled_of_isNamed named
    have there : (kinds.filter (NodeKind.isSpelled name)).any (NodeKind.isNamed amendment.name) =
        kinds.any (NodeKind.isNamed amendment.name) := by
      rw [← funext (NodeKind.isSpelled_of_sameName same)]
      exact any_isNamed_filter kinds amendment.name
    rw [if_pos rfl, apply, among, there]
    split
    · refine filter_changeFirst (fun kind named => ⟨spelled kind named, ?_⟩) kinds
      have isSpelled := spelled kind named
      rwa [amendment.isSpelled_change (NodeKind.isAttr_of_isSpelled isSpelled)]
    · have isNew : NodeKind.isSpelled name (.literal amendment.name amendment.value) = true := same
      rw [List.filter_append, List.filter_append, filter_leadOf rfl, List.append_nil,
        List.filter_singleton, isNew, cond_true]

/-- An amended run has an attribute of the amendment's name. -/
theorem any_apply {look : NodeKind → Bool}
    (isNew : look (.literal amendment.name amendment.value) = true)
    (changed : ∀ kind, kind.isNamed amendment.name = true → look (amendment.change kind) = true)
    (kinds : List NodeKind) : (amendment.apply kinds).any look = true := by
  rw [apply]
  split
  · exact any_changeFirst ‹_› changed
  · rw [List.any_append, List.any_cons, isNew, Bool.true_or, Bool.or_true]

theorem any_isAttr_apply (kinds : List NodeKind) :
    (amendment.apply kinds).any NodeKind.isAttr = true := by
  refine amendment.any_apply rfl (fun kind named => amendment.isAttr_change ?_) kinds
  exact NodeKind.isAttr_of_isSpelled (NodeKind.isSpelled_of_isNamed named)

theorem any_isNamed_apply (same : sameName amendment.name name = true) (kinds : List NodeKind) :
    (amendment.apply kinds).any (NodeKind.isNamed name) = true := by
  refine amendment.any_apply same (fun kind named => ?_) kinds
  obtain ⟨literal, value, quote, rfl, same'⟩ := NodeKind.isNamed_iff.mp named
  obtain ⟨value', quote', changed⟩ := amendment.change_attr (.text literal) value quote
  rw [changed]
  exact sameName_trans same' same

end Amendment

/-! ## Several amendments -/

/-- What an amendment, if one is due, makes of a run. -/
def amended (due : Option Amendment) (kinds : List NodeKind) : List NodeKind :=
  match due with
  | some amendment => amendment.apply kinds
  | none => kinds

/-- What the amendments that are due make of a run, one after the other. -/
def amendedAll (dues : List (Option Amendment)) (kinds : List NodeKind) : List NodeKind :=
  dues.foldl (fun kinds due => amended due kinds) kinds

/-- The amendments that are due have different names. -/
def DifferentNames (due due' : Option Amendment) : Prop :=
  ∀ amendment ∈ due, ∀ amendment' ∈ due', sameName amendment.name amendment'.name = false

instance : Std.Symm DifferentNames where
  symm := fun _ _ differ amendment member amendment' member' => by
    rw [sameName_comm]
    exact differ amendment' member' amendment member

/-- What an amendment, if one is due, makes of the attributes that are spelled like a name. -/
def amendedAmong (name : String) (kinds : List NodeKind) (due : Option Amendment) : List NodeKind :=
  match due with
  | some amendment => if sameName amendment.name name then amendment.among kinds else kinds
  | none => kinds

theorem filter_amended (due : Option Amendment) (kinds : List NodeKind) (name : String) :
    (amended due kinds).filter (NodeKind.isSpelled name) =
      amendedAmong name (kinds.filter (NodeKind.isSpelled name)) due := by
  cases due with
  | none => rfl
  | some amendment => exact amendment.filter_apply kinds name

/-- An amendment brings its own name, and neither brings nor takes another one. -/
theorem any_isNamed_amended (due : Option Amendment) (kinds : List NodeKind) (name : String) :
    (amended due kinds).any (NodeKind.isNamed name) =
      (kinds.any (NodeKind.isNamed name) ||
        due.any fun amendment => sameName amendment.name name) := by
  cases due with
  | none => exact (Bool.or_false _).symm
  | some amendment =>
    cases same : sameName amendment.name name with
    | true => rw [Option.any_some, same, Bool.or_true]; exact amendment.any_isNamed_apply same kinds
    | false =>
      rw [Option.any_some, same, Bool.or_false, ← any_isNamed_filter, filter_amended, amendedAmong,
        same, if_neg Bool.false_ne_true, any_isNamed_filter]

/-- **A name is there in the end** when it was there or an amendment of it was due. -/
theorem any_isNamed_amendedAll (dues : List (Option Amendment)) (kinds : List NodeKind)
    (name : String) : (amendedAll dues kinds).any (NodeKind.isNamed name) =
      (kinds.any (NodeKind.isNamed name) ||
        dues.any (Option.any fun amendment => sameName amendment.name name)) := by
  induction dues generalizing kinds with
  | nil => exact (Bool.or_false _).symm
  | cons due rest ih =>
    rw [List.any_cons, ← Bool.or_assoc, ← any_isNamed_amended]
    exact ih (amended due kinds)

/-- Amendments act one by one on the attributes that are spelled like a name. -/
theorem filter_amendedAll (dues : List (Option Amendment)) (kinds : List NodeKind) (name : String) :
    (amendedAll dues kinds).filter (NodeKind.isSpelled name) =
      dues.foldl (amendedAmong name) (kinds.filter (NodeKind.isSpelled name)) := by
  induction dues generalizing kinds with
  | nil => rfl
  | cons due rest ih =>
    rw [amendedAll, List.foldl_cons, List.foldl_cons, ← filter_amended]
    exact ih (amended due kinds)

/-- No two amendments of different names act on the attributes of one name. -/
theorem amendedAmong_comm {due due' : Option Amendment} (differ : DifferentNames due due')
    (name : String) (kinds : List NodeKind) :
    amendedAmong name (amendedAmong name kinds due) due' =
      amendedAmong name (amendedAmong name kinds due') due := by
  cases due with
  | none => rfl
  | some amendment =>
    cases due' with
    | none => rfl
    | some amendment' =>
      have differ := differ amendment rfl amendment' rfl
      cases same : sameName amendment.name name with
      | false => simp only [amendedAmong, same, Bool.false_eq_true, if_false]
      | true =>
        have other : sameName amendment'.name name = false := by
          rw [Bool.eq_false_iff]
          intro same'
          rw [sameName_comm] at same'
          rw [sameName_trans same same'] at differ
          cases differ
        simp only [amendedAmong, other, Bool.false_eq_true, if_false]

theorem filter_isOther_amendedAll (dues : List (Option Amendment)) (kinds : List NodeKind) :
    (amendedAll dues kinds).filter NodeKind.isOther = kinds.filter NodeKind.isOther := by
  induction dues generalizing kinds with
  | nil => rfl
  | cons due rest ih =>
    refine (ih (amended due kinds)).trans ?_
    cases due with
    | none => rfl
    | some amendment => exact amendment.filter_isOther_apply kinds

/-- A run with an attribute keeps one. -/
theorem any_isAttr_amendedAll (dues : List (Option Amendment)) {kinds : List NodeKind}
    (some : kinds.any NodeKind.isAttr = true) :
    (amendedAll dues kinds).any NodeKind.isAttr = true := by
  induction dues generalizing kinds with
  | nil => exact some
  | cons due rest ih =>
    refine ih ?_
    cases due with
    | none => exact some
    | some amendment => exact amendment.any_isAttr_apply kinds

/-- A run that has no attribute in the end has not been amended. -/
theorem amendedAll_eq_self (dues : List (Option Amendment)) {kinds : List NodeKind}
    (none : (amendedAll dues kinds).any NodeKind.isAttr = false) :
    amendedAll dues kinds = kinds := by
  induction dues generalizing kinds with
  | nil => rfl
  | cons due rest ih =>
    cases due with
    | none => exact ih none
    | some amendment =>
      have some := any_isAttr_amendedAll rest (amendment.any_isAttr_apply kinds)
      exact absurd some (Bool.eq_false_iff.mp none)

/-! ## Akin runs -/

/-- Two runs hold the same in all that their attributes' order does not depend on: what is spelled
like one name stands in the same order, and so does what is no attribute; without an attribute they
are the same. -/
structure Akin (left right : List NodeKind) : Prop where
  spelled : ∀ name, left.filter (NodeKind.isSpelled name) = right.filter (NodeKind.isSpelled name)
  others : left.filter NodeKind.isOther = right.filter NodeKind.isOther
  bare : left.any NodeKind.isAttr = false → left = right

/-- **Amendments of different names** leave akin runs in any order. -/
theorem akin_amendedAll {dues dues' : List (Option Amendment)} (perm : dues.Perm dues')
    (differ : dues.Pairwise DifferentNames) (kinds : List NodeKind) :
    Akin (amendedAll dues kinds) (amendedAll dues' kinds) := by
  have spelled (name : String) : (amendedAll dues kinds).filter (NodeKind.isSpelled name) =
      (amendedAll dues' kinds).filter (NodeKind.isSpelled name) := by
    rw [filter_amendedAll, filter_amendedAll]
    refine perm.foldl_eq' (fun due member due' member' among => ?_) _
    by_cases same : due = due'
    · rw [same]
    · exact amendedAmong_comm (differ.forall member member' same) name among
  refine ⟨spelled, ?_, fun none => ?_⟩
  · rw [filter_isOther_amendedAll, filter_isOther_amendedAll]
  · have none' : (amendedAll dues' kinds).any NodeKind.isAttr = false := by
      rw [List.any_eq_false]
      intro kind member isAttr
      obtain ⟨part, value, quote, rfl⟩ := NodeKind.isAttr_iff.mp isAttr
      have inRight : NodeKind.attr part value quote ∈
          (amendedAll dues' kinds).filter (NodeKind.isSpelled part.source) :=
        List.mem_filter.mpr ⟨member, sameName_refl part.source⟩
      rw [← spelled] at inRight
      exact List.any_eq_false.mp none _ (List.mem_filter.mp inRight).1 isAttr
    rw [amendedAll_eq_self dues none, amendedAll_eq_self dues' none']

end Templating.Markup
