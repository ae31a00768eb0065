import Templating.Proofs.Markup.Moment
import Templating.Proofs.Markup.Pass.Blanks

/-!
# Texts one by one

A pass that takes the same step in every text that it meets, or in every blank one, has taken it
once in each text in view when it is done, and has changed nothing else.

* `Tree.SteppedAt`: the step has been taken in the texts among some nodes.
* `Visits.steppedAt`: in the course of a walk these are the nodes that have been visited.
* `exists_steppedAt`: in the end they are those in view.
-/

namespace Templating.Markup

open Templating.Text

variable {all all' : Bool} {step step' : List Char → List Char}

/-! ## Steps -/

/-- The kind with the step taken in its text, if it has one; unless `all` is set, in blank text
only. -/
def NodeKind.stepped (all : Bool) (step : List Char → List Char) : NodeKind → NodeKind
  | .text content =>
    .text (if all || allBlank content.toList then String.ofList (step content.toList) else content)
  | kind => kind

def Node.stepped (all : Bool) (step : List Char → List Char) (node : Node) : Node :=
  { node with kind := node.kind.stepped all step }

theorem NodeKind.walkChildren_stepped (kind : NodeKind) :
    (kind.stepped all step).walkChildren = kind.walkChildren := by
  cases kind <;> rfl

theorem NodeKind.shape_stepped (kind : NodeKind) : (kind.stepped all step).shape = kind.shape := by
  cases kind <;> rfl

theorem NodeKind.stepped_eq_self {kind : NodeKind} (noText : kind.shape ≠ .text) :
    kind.stepped all step = kind := by
  cases kind with
  | text => exact absurd rfl noText
  | _ => rfl

/-- `after` is `before` with the step taken in each text among the nodes. -/
structure Tree.SteppedAt (nodes : NodeId → Prop) (all : Bool) (step : List Char → List Char)
    (before after : Tree) : Prop where
  inside : ∀ id, nodes id → after.get? id = (before.get? id).map (Node.stepped all step)
  outside : ∀ id, ¬ nodes id → after.get? id = before.get? id

namespace Tree.SteppedAt

variable {nodes nodes' : NodeId → Prop} {before middle after : Tree}

theorem congr (same : ∀ id, nodes id ↔ nodes' id)
    (stepped : before.SteppedAt nodes all step after) : before.SteppedAt nodes' all step after :=
  ⟨fun id member => stepped.inside id ((same id).mpr member),
    fun id other => stepped.outside id fun member => other ((same id).mp member)⟩

/-- There is one tree in which the step has been taken. -/
theorem unique {after' : Tree} (stepped : before.SteppedAt nodes all step after)
    (stepped' : before.SteppedAt nodes all step after') : after = after' := by
  refine ext_get? fun id => ?_
  by_cases member : nodes id
  · rw [stepped.inside id member, stepped'.inside id member]
  · rw [stepped.outside id member, stepped'.outside id member]

/-- A step that undoes all traces of an earlier one. -/
theorem absorb (stepped : before.SteppedAt nodes all step middle)
    (stepped' : middle.SteppedAt nodes all' step' after)
    (absorbs : ∀ kind : NodeKind,
      (kind.stepped all step).stepped all' step' = kind.stepped all' step') :
    before.SteppedAt nodes all' step' after where
  inside := by
    intro id member
    rw [stepped'.inside id member, stepped.inside id member, Option.map_map]
    refine congrArg (Option.map · (before.get? id)) (funext fun node => ?_)
    exact congrArg (Node.mk · node.parent) (absorbs node.kind)
  outside := fun id other => (stepped'.outside id other).trans (stepped.outside id other)

theorem kind?_inside (stepped : before.SteppedAt nodes all step after) {id : NodeId}
    (member : nodes id) : after.kind? id = (before.kind? id).map (NodeKind.stepped all step) := by
  rw [kind?, kind?, stepped.inside id member, Option.map_map, Option.map_map]
  rfl

theorem kind?_outside (stepped : before.SteppedAt nodes all step after) {id : NodeId}
    (other : ¬ nodes id) : after.kind? id = before.kind? id := by
  rw [kind?, kind?, stepped.outside id other]

/-- What does not look into texts is not changed. -/
theorem view_eq {α : Type} (stepped : before.SteppedAt nodes all step after)
    (view : Option NodeKind → α)
    (blind : ∀ kind : NodeKind, view (some (kind.stepped all step)) = view (some kind))
    (id : NodeId) : view (after.kind? id) = view (before.kind? id) := by
  by_cases member : nodes id
  · rw [stepped.kind?_inside member]
    cases before.kind? id with
    | none => rfl
    | some kind => exact blind kind
  · rw [stepped.kind?_outside member]

theorem walkChildren_eq (stepped : before.SteppedAt nodes all step after) (id : NodeId) :
    after.walkChildren id = before.walkChildren id :=
  stepped.view_eq (fun kind : Option NodeKind => (kind.map NodeKind.walkChildren).getD [])
    (fun kind => by rw [Option.map_some, Option.map_some, kind.walkChildren_stepped]) id

/-- The same nodes are in view. -/
theorem visible_iff (stepped : before.SteppedAt nodes all step after) {id : NodeId} :
    after.Visible id ↔ before.Visible id := by
  have expression (id : NodeId) : after.isExpression id = before.isExpression id :=
    stepped.view_eq (Option.any fun kind : NodeKind => kind.shape = .expression)
      (fun kind => by rw [Option.any_some, Option.any_some, kind.shape_stepped]) id
  have shows : after.Shows = before.Shows := by
    funext holder held
    rw [Shows, Shows, Holds, Holds, expression, stepped.walkChildren_eq]
  rw [Visible, Visible, shows]

end Tree.SteppedAt

namespace Tree

variable {tree : Tree} {id : NodeId} {kind : NodeKind}

/-- A step in one node. -/
theorem steppedAt_setKind (known : tree.kind? id = some kind) :
    tree.SteppedAt (· = id) all step (tree.setKind id (kind.stepped all step)) where
  inside := by
    rintro other rfl
    obtain ⟨node, slot, rfl⟩ := exists_of_kind? known
    rw [get?_setKind, if_pos rfl, slot]
    rfl
  outside := by
    intro other differ
    rw [get?_setKind, if_neg (Ne.symm differ)]

/-- A node that the step does not change. -/
theorem steppedAt_self (same : ∀ kind ∈ tree.kind? id, kind.stepped all step = kind) :
    tree.SteppedAt (· = id) all step tree where
  inside := by
    rintro other rfl
    cases slot : tree.get? other with
    | none => rfl
    | some node => rw [Option.map_some, Node.stepped, same node.kind (kind?_of_get? slot)]
  outside := fun _ _ => rfl

end Tree

/-- Changing the text of a node takes the step in it. -/
theorem changeText_steppedAt {tree after : Tree} {id : NodeId}
    (outcome : (if all || tree.isBlankText id then changeText step id tree else .ok () tree) =
      .ok () after) : tree.SteppedAt (· = id) all step after := by
  cases text : tree.textContent? id with
  | none =>
    obtain rfl : tree = after := by
      rw [changeText, Edit.get_bind, text] at outcome
      split at outcome
      · exact (EStateM.Result.ok.inj outcome).2
      · exact (EStateM.Result.ok.inj outcome).2
    refine Tree.steppedAt_self fun kind known => NodeKind.stepped_eq_self fun isText => ?_
    rw [Tree.textContent?, known] at text
    cases kind with
    | text => cases text
    | _ => cases isText
  | some content =>
    have known := Tree.kind?_of_textContent? text
    have blank : tree.isBlankText id = allBlank content.toList := by
      rw [Tree.isBlankText, text, Option.any_some]
    have taken : (NodeKind.text content).stepped all step = .text (
        if all || tree.isBlankText id then String.ofList (step content.toList) else content) := by
      rw [NodeKind.stepped, blank]
    split at outcome
    · rw [if_pos ‹_›] at taken
      rw [changeText, Edit.get_bind, text] at outcome
      cases outcome.symm.trans (Edit.setText_of_text known _)
      rw [← taken]
      exact Tree.steppedAt_setKind known
    · rw [if_neg ‹_›] at taken
      cases outcome
      refine Tree.steppedAt_self fun kind isKind => ?_
      obtain rfl := Option.some.inj (known.symm.trans isKind)
      exact taken

/-! ## Walks -/

section

variable {name : String} {edit : NodeId → Edit Unit}
  (edits : ∀ id tree, edit id tree =
    if all || tree.isBlankText id then changeText step id tree else .ok () tree)

include edits

/-- In the course of a walk the step has been taken in the texts that have been visited. -/
theorem Visits.steppedAt {allowance : Allowance} {start tree : Tree} {log : Log}
    (visits : Visits (Pass.ofEdit name edit) allowance start log tree) :
    start.SteppedAt (· ∈ log.nodes) all step tree := by
  induction visits with
  | start => exact ⟨nofun, fun _ _ => rfl⟩
  | @visit log before after id descent made wf seen new outcome effect ih =>
    have edited := (Pass.visit_ofEdit.mp outcome).2
    rw [edits] at edited
    have one := changeText_steppedAt edited
    refine ⟨fun other member => ?_, fun other differ => ?_⟩
    · rcases List.mem_cons.mp member with rfl | earlier
      · rw [one.inside _ rfl, ih.outside _ new]
      · have differ : other ≠ id := by
          rintro rfl
          exact new earlier
        rw [one.outside other differ, ih.inside other earlier]
    · obtain ⟨differ, later⟩ := not_or.mp (mt List.mem_cons.mpr differ)
      rw [one.outside other differ, ih.outside other later]

/-- **A pass over single texts** takes its step once in each text in view, and does nothing else. -/
theorem exists_steppedAt (isLocal : (Pass.ofEdit name edit).Local .none) {start : Tree}
    (wf : start.WellFormed) : ∃ final, (Pass.ofEdit name edit).walk start = .ok () final ∧
      final.WellFormed ∧ start.SteppedAt start.Visible all step final := by
  obtain ⟨log, final, walked, visits, wf', frontier⟩ := isLocal.exists_walk wf
  have stepped := visits.steppedAt edits
  have enters : ∀ entry ∈ log, entry.2 = .enter := by
    rintro ⟨id, descent⟩ member
    obtain ⟨_, _, _, _, -, -, -, -, outcome, -⟩ := visits.split member
    exact (Pass.visit_ofEdit.mp outcome).1
  refine ⟨final, walked, wf', stepped.congr fun id => ?_⟩
  rw [← stepped.visible_iff]
  constructor
  · exact fun member => frontier.visible id (List.mem_append_left _ member)
  · exact fun visible => List.mem_map_of_mem (frontier.mem_of_visible enters visible)

end

theorem exists_verticalWhitespace_steppedAt (all : Bool) {start : Tree} (wf : start.WellFormed) :
    ∃ final, (verticalWhitespace all).walk start = .ok () final ∧ final.WellFormed ∧
      start.SteppedAt start.Visible all keepLastBreak final :=
  exists_steppedAt (fun id tree => by rw [Edit.get_bind]; split <;> rfl)
    (verticalWhitespace_local all) wf

theorem exists_compress_steppedAt {start : Tree} (wf : start.WellFormed) :
    ∃ final, compress.walk start = .ok () final ∧ final.WellFormed ∧
      start.SteppedAt start.Visible true collapseBlanks final := by
  have edits (id : NodeId) (tree : Tree) : changeText collapseBlanks id tree =
      if true || tree.isBlankText id then changeText collapseBlanks id tree else .ok () tree := rfl
  exact exists_steppedAt edits compress_local wf

end Templating.Markup
