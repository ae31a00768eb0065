import Templating.Proofs.Markup.Visits

/-!
# The moment of a visit

What a finished walk did to a node is seen at the one moment when it visited the node: before it and
after it the walk keeps the attribute run of the node (`Tree.SameRun`).

* `Visits.split`: the visits before and after a visit.
* `Visits.exists_moment`: the trees before and after the visit of an element, with the run that it
  had at the start and the run that it has at the end.
* `Pass.Local.exists_finished`: a walk that prunes nothing has visited all that is in view.
* `Pass.Local.walk_eq_self`: a walk whose visits change nothing leaves the tree as it is.
-/

namespace Templating.Markup

/-! ## Runs that stay -/

/-- The attribute run of `id` has the items that it had, and its attributes are unchanged. -/
structure Tree.SameRun (before after : Tree) (id : NodeId) : Prop where
  items : after.attributeChildren id = before.attributeChildren id
  kinds : ∀ item ∈ before.runAttributes id, after.kind? item = before.kind? item

namespace Tree.Preserved

variable {before after : Tree} {holder held : NodeId}

/-- What was there before is held by the node that held it. -/
theorem holds_of_lt (preserved : before.Preserved after) (wf : before.WellFormed)
    (wf' : after.WellFormed) (visible : after.Visible holder) (shows : after.Shows holder held)
    (inside : held < before.size) : before.Holds holder held := by
  have seen := visible.child shows
  have notRoot : held ≠ Tree.root := by
    rintro rfl
    exact wf'.root_free holder visible.reachable shows.2
  obtain ⟨other, seen', shows'⟩ :=
    (preserved.visible_of_lt held seen inside).exists_shows notRoot
  have named := wf.parent?_of_holds seen'.reachable shows'.2
  rw [← preserved.parent?_eq inside, wf'.parent?_of_holds visible.reachable shows.2] at named
  obtain rfl := Option.some.inj named
  exact shows'.2

/-- An element in view was one in view before. -/
theorem element (preserved : before.Preserved after) {id run : NodeId} (visible : after.Visible id)
    (element : after.attributeRun? id = some run) :
    before.Visible id ∧ before.attributeRun? id = some run := by
  rw [preserved.attributeRun?_eq] at element
  exact ⟨preserved.visible_of_lt id visible (Tree.lt_size_of_attributeRun? element), element⟩

/-- An element in view stays one. -/
theorem element_after (preserved : before.Preserved after) {id run : NodeId}
    (visible : before.Visible id) (element : before.attributeRun? id = some run) :
    after.Visible id ∧ after.attributeRun? id = some run := by
  have inside := Tree.lt_size_of_attributeRun? element
  have dense := Tree.isBlankText_eq_false (Tree.holds_attributeRun? element).2
  exact ⟨preserved.visible id inside visible dense, (preserved.attributeRun?_eq id).trans element⟩

end Tree.Preserved

namespace Visits

variable {pass : Pass} {allowance : Allowance} {start tree : Tree} {log : Log} {id run : NodeId}
  {descent : Descent}

/-- The run of an element that has not been visited is kept. -/
theorem sameRun (visits : Visits pass allowance start log tree) (wf : start.WellFormed)
    (visible : start.Visible id) (element : start.attributeRun? id = some run)
    (new : id ∉ log.nodes) : start.SameRun tree id where
  items := by
    have seen := (visits.preserved.element_after visible element).1
    exact visits.preserved.attributeChildren_eq wf visible.reachable element
      (visits.walkChildren_run_eq wf seen new element)
  kinds := fun item member =>
    ((visits.runKept wf visible element).2 new).kind?_eq item member (Option.not_mem_none item)

/-- **The visits around a visit.** Those after it are visits from the tree that it left. -/
theorem split (visits : Visits pass allowance start log tree) (member : (id, descent) ∈ log) :
    ∃ earlier later before after, log = later ++ (id, descent) :: earlier ∧
      Visits pass allowance start earlier before ∧ before.WellFormed ∧ before.Visible id ∧
      pass.visit id before = .ok descent after ∧ before.Touched id after ∧
      Visits pass allowance after later tree := by
  induction visits with
  | start => cases member
  | @visit log before after other descent' made wf seen new outcome effect ih =>
    rcases List.mem_cons.mp member with same | member
    · obtain ⟨rfl, rfl⟩ := Prod.mk.inj same
      exact ⟨log, [], before, after, rfl, made, wf, seen, outcome, effect.toTouched, .start⟩
    · obtain ⟨earlier, later, before', after', rfl, made', wf', seen', outcome', touched, rest⟩ :=
        ih member
      have new' : other ∉ Log.nodes later := by
        intro visited
        refine new ?_
        rw [Log.nodes, List.map_append]
        exact List.mem_append_left _ visited
      exact ⟨earlier, (other, descent') :: later, before', after', rfl, made', wf', seen', outcome',
        touched, rest.visit wf seen new' outcome effect⟩

/-- **The moment of a visit**: the trees before and after the visit of an element. Its run is,
before the visit, the run that it had at the start and, after it, the run that it has in the end. -/
structure Moment (pass : Pass) (allowance : Allowance) (start : Tree) (id : NodeId)
    (descent : Descent) (final before after : Tree) (later : Log) : Prop where
  preserved : start.Preserved before
  wellFormed : before.WellFormed
  visible : before.Visible id
  sameRun : start.SameRun before id
  visit : pass.visit id before = .ok descent after
  touched : before.Touched id after
  wellFormed' : after.WellFormed
  visible' : after.Visible id
  rest : Visits pass allowance after later final
  sameRun' : after.SameRun final id

/-- Every visit of an element has its moment. -/
theorem exists_moment (visits : Visits pass allowance start log tree) (wf : start.WellFormed)
    (member : (id, descent) ∈ log) (element : start.attributeRun? id = some run) :
    ∃ before after later, Moment pass allowance start id descent tree before after later := by
  obtain ⟨earlier, later, before, after, rfl, made, wf', seen, outcome, touched, rest⟩ :=
    visits.split member
  have distinct := visits.nodup_nodes
  rw [Log.nodes, List.map_append, List.map_cons, List.nodup_append] at distinct
  have newEarlier : id ∉ Log.nodes earlier := (List.nodup_cons.mp distinct.2.1).1
  have newLater : id ∉ Log.nodes later := fun visited =>
    distinct.2.2 id visited id List.mem_cons_self rfl
  have inside := Tree.lt_size_of_attributeRun? element
  have visible := made.preserved.visible_of_lt id seen inside
  have element' := (made.preserved.attributeRun?_eq id).trans element
  have seen' := ((touched.preserved wf' seen).element_after seen element').1
  exact ⟨before, after, later,
    { preserved := made.preserved
      wellFormed := wf'
      visible := seen
      sameRun := made.sameRun wf visible element newEarlier
      visit := outcome
      touched := touched
      wellFormed' := touched.wellFormed wf'
      visible' := seen'
      rest := rest
      sameRun' := rest.sameRun (touched.wellFormed wf') seen'
        ((touched.attributeRun?_eq id).trans element') newLater }⟩

/-- What every visit keeps, a walk keeps. -/
theorem rel_of_visit (rel : Tree → Tree → Prop) (refl : ∀ tree, rel tree tree)
    (trans : ∀ {before middle after}, rel before middle → rel middle after → rel before after)
    (visit : ∀ {before after id descent}, before.WellFormed → before.Visible id →
      pass.visit id before = .ok descent after → before.Touched id after → rel before after)
    (visits : Visits pass allowance start log tree) : rel start tree := by
  induction visits with
  | start => exact refl start
  | visit _ wf seen _ outcome effect ih => exact trans ih (visit wf seen outcome effect.toTouched)

end Visits

/-! ## Finished walks -/

/-- A finished walk that prunes nothing has visited all that is in view. -/
theorem Frontier.mem_of_visible {tree : Tree} {log : Log} {id : NodeId}
    (frontier : Frontier tree log []) (enters : ∀ entry ∈ log, entry.2 = .enter)
    (visible : tree.Visible id) : (id, .enter) ∈ log := by
  have listed : ∀ {id}, id ∈ log.nodes ++ [] → (id, Descent.enter) ∈ log := by
    intro id member
    rw [List.append_nil] at member
    obtain ⟨⟨other, descent⟩, inLog, rfl⟩ := List.mem_map.mp member
    obtain rfl : descent = .enter := enters _ inLog
    exact inLog
  induction visible with
  | refl => exact listed frontier.root_mem
  | tail _ shows ih => exact listed (frontier.closed _ ih _ shows)

namespace Pass

variable {name : String} {tree after : Tree} {id : NodeId} {descent : Descent}

theorem visit_ofDescent {edit : NodeId → Edit Descent} :
    (Pass.ofDescent name edit).visit id tree = .ok descent after ↔
      edit id tree = .ok descent after := by
  simp only [Pass.ofDescent]
  cases edit id tree with
  | ok value changed =>
    constructor
    · intro same
      cases same
      rfl
    · intro same
      cases same
      rfl
  | error fault changed => exact iff_of_false (fun same => by cases same) fun same => by cases same

theorem visit_ofEdit {edit : NodeId → Edit Unit} :
    (Pass.ofEdit name edit).visit id tree = .ok descent after ↔
      descent = .enter ∧ edit id tree = .ok () after := by
  rw [Pass.ofEdit, visit_ofDescent]
  simp only [bind, EStateM.bind]
  cases edit id tree with
  | ok value changed =>
    constructor
    · intro same
      cases same
      exact ⟨rfl, rfl⟩
    · rintro ⟨rfl, same⟩
      cases same
      rfl
  | error fault changed =>
    exact iff_of_false (fun same => by cases same) fun ⟨_, same⟩ => by cases same

end Pass

namespace Pass.Local

variable {pass : Pass} {allowance : Allowance} {start tree : Tree}

/-- **A walk that prunes nothing** visits all that is in view in the end. -/
theorem exists_finished {edit : NodeId → Edit Unit} {name : String}
    (isLocal : (Pass.ofEdit name edit).Local allowance) (wf : start.WellFormed) :
    ∃ log final, (Pass.ofEdit name edit).walk start = .ok () final ∧
      Visits (Pass.ofEdit name edit) allowance start log final ∧ final.WellFormed ∧
      ∀ id, final.Visible id → (id, .enter) ∈ log := by
  obtain ⟨log, final, walked, visits, wf', frontier⟩ := isLocal.exists_walk wf
  refine ⟨log, final, walked, visits, wf', fun id visible => frontier.mem_of_visible ?_ visible⟩
  rintro ⟨other, descent⟩ member
  obtain ⟨_, _, _, _, -, -, -, -, outcome, -⟩ := visits.split member
  exact (Pass.visit_ofEdit.mp outcome).1

/-- **A walk whose visits change nothing** leaves the tree as it is. It goes over nodes of `nodes`
only, which holds the root and what the walk goes on to from each of them. -/
theorem walk_eq_self (isLocal : pass.Local allowance) (wf : tree.WellFormed)
    (nodes : NodeId → Prop) (root : nodes Tree.root)
    (rests : ∀ id, nodes id → ∃ descent, pass.visit id tree = .ok descent tree ∧
      ∀ child ∈ pass.entered tree id descent, nodes child) :
    pass.walk tree = .ok () tree := by
  have steady : ∀ (visits : Nat) (stack : List NodeId), (∀ id ∈ stack, nodes id) →
      ∀ final, pass.walkStack visits stack tree = .ok () final → final = tree := by
    intro visits
    induction visits with
    | zero =>
      intro stack _ final walked
      cases stack with
      | nil =>
        cases walked
        rfl
      | cons id rest => cases walked
    | succ visits ih =>
      intro stack inside final walked
      cases stack with
      | nil =>
        cases walked
        rfl
      | cons id rest =>
        obtain ⟨descent, outcome, children⟩ := rests id (inside id List.mem_cons_self)
        rw [Visitor.walkStack_of_ok outcome] at walked
        refine ih _ (fun child member => ?_) final walked
        rcases List.mem_append.mp member with member | member
        · exact children child member
        · exact inside child (List.mem_cons_of_mem _ member)
  obtain ⟨log, final, walked, -⟩ := isLocal.exists_walk wf
  have same : final = tree := by
    refine steady _ [Tree.root] (fun id member => ?_) final walked
    rwa [List.mem_singleton.mp member]
  rw [walked, same]

/-- A walk whose visits of all that is in view change nothing. -/
theorem walk_eq_self_of_visible {edit : NodeId → Edit Unit} {name : String}
    (isLocal : (Pass.ofEdit name edit).Local allowance) (wf : tree.WellFormed)
    (rests : ∀ id, tree.Visible id → edit id tree = .ok () tree) :
    (Pass.ofEdit name edit).walk tree = .ok () tree := by
  refine isLocal.walk_eq_self wf tree.Visible Tree.Visible.root fun id visible => ?_
  refine ⟨.enter, Pass.visit_ofEdit.mpr ⟨rfl, rests id visible⟩, fun child member => ?_⟩
  exact visible.child (shows_of_mem_entered member).2

end Pass.Local

end Templating.Markup
