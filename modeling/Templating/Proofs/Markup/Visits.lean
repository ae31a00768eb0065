import Mathlib.Data.List.Perm.Subperm
import Templating.Proofs.Markup.Frontier
import Templating.Proofs.Markup.RunKept

/-!
# Walks of local passes

A pass is local when each of its visits succeeds, touches nothing but the footprint of the visited
node and does no more to its attributes than the pass is allowed to. `Visits` lists the visits that
a walk has made and the tree that they left.

* `Visits.size_le`: a walk adds at most two slots for each slot of an attribute run.
* `Pass.Local.exists_walk`: so every walk of a local pass over a well-formed tree ends, within its
  limit, without an error and in a well-formed tree.
* `Visits.preserved`, `Visits.runKept`: what is left of the tree, and of each attribute run.
-/

namespace Templating.Markup

namespace Tree

/-- The slots of an element's attribute run: the run and what stands in it. -/
def runSlots (tree : Tree) (id : NodeId) : List NodeId :=
  match tree.attributeRun? id with
  | some run => run :: tree.walkChildren run
  | none => []

theorem runSlots_of_attributeRun? {tree : Tree} {id run : NodeId}
    (element : tree.attributeRun? id = some run) :
    tree.runSlots id = run :: tree.walkChildren run := by
  rw [runSlots, element]

theorem exists_of_mem_runSlots {tree : Tree} {id slot : NodeId} (member : slot ∈ tree.runSlots id) :
    ∃ run, tree.attributeRun? id = some run ∧ (slot = run ∨ tree.Holds run slot) := by
  cases element : tree.attributeRun? id with
  | none =>
    rw [runSlots, element] at member
    cases member
  | some run =>
    rw [runSlots_of_attributeRun? element] at member
    exact ⟨run, rfl, List.mem_cons.mp member⟩

section

variable {tree : Tree} (wf : tree.WellFormed) {ids : List NodeId} (distinct : ids.Nodup)
  (reach : ∀ id ∈ ids, ∀ run, tree.attributeRun? id = some run → tree.Reachable id)

include wf

theorem nodup_runSlots {id : NodeId}
    (reach : ∀ run, tree.attributeRun? id = some run → tree.Reachable id) :
    (tree.runSlots id).Nodup := by
  cases element : tree.attributeRun? id with
  | none =>
    rw [runSlots, element]
    exact List.nodup_nil
  | some run =>
    have reach := reach run element
    rw [runSlots_of_attributeRun? element]
    exact List.nodup_cons.mpr ⟨wf.not_holds_run reach element reach element,
      wf.nodup_walkChildren (reach.child (holds_attributeRun? element).2)⟩

/-- A slot of an attribute run belongs to one element. -/
theorem eq_of_mem_runSlots {id id' slot : NodeId}
    (reach : ∀ run, tree.attributeRun? id = some run → tree.Reachable id)
    (reach' : ∀ run, tree.attributeRun? id' = some run → tree.Reachable id')
    (member : slot ∈ tree.runSlots id) (member' : slot ∈ tree.runSlots id') : id = id' := by
  obtain ⟨run, element, isRun⟩ := exists_of_mem_runSlots member
  obtain ⟨run', element', isRun'⟩ := exists_of_mem_runSlots member'
  have reach := reach run element
  have reach' := reach' run' element'
  have holds := (holds_attributeRun? element).2
  have holds' := (holds_attributeRun? element').2
  rcases isRun with rfl | item
  · rcases isRun' with rfl | item'
    · exact wf.holder_unique reach holds reach' holds'
    · exact absurd item' (wf.not_holds_run reach element reach' element')
  · rcases isRun' with rfl | item'
    · exact absurd item (wf.not_holds_run reach' element' reach element)
    · obtain rfl := wf.holder_unique (reach.child holds) item (reach'.child holds') item'
      exact wf.holder_unique reach holds reach' holds'

include distinct reach

/-- Elements share no slot of their attribute runs. -/
theorem nodup_flatMap_runSlots : (ids.flatMap tree.runSlots).Nodup := by
  rw [List.nodup_flatMap]
  refine ⟨fun id member => nodup_runSlots wf (reach id member), ?_⟩
  refine distinct.imp_of_mem fun {id id'} member member' other => ?_
  intro slot inFirst inSecond
  exact other (eq_of_mem_runSlots wf (reach id member) (reach id' member') inFirst inSecond)

end

/-- Distinct nodes of a tree are no more than its slots. -/
theorem length_le_of_nodup {ids : List NodeId} (bound : Nat) (distinct : ids.Nodup)
    (inside : ∀ id ∈ ids, id < bound) : ids.length ≤ bound := by
  have subset : ids ⊆ List.range bound := fun id member => List.mem_range.mpr (inside id member)
  have := (List.subperm_of_subset distinct subset).length_le
  rwa [List.length_range] at this

/-- The attribute runs of a tree have no more slots than the tree. -/
theorem length_flatMap_runSlots_le {tree : Tree} (wf : tree.WellFormed) {ids : List NodeId}
    (distinct : ids.Nodup)
    (reach : ∀ id ∈ ids, ∀ run, tree.attributeRun? id = some run → tree.Reachable id) :
    (ids.flatMap tree.runSlots).length ≤ tree.size := by
  refine length_le_of_nodup tree.size (nodup_flatMap_runSlots wf distinct reach) ?_
  intro slot member
  obtain ⟨id, inIds, inSlots⟩ := List.mem_flatMap.mp member
  obtain ⟨run, element, isRun⟩ := exists_of_mem_runSlots inSlots
  have reached := reach id inIds run element
  have holds := (holds_attributeRun? element).2
  rcases isRun with rfl | item
  · exact wf.lt_size_of_holds reached holds
  · exact wf.lt_size_of_holds (reached.child holds) item

end Tree

/-- What a pass may do to the attributes of an element: those that it may add, and the one to which
it may give another value. -/
structure Allowance where
  added : Tree → NodeId → List NodeKind
  rewritten : Tree → NodeId → Option NodeId
  /-- Only attributes that are missing are added, whatever else has been changed. -/
  added_sublist : ∀ {before after : Tree} {id : NodeId}, before.Retouched after → id < before.size →
    (∀ name, after.findAttribute id name = none → before.findAttribute id name = none) →
    (added after id).Sublist (added before id)
  /-- The rewritten attribute is one that is found by its name. -/
  rewritten_eq : ∀ {before after : Tree} {id : NodeId}, before.Retouched after → id < before.size →
    (∀ name, after.findAttribute id name = before.findAttribute id name) →
    rewritten after id = rewritten before id
  rewritten_mem : ∀ {tree : Tree} {id item : NodeId}, item ∈ rewritten tree id →
    item ∈ tree.attributeChildren id

/-- The allowance of a pass that rewrites no attribute. -/
def Allowance.adding (added : Tree → NodeId → List NodeKind)
    (added_sublist : ∀ {before after : Tree} {id : NodeId}, before.Retouched after →
      id < before.size →
      (∀ name, after.findAttribute id name = none → before.findAttribute id name = none) →
      (added after id).Sublist (added before id)) : Allowance where
  added := added
  rewritten := fun _ _ => .none
  added_sublist := added_sublist
  rewritten_eq := fun _ _ _ => rfl
  rewritten_mem := nofun

/-- The allowance of a pass that adds and rewrites no attribute. -/
def Allowance.none : Allowance :=
  .adding (fun _ _ => []) fun _ _ _ => .slnil

/-- `after` is `before` with the footprint of `id` changed by a visit that adds at most two slots
for each slot of the attribute run and does no more to its attributes than it is allowed to. -/
structure Tree.Effect (before : Tree) (id : NodeId) (added : List NodeKind)
    (rewritten : Option NodeId) (after : Tree) : Prop extends Tree.Touched before id after where
  growth : after.size ≤ before.size + 2 * (before.runSlots id).length
  runKept : ∀ run, before.attributeRun? id = some run →
    Tree.RunKept before after id added rewritten

/-- A pass whose visits of visible nodes succeed and do what the pass is allowed to. -/
structure Pass.Local (pass : Pass) (allowance : Allowance) : Prop where
  tree_eq : ∀ tree, pass.tree tree = tree
  visit : ∀ tree id, tree.WellFormed → tree.Visible id → ∃ descent after,
    pass.visit id tree = .ok descent after ∧
      tree.Effect id (allowance.added tree id) (allowance.rewritten tree id) after

/-- A visit that changes nothing is within every allowance. -/
theorem Tree.Effect.unchanged {tree : Tree} {id : NodeId} (wf : tree.WellFormed)
    (reach : tree.Reachable id) (added : List NodeKind) (rewritten : Option NodeId) :
    tree.Effect id added rewritten tree where
  toTouched := .refl wf reach
  growth := Nat.le_add_right _ _
  runKept := fun _ _ => (Tree.RunKept.refl wf reach).spare.weaken (List.nil_sublist _)

/-- A pass is local when the edit that it makes at each node is. -/
theorem Pass.Local.of_descent {name : String} {edit : NodeId → Edit Descent} {allowance : Allowance}
    (visit : ∀ tree id, tree.WellFormed → tree.Visible id → ∃ descent after,
      edit id tree = .ok descent after ∧
        tree.Effect id (allowance.added tree id) (allowance.rewritten tree id) after) :
    (Pass.ofDescent name edit).Local allowance where
  tree_eq := fun _ => rfl
  visit := by
    intro tree id wf visible
    obtain ⟨descent, after, outcome, effect⟩ := visit tree id wf visible
    refine ⟨descent, after, ?_, effect⟩
    simp only [Pass.ofDescent, outcome]

theorem Pass.Local.of_edit {name : String} {edit : NodeId → Edit Unit} {allowance : Allowance}
    (visit : ∀ tree id, tree.WellFormed → tree.Visible id → ∃ after,
      edit id tree = .ok () after ∧
        tree.Effect id (allowance.added tree id) (allowance.rewritten tree id) after) :
    (Pass.ofEdit name edit).Local allowance := by
  refine .of_descent fun tree id wf visible => ?_
  obtain ⟨after, outcome, effect⟩ := visit tree id wf visible
  refine ⟨.enter, after, ?_, effect⟩
  simp only [bind, EStateM.bind, outcome]
  rfl

/-- The visits that a local pass makes from `start`, and the tree that they leave. -/
inductive Visits (pass : Pass) (allowance : Allowance) (start : Tree) : Log → Tree → Prop
  | start : Visits pass allowance start [] start
  | visit {log : Log} {before after : Tree} {id : NodeId} {descent : Descent} :
    Visits pass allowance start log before → before.WellFormed → before.Visible id →
    id ∉ log.nodes → pass.visit id before = .ok descent after →
    before.Effect id (allowance.added before id) (allowance.rewritten before id) after →
    Visits pass allowance start ((id, descent) :: log) after

/-! ## What visits keep -/

namespace Visits

variable {pass : Pass} {allowance : Allowance} {start tree : Tree} {log : Log} {id : NodeId}

theorem nodup_nodes (visits : Visits pass allowance start log tree) : log.nodes.Nodup := by
  induction visits with
  | start => exact List.nodup_nil
  | visit _ _ _ new _ _ ih => exact List.nodup_cons.mpr ⟨new, ih⟩

/-- **What a walk preserves.** -/
theorem preserved (visits : Visits pass allowance start log tree) : Tree.Preserved start tree := by
  induction visits with
  | start => exact .refl start
  | visit _ wf visible _ _ effect ih => exact ih.trans (effect.preserved wf visible)

/-- The visited nodes that were there at the start were in view at the start. -/
theorem visible_start (visits : Visits pass allowance start log tree) (member : id ∈ log.nodes)
    (inside : id < start.size) : start.Visible id := by
  induction visits with
  | start => cases member
  | visit earlier _ seen _ _ _ ih =>
    rcases List.mem_cons.mp member with rfl | member
    · exact earlier.preserved.visible_of_lt _ seen inside
    · exact ih member

/-- A run keeps its items until its element is visited. -/
theorem walkChildren_eq (visits : Visits pass allowance start log tree)
    (untouched : ∀ element ∈ log.nodes, start.attributeRun? element ≠ some id) :
    tree.walkChildren id = start.walkChildren id := by
  induction visits with
  | start => rfl
  | @visit log before after element descent earlier _ _ _ _ effect ih =>
    have notRun : before.attributeRun? element ≠ some id := by
      rw [earlier.preserved.attributeRun?_eq]
      exact untouched element List.mem_cons_self
    rw [effect.walkChildren_eq id notRun,
      ih fun element member => untouched element (List.mem_cons_of_mem _ member)]

/-- An element that is still to be visited has the run that it had at the start. -/
theorem walkChildren_run_eq (visits : Visits pass allowance start log tree) (wf : start.WellFormed)
    {run : NodeId} (visible : tree.Visible id) (new : id ∉ log.nodes)
    (element : start.attributeRun? id = some run) :
    tree.walkChildren run = start.walkChildren run := by
  have visible' :=
    visits.preserved.visible_of_lt id visible (Tree.lt_size_of_attributeRun? element)
  refine visits.walkChildren_eq fun other member element' => ?_
  have seen := visits.visible_start member (Tree.lt_size_of_attributeRun? element')
  have same := wf.holder_unique seen.reachable (Tree.holds_attributeRun? element').2
    visible'.reachable (Tree.holds_attributeRun? element).2
  exact new (same ▸ member)

theorem runSlots_eq (visits : Visits pass allowance start log tree) (wf : start.WellFormed)
    (visible : tree.Visible id) (new : id ∉ log.nodes) :
    tree.runSlots id = start.runSlots id := by
  have sameRun := visits.preserved.attributeRun?_eq id
  cases element : start.attributeRun? id with
  | none => rw [Tree.runSlots, Tree.runSlots, sameRun, element]
  | some run =>
    rw [Tree.runSlots_of_attributeRun? element, Tree.runSlots_of_attributeRun?
      (sameRun.trans element), visits.walkChildren_run_eq wf visible new element]

/-- Visits add at most two slots for each slot of an attribute run that they have come to. -/
theorem size_le_add (visits : Visits pass allowance start log tree) (wf : start.WellFormed) :
    tree.size ≤ start.size + 2 * (log.nodes.flatMap start.runSlots).length := by
  induction visits with
  | start => exact Nat.le_add_right _ _
  | @visit log before after id descent earlier _ visible new _ effect ih =>
    have growth := effect.growth
    rw [earlier.runSlots_eq wf visible new] at growth
    have split : (Log.nodes ((id, descent) :: log)).flatMap start.runSlots =
        start.runSlots id ++ log.nodes.flatMap start.runSlots := rfl
    rw [split, List.length_append]
    omega

/-- **Bound on the arena.** A walk at most triples the number of slots. -/
theorem size_le (visits : Visits pass allowance start log tree) (wf : start.WellFormed) :
    tree.size ≤ 3 * start.size := by
  have runs := Tree.length_flatMap_runSlots_le wf visits.nodup_nodes
    fun id member run element =>
      (visits.visible_start member (Tree.lt_size_of_attributeRun? element)).reachable
  have grown := visits.size_le_add wf
  omega

/-- **What becomes of an attribute run.** Until its element is visited it is kept, and then the pass
has done no more to it than it was allowed to at the start. -/
theorem runKept (visits : Visits pass allowance start log tree) (wf : start.WellFormed)
    {run : NodeId} (visible : start.Visible id) (element : start.attributeRun? id = some run) :
    start.RunKept tree id (allowance.added start id) (allowance.rewritten start id) ∧
      (id ∉ log.nodes → start.RunKept tree id [] none) := by
  have inside := Tree.lt_size_of_attributeRun? element
  induction visits with
  | start =>
    have same := Tree.RunKept.refl wf visible.reachable
    exact ⟨same.spare.weaken (List.nil_sublist _), fun _ => same⟩
  | @visit log before after other descent earlier wf' seen new _ effect ih =>
    have preserved := earlier.preserved
    have element' := (preserved.attributeRun?_eq id).trans element
    have old : ∀ item ∈ allowance.rewritten start id, item < start.size := fun item member =>
      wf.lt_size_of_mem_attributeChildren visible.reachable (allowance.rewritten_mem member)
    by_cases same : id = other
    · subst same
      have kept := ih.2 new
      have items := preserved.attributeChildren_eq wf visible.reachable element
        (earlier.walkChildren_run_eq wf seen new element)
      have found := preserved.findAttribute_eq wf visible.reachable items
      have last := effect.runKept run element'
      rw [allowance.rewritten_eq preserved.toRetouched inside found] at last
      have fewer := allowance.added_sublist preserved.toRetouched inside
        fun name missing => (found name).symm.trans missing
      exact ⟨kept.spare.trans (last.weaken fewer) preserved.size_le old,
        fun unvisited => absurd List.mem_cons_self unvisited⟩
    · have shows := Tree.holds_attributeRun? element
      have inView := preserved.visible id inside visible (Tree.isBlankText_eq_false shows.2)
      have steady := effect.runKept_of_ne wf' seen.reachable inView.reachable same element'
      refine ⟨?_, fun unvisited => ?_⟩
      · have all := ih.1.trans steady.spare preserved.size_le old
        rwa [List.append_nil] at all
      · exact (ih.2 fun member => unvisited (List.mem_cons_of_mem _ member)).trans steady
          preserved.size_le nofun

end Visits

/-! ## Whole walks -/

/-- No more nodes are visited and pending than the tree has slots. -/
theorem Frontier.length_le {tree : Tree} {log : Log} {stack : List NodeId}
    (frontier : Frontier tree log stack) (wf : tree.WellFormed) :
    log.length + stack.length ≤ tree.size + 1 := by
  have bound := Tree.length_le_of_nodup (tree.size + 1) frontier.nodup fun id member => by
    by_cases isRoot : id = Tree.root
    · rw [isRoot]
      exact Nat.succ_pos _
    · have reach := (frontier.visible id member).reachable
      exact Nat.lt_succ_of_lt (wf.lt_size_of_reachable reach isRoot)
  rwa [List.length_append, Log.nodes, List.length_map] at bound

namespace Pass.Local

variable {pass : Pass} {allowance : Allowance} {start : Tree}

/-- A visit keeps what a walk keeps beside its stack. -/
theorem visit_frontier (isLocal : pass.Local allowance) {before after : Tree} {log : Log}
    {id : NodeId} {rest : List NodeId} {descent : Descent}
    (frontier : Frontier before log (id :: rest)) (wf : before.WellFormed)
    (touched : before.Touched id after) :
    Frontier after ((id, descent) :: log) (pass.entered after id descent ++ rest) := by
  have rearranged := touched.rearranged wf frontier.head_visible.reachable
  rw [← isLocal.tree_eq before] at frontier rearranged wf
  rw [← isLocal.tree_eq after] at rearranged
  have visited : Frontier (pass.tree after) ((id, descent) :: log)
      (pass.entered after id descent ++ rest) := frontier.visit wf.unshared rearranged
  rwa [isLocal.tree_eq] at visited

/-- A walk with enough visits left comes to its end. -/
theorem exists_walkStack (isLocal : pass.Local allowance) (wf : start.WellFormed) :
    ∀ (visits : Nat) (stack : List NodeId) (log : Log) (tree : Tree),
      Visits pass allowance start log tree → tree.WellFormed → Frontier tree log stack →
      3 * start.size + 1 ≤ log.length + visits →
      ∃ log' final, pass.walkStack visits stack tree = .ok () final ∧
        Visits pass allowance start log' final ∧ final.WellFormed ∧ Frontier final log' [] := by
  intro visits
  induction visits with
  | zero =>
    intro stack log tree made wf' frontier enough
    have count := frontier.length_le wf'
    have size := made.size_le wf
    cases stack with
    | nil => exact ⟨log, tree, rfl, made, wf', frontier⟩
    | cons id rest =>
      rw [List.length_cons] at count
      omega
  | succ visits ih =>
    intro stack log tree made wf' frontier enough
    cases stack with
    | nil => exact ⟨log, tree, rfl, made, wf', frontier⟩
    | cons id rest =>
      have seen := frontier.head_visible
      obtain ⟨descent, after, outcome, effect⟩ := isLocal.visit tree id wf' seen
      have made' := Visits.visit made wf' seen frontier.head_not_mem outcome effect
      obtain ⟨log', final, walked, result⟩ := ih (pass.entered after id descent ++ rest)
        ((id, descent) :: log) after made' (effect.wellFormed wf')
        (isLocal.visit_frontier frontier wf' effect.toTouched) (by rw [List.length_cons]; omega)
      exact ⟨log', final, (Visitor.walkStack_of_ok outcome visits rest).trans walked, result⟩

/-- **Walks end.** A local pass walks every well-formed tree to its end, within the limit on visits
and without an error, and leaves a well-formed tree. -/
theorem exists_walk (isLocal : pass.Local allowance) (wf : start.WellFormed) :
    ∃ log final, pass.walk start = .ok () final ∧
      Visits pass allowance start log final ∧ final.WellFormed ∧ Frontier final log [] := by
  have enough : 3 * start.size + 1 ≤ ([] : Log).length + Visitor.visitLimit start := by
    have : 1 ≤ Nat.pow 2 62 := Nat.one_le_two_pow
    simp only [Visitor.visitLimit, List.length_nil]
    omega
  have result := isLocal.exists_walkStack wf (Visitor.visitLimit start) [Tree.root] [] start
    .start wf (.start start) enough
  rwa [Visitor.walk, isLocal.tree_eq]

end Pass.Local

end Templating.Markup
