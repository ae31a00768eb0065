import Mathlib.Algebra.Group.Nat.Defs
import Templating.Proofs.Markup.Pass.Ordering

/-!
# A walk is a recursion

`Visitor.recurse` is the walk of a node as a recursion: the visit of the node, then the walks of the
children that it has after the visit. A walk with a stack makes the same visits in the same order
and ends in the same way, for any visitor, as long as the recursion ends (`Walks.walkStack` and
`Walks.forM_recurse`).

It ends when the visits of a visitor only rearrange the tree (`Rearranges`): each old node is
visited once at most, and new nodes have no children.

* `exists_walks`: such walks end, whatever is added on the way.
* `Frontier.mem_nodes_iff`: the nodes that have been visited then.
* `walk_eq_recurse` puts this together.
-/

namespace Templating.Markup

/-! ## The recursion -/

/-- A visit of a node: the state that it met and its answer, if it did not fail. -/
structure Visit (σ : Type) where
  node : NodeId
  state : σ
  answer : Option Descent

namespace Visitor

variable {σ : Type}

/-- Visits a node and then, unless they are pruned, what it holds after the visit, each in the same
way: an element's attribute run and then its content, or the items of a fragment. Nothing else is
entered, an expression no more than a leaf. It goes at most `depth` nodes deep. -/
def recurse (visitor : Visitor σ) : Nat → NodeId → EStateM PassError σ Unit
  | 0, _ => throw (.unfinished visitor.name)
  | depth + 1, id => do
    match ← visitor.visit id with
    | .prune => return
    | .enter =>
      match (visitor.tree (← get)).kind? id with
      | some (.element _ run content) =>
        visitor.recurse depth run
        content.forM (visitor.recurse depth)
      | some (.fragment items) => items.forM (visitor.recurse depth)
      | _ => return

/-- The visitor that keeps a record of its visits beside its state, the first one first. -/
def recording (visitor : Visitor σ) : Visitor (σ × List (Visit σ)) where
  name := visitor.name
  tree state := visitor.tree state.1
  visit id := fun (state, record) =>
    match visitor.visit id state with
    | .ok descent changed => .ok descent (changed, record ++ [⟨id, state, some descent⟩])
    | .error error changed => .error error (changed, record ++ [⟨id, state, none⟩])

/-- The outcome of a recorded walk. -/
def recorded (record : List (Visit σ)) :
    EStateM.Result PassError σ Unit → EStateM.Result PassError (σ × List (Visit σ)) Unit
  | .ok _ state => .ok () (state, record)
  | .error error state => .error error (state, record)

/-- From the state `start` the procedure makes the visits of the record and ends in the outcome. -/
def Performs (procedure : {τ : Type} → Visitor τ → EStateM PassError τ Unit) (visitor : Visitor σ)
    (start : σ) (record : List (Visit σ)) (outcome : EStateM.Result PassError σ Unit) : Prop :=
  procedure visitor start = outcome ∧
    procedure visitor.recording (start, []) = recorded record outcome

/-! ## Visits one after the other -/

/-- From a state the visits of the record, which begin with the nodes of a stack, end in the
outcome. -/
inductive Walks (visitor : Visitor σ) :
    List NodeId → σ → List (Visit σ) → EStateM.Result PassError σ Unit → Prop
  | done (state : σ) : Walks visitor [] state [] (.ok () state)
  | fail {id : NodeId} {rest : List NodeId} {state changed : σ} {error : PassError} :
    visitor.visit id state = .error error changed →
    Walks visitor (id :: rest) state [⟨id, state, none⟩] (.error error changed)
  | visit {id : NodeId} {rest : List NodeId} {state changed : σ} {descent : Descent}
    {record : List (Visit σ)} {outcome : EStateM.Result PassError σ Unit} :
    visitor.visit id state = .ok descent changed →
    Walks visitor (visitor.entered changed id descent ++ rest) changed record outcome →
    Walks visitor (id :: rest) state (⟨id, state, some descent⟩ :: record) outcome

variable {visitor : Visitor σ} {state : σ} {stack : List NodeId} {record : List (Visit σ)}
  {outcome : EStateM.Result PassError σ Unit}

/-- A walk with a stack makes these visits. -/
theorem Walks.walkStack (walks : Walks visitor stack state record outcome) :
    ∀ visits, record.length ≤ visits → visitor.walkStack visits stack state = outcome := by
  induction walks with
  | done state =>
    intro visits _
    cases visits <;> rfl
  | fail failed =>
    intro visits enough
    obtain ⟨visits, rfl⟩ : ∃ left, visits = left + 1 := Nat.exists_eq_add_one.mpr enough
    simp only [Visitor.walkStack, failed]
  | visit answered _ ih =>
    intro visits enough
    obtain ⟨visits, rfl⟩ : ∃ left, visits = left + 1 :=
      Nat.exists_eq_add_one.mpr (Nat.lt_of_lt_of_le (Nat.succ_pos _) enough)
    rw [walkStack_of_ok answered]
    exact ih visits (Nat.le_of_succ_le_succ enough)

/-- The visits of a stack in two parts are those of the first part and, unless one of them fails,
those of the second. -/
theorem Walks.append_cases {first second : List NodeId}
    (walks : Walks visitor (first ++ second) state record outcome) :
    (∃ error changed, outcome = .error error changed ∧ Walks visitor first state record outcome) ∨
      ∃ between record₁ record₂, record = record₁ ++ record₂ ∧
        Walks visitor first state record₁ (.ok () between) ∧
        Walks visitor second between record₂ outcome := by
  generalize whole : first ++ second = stack at walks
  induction walks generalizing first with
  | done state =>
    obtain ⟨rfl, rfl⟩ := List.append_eq_nil_iff.mp whole
    exact .inr ⟨state, [], [], rfl, .done state, .done state⟩
  | @fail id rest state changed error failed =>
    cases first with
    | nil =>
      cases whole
      exact .inr ⟨state, [], _, rfl, .done state, .fail failed⟩
    | cons head first =>
      cases whole
      exact .inl ⟨error, changed, rfl, .fail failed⟩
  | @visit id rest state changed descent record outcome answered walks ih =>
    cases first with
    | nil =>
      cases whole
      exact .inr ⟨state, [], _, rfl, .done state, .visit answered walks⟩
    | cons head first =>
      cases whole
      rcases ih (List.append_assoc _ _ _) with
        ⟨error, final, failed, walks₁⟩ | ⟨between, record₁, record₂, rfl, walks₁, walks₂⟩
      · exact .inl ⟨error, final, failed, .visit answered walks₁⟩
      · exact .inr ⟨between, _, record₂, rfl, .visit answered walks₁, walks₂⟩

/-- A walk goes on to the run and the content of an element, or to the items of a fragment. -/
theorem entered_enter (visitor : Visitor σ) (state : σ) (id : NodeId) :
    visitor.entered state id .enter =
      match (visitor.tree state).kind? id with
      | some (.element _ run content) => run :: content
      | some (.fragment items) => items
      | _ => [] := by
  unfold entered Tree.isExpression Tree.walkChildren
  cases (visitor.tree state).kind? id with
  | none => rfl
  | some kind => cases kind <;> rfl

/-- What the recursion does behind a visit. -/
theorem recurse_of_ok {id : NodeId} {changed : σ} {descent : Descent}
    (answered : visitor.visit id state = .ok descent changed) (depth : Nat) :
    visitor.recurse (depth + 1) id state =
      (visitor.entered changed id descent).forM (visitor.recurse depth) changed := by
  simp only [recurse, bind, EStateM.bind, answered]
  cases descent with
  | prune => rfl
  | enter =>
    have read : (get : EStateM PassError σ σ) changed = .ok changed changed := rfl
    rw [entered_enter]
    simp only [EStateM.bind, read]
    cases (visitor.tree changed).kind? id with
    | none => rfl
    | some kind => cases kind <;> rfl

theorem recurse_of_error {id : NodeId} {changed : σ} {error : PassError}
    (failed : visitor.visit id state = .error error changed) (depth : Nat) :
    visitor.recurse (depth + 1) id state = .error error changed := by
  simp only [recurse, bind, EStateM.bind, failed]

theorem forM_cons_of_ok {id : NodeId} {rest : List NodeId} {changed : σ}
    {walk : NodeId → EStateM PassError σ Unit} (walked : walk id state = .ok () changed) :
    (id :: rest).forM walk state = rest.forM walk changed := by
  simp only [List.forM, bind, EStateM.bind, walked]

theorem forM_cons_of_error {id : NodeId} {rest : List NodeId} {changed : σ} {error : PassError}
    {walk : NodeId → EStateM PassError σ Unit} (failed : walk id state = .error error changed) :
    (id :: rest).forM walk state = .error error changed := by
  simp only [List.forM, bind, EStateM.bind, failed]

theorem forM_singleton (walk : NodeId → EStateM PassError σ Unit) (id : NodeId) :
    [id].forM walk state = walk id state := by
  cases walked : walk id state with
  | ok _ changed => exact forM_cons_of_ok walked
  | error error changed => exact forM_cons_of_error walked

/-- The recursion makes these visits. -/
theorem Walks.forM_recurse (walks : Walks visitor stack state record outcome) :
    ∀ depth, record.length ≤ depth → stack.forM (visitor.recurse depth) state = outcome := by
  -- The visits below a node and those of the nodes behind it are both fewer than all.
  induction count : record.length using Nat.strongRecOn generalizing stack state record outcome with
  | ind n ih =>
    subst count
    intro depth enough
    cases walks with
    | done => rfl
    | fail failed =>
      obtain ⟨depth, rfl⟩ : ∃ left, depth = left + 1 := Nat.exists_eq_add_one.mpr enough
      exact forM_cons_of_error (recurse_of_error failed depth)
    | @visit id rest _ changed descent record outcome answered walks =>
      rw [List.length_cons] at enough ih
      obtain ⟨depth, rfl⟩ : ∃ left, depth = left + 1 := Nat.exists_eq_add_one.mpr (by omega)
      rcases walks.append_cases with
        ⟨error, final, rfl, below⟩ | ⟨between, record₁, record₂, rfl, below, behind⟩
      · have failed := ih _ (Nat.lt_succ_self _) below rfl depth (by omega)
        rw [← recurse_of_ok answered] at failed
        exact forM_cons_of_error failed
      · rw [List.length_append] at enough ih
        have walked := ih record₁.length (by omega) below rfl depth (by omega)
        rw [← recurse_of_ok answered] at walked
        rw [forM_cons_of_ok walked]
        exact ih record₂.length (by omega) behind rfl (depth + 1) (by omega)

/-- A visitor that records its visits makes the same ones. -/
theorem Walks.recording (walks : Walks visitor stack state record outcome) :
    ∀ made, ∃ visits, visits.length = record.length ∧
      Walks visitor.recording stack (state, made) visits (recorded (made ++ record) outcome) := by
  induction walks with
  | done state =>
    intro made
    rw [List.append_nil]
    exact ⟨[], rfl, .done _⟩
  | @fail id rest state changed error failed =>
    intro made
    refine ⟨_, rfl, .fail ?_⟩
    simp only [Visitor.recording, failed]
  | @visit id rest state changed descent record outcome answered _ ih =>
    intro made
    obtain ⟨visits, count, walks⟩ := ih (made ++ [⟨id, state, some descent⟩])
    rw [List.append_assoc] at walks
    have answered' : visitor.recording.visit id (state, made) =
        .ok descent (changed, made ++ [⟨id, state, some descent⟩]) := by
      simp only [Visitor.recording, answered]
    exact ⟨_ :: visits, congrArg Nat.succ count, .visit answered' walks⟩

/-- A procedure that makes these visits for every visitor performs them. -/
theorem Walks.performs (walks : Walks visitor stack state record outcome)
    {procedure : {τ : Type} → Visitor τ → EStateM PassError τ Unit}
    (makes : ∀ {τ : Type} {visitor : Visitor τ} {start : τ} {visits : List (Visit τ)}
      {outcome : EStateM.Result PassError τ Unit}, visits.length = record.length →
      Walks visitor stack start visits outcome → procedure visitor start = outcome) :
    Performs procedure visitor state record outcome := by
  obtain ⟨visits, count, recordedWalks⟩ := walks.recording []
  exact ⟨makes rfl walks, makes count recordedWalks⟩

/-! ## Visitors that rearrange -/

/-- As long as its state is good, a visit of a node in view that succeeds leaves a good state and no
more than rearranges the tree. -/
def Rearranges (visitor : Visitor σ) (good : σ → Prop) : Prop :=
  ∀ state id descent changed, good state → (visitor.tree state).Visible id →
    visitor.visit id state = .ok descent changed →
    good changed ∧ (visitor.tree state).Rearranged id (visitor.tree changed)

end Visitor

/-- Each node visited or pending but the root is shown by one that has been entered. -/
def Log.LeadsTo (log : Log) (tree : Tree) (stack : List NodeId) : Prop :=
  ∀ id ∈ log.nodes ++ stack, id = Tree.root ∨
    ∃ holder, (holder, .enter) ∈ log ∧ tree.Shows holder id

/-- `holder` shows `held` and has not been pruned. -/
def Log.Opens (log : Log) (tree : Tree) (holder held : NodeId) : Prop :=
  (holder, .prune) ∉ log ∧ tree.Shows holder held

/-- The answers of a walk, the last first. -/
def Visit.log {σ : Type} (record : List (Visit σ)) : Log :=
  (record.filterMap fun visit => visit.answer.map (visit.node, ·)).reverse

namespace Frontier

variable {σ : Type} {visitor : Visitor σ} {state changed : σ} {descent : Descent} {log : Log}
  {id : NodeId} {rest : List NodeId}

theorem leadsTo_visit (frontier : Frontier (visitor.tree state) log (id :: rest))
    (unshared : (visitor.tree state).Unshared)
    (rearranged : (visitor.tree state).Rearranged id (visitor.tree changed))
    (leads : log.LeadsTo (visitor.tree state) (id :: rest)) :
    Log.LeadsTo ((id, descent) :: log) (visitor.tree changed)
      (visitor.entered changed id descent ++ rest) := by
  intro other member
  rcases (mem_after_visit other).mp member with child | old
  · obtain ⟨rfl, shows⟩ := shows_of_mem_entered child
    exact .inr ⟨id, List.mem_cons_self, shows⟩
  · rcases leads other old with rfl | ⟨holder, entered, shows⟩
    · exact .inl rfl
    · have visited : holder ∈ log.nodes := List.mem_map_of_mem entered
      have shows' := (frontier.shows_after unshared rearranged
        (List.mem_append_left _ visited)).mpr shows
      exact .inr ⟨holder, List.mem_cons_of_mem _ entered, shows'⟩

/-- **The visited nodes** of a walk that has come to its end are those to which a chain of holders
leads, none of them pruned and none an expression. -/
theorem mem_nodes_iff {tree : Tree} (frontier : Frontier tree log []) (unshared : tree.Unshared)
    (leads : log.LeadsTo tree []) :
    id ∈ log.nodes ↔ Relation.ReflTransGen (log.Opens tree) Tree.root id := by
  have nodup := frontier.nodup
  have visible := frontier.visible
  have rooted := frontier.root_mem
  rw [List.append_nil] at nodup visible rooted
  constructor
  · intro member
    have seen := visible id member
    induction seen with
    | refl => exact .refl
    | @tail holder held seen shows ih =>
      have reach : tree.Reachable holder := Tree.Visible.reachable seen
      rcases leads held (List.mem_append_left _ member) with rfl | ⟨other, entered, shows'⟩
      · exact absurd shows.2 (unshared.root_free reach)
      · have visited : other ∈ log.nodes := List.mem_map_of_mem entered
        have same := unshared.holder_unique (visible other visited).reachable shows'.2 reach shows.2
        subst same
        refine (ih visited).tail ⟨fun pruned => ?_, shows⟩
        -- A node is visited once, so its visit has one answer.
        have one := List.inj_on_of_nodup_map nodup pruned entered rfl
        cases one
  · intro chain
    induction chain with
    | refl => exact rooted
    | @tail holder held _ opens ih =>
      obtain ⟨⟨node, answer⟩, member, rfl⟩ := List.mem_map.mp ih
      cases answer with
      | prune => exact absurd member opens.1
      | enter =>
        have inside := frontier.closed node member held opens.2
        rwa [List.append_nil] at inside

end Frontier

/-! ## Walks that end -/

namespace Visitor

variable {σ : Type}

/-- What holds between two visits of a walk that rearranges: everything from the slot `bound` on is
a leaf, and so has no part in how long the walk takes. -/
structure Underway (visitor : Visitor σ) (good : σ → Prop) (bound : Nat) (log : Log)
    (stack : List NodeId) (state : σ) : Prop where
  isGood : good state
  unshared : (visitor.tree state).Unshared
  frontier : Frontier (visitor.tree state) log stack
  leads : log.LeadsTo (visitor.tree state) stack
  leaves : ∀ id kind, bound ≤ id → (visitor.tree state).kind? id = some kind → kind.IsLeaf

namespace Underway

variable {visitor : Visitor σ} {good : σ → Prop} {bound : Nat} {log : Log} {id : NodeId}
  {rest : List NodeId} {state changed : σ} {descent : Descent}

theorem start {state : σ} (isGood : good state) (wf : (visitor.tree state).WellFormed) :
    Underway visitor good (visitor.tree state).size [] [Tree.root] state where
  isGood := isGood
  unshared := wf.unshared
  frontier := .start _
  leads := fun _ member => .inl (List.mem_singleton.mp member)
  leaves := by
    intro id kind beyond known
    obtain ⟨node, slot, -⟩ := Tree.exists_of_kind? known
    exact absurd (Tree.lt_size slot) (Nat.not_lt_of_le beyond)

/-- **One visit** that succeeds. -/
theorem visit (underway : Underway visitor good bound log (id :: rest) state)
    (rearranges : visitor.Rearranges good)
    (answered : visitor.visit id state = .ok descent changed) :
    Underway visitor good bound ((id, descent) :: log)
      (visitor.entered changed id descent ++ rest) changed := by
  obtain ⟨isGood, unshared, frontier, leads, leaves⟩ := underway
  have seen := frontier.head_visible
  obtain ⟨isGood', rearranged⟩ := rearranges state id descent changed isGood seen answered
  refine ⟨isGood', unshared.rearranged rearranged, frontier.visit unshared rearranged,
    frontier.leadsTo_visit unshared rearranged leads, ?_⟩
  intro other kind beyond now
  by_cases isRun : (visitor.tree state).attributeRun? id = some other
  · obtain ⟨items, fragment⟩ := unshared.run_fragment seen.reachable isRun
    rcases leaves other _ beyond fragment with shape | shape <;> cases shape
  · cases was : (visitor.tree state).kind? other with
    | none => exact rearranged.fresh other kind (Tree.size_le_of_kind?_eq_none was) now
    | some old =>
      obtain ⟨kind', now', rewrite⟩ := rearranged.kept other old isRun was
      obtain rfl := Option.some.inj (now'.symm.trans now)
      have leaf := leaves other old beyond was
      rwa [NodeKind.IsLeaf, ← rewrite.shape_eq] at leaf

/-- The old nodes visited are fewer than all old nodes while one is pending. -/
theorem count_lt (underway : Underway visitor good bound log (id :: rest) state)
    (old : id < bound) : (log.nodes.filter (· < bound)).length < bound := by
  have distinct : (id :: log.nodes.filter (· < bound)).Nodup := by
    refine List.nodup_cons.mpr ⟨fun member => ?_, ?_⟩
    · exact underway.frontier.head_not_mem (List.mem_filter.mp member).1
    · exact (List.nodup_append.mp underway.frontier.nodup).1.filter _
  refine Tree.length_le_of_nodup bound distinct fun other member => ?_
  rcases List.mem_cons.mp member with rfl | visited
  · exact old
  · exact of_decide_eq_true (List.mem_filter.mp visited).2

end Underway

theorem Visit.log_cons (id : NodeId) (state : σ) (descent : Descent)
    (record : List (Visit σ)) :
    Visit.log (⟨id, state, some descent⟩ :: record) = Visit.log record ++ [(id, descent)] := by
  simp [Visit.log]

/-- Every visit of a walk that does not fail has an answer. -/
theorem Walks.nodes_log {visitor : Visitor σ} {stack : List NodeId} {state : σ}
    {record : List (Visit σ)} {outcome : EStateM.Result PassError σ Unit}
    (walks : Walks visitor stack state record outcome) :
    ∀ final, outcome = .ok () final →
      (Visit.log record).nodes = (record.map Visit.node).reverse := by
  induction walks with
  | done => exact fun _ _ => rfl
  | fail => exact nofun
  | @visit id rest state changed descent record outcome answered walks ih =>
    intro final isOutcome
    rw [Visit.log_cons, List.map_cons, List.reverse_cons, ← ih final isOutcome]
    exact List.map_append

/-- A walk from here makes visits of nodes that have not been visited and comes to an end. -/
def Ends (visitor : Visitor σ) (good : σ → Prop) (bound : Nat) (log : Log) (stack : List NodeId)
    (state : σ) : Prop :=
  ∃ record outcome, Walks visitor stack state record outcome ∧
    (log.nodes ++ record.map Visit.node).Nodup ∧
    ∀ final, outcome = .ok () final → Underway visitor good bound (Visit.log record ++ log) [] final

variable {visitor : Visitor σ} {good : σ → Prop} {bound : Nat}

/-- A walk ends when what is left of it behind its first visit does. -/
theorem Ends.visit {log : Log} {id : NodeId} {rest : List NodeId} {state changed : σ}
    {descent : Descent} (answered : visitor.visit id state = .ok descent changed)
    (ends : Ends visitor good bound ((id, descent) :: log)
      (visitor.entered changed id descent ++ rest) changed) :
    Ends visitor good bound log (id :: rest) state := by
  obtain ⟨record, outcome, walks, nodup, finished⟩ := ends
  refine ⟨⟨id, state, some descent⟩ :: record, outcome, .visit answered walks,
    List.nodup_middle.mpr nodup, fun final isOutcome => ?_⟩
  rw [Visit.log_cons, List.append_assoc]
  exact finished final isOutcome

/-- **Walks that rearrange end.** A visit of an old node leaves one fewer of them to visit; a visit
of a new one only takes it from the stack. -/
theorem Underway.ends (rearranges : visitor.Rearranges good) (unvisited : Nat) :
    ∀ (stack : List NodeId) (log : Log) (state : σ), Underway visitor good bound log stack state →
      bound ≤ (log.nodes.filter (· < bound)).length + unvisited →
      Ends visitor good bound log stack state := by
  induction unvisited using Nat.strongRecOn with
  | ind unvisited ih =>
    intro stack
    induction stack with
    | nil =>
      intro log state underway _
      refine ⟨[], .ok () state, .done state, underway.frontier.nodup, ?_⟩
      rintro final outcome
      cases outcome
      exact underway
    | cons id rest ihRest =>
      intro log state underway enough
      cases answered : visitor.visit id state with
      | error error changed =>
        refine ⟨_, _, .fail answered, ?_, nofun⟩
        have one := List.sublist_append_left [id] rest
        exact underway.frontier.nodup.sublist (one.append_left log.nodes)
      | ok descent changed =>
        have after := underway.visit rearranges answered
        apply Ends.visit answered
        by_cases old : id < bound
        · have fewer := underway.count_lt old
          have counted : ((Log.nodes ((id, descent) :: log)).filter (· < bound)).length =
              (log.nodes.filter (· < bound)).length + 1 := by
            rw [Log.nodes, List.map_cons, List.filter_cons_of_pos (by simpa using old)]
            rfl
          exact ih (unvisited - 1) (by omega) _ _ changed after (by omega)
        · have leaf : ∀ kind, (visitor.tree changed).kind? id = some kind → kind.IsLeaf :=
            fun kind known => after.leaves id kind (Nat.le_of_not_lt old) known
          have counted : (Log.nodes ((id, descent) :: log)).filter (· < bound) =
              log.nodes.filter (· < bound) :=
            List.filter_cons_of_neg (by simpa using old)
          rw [entered_eq_nil leaf, List.nil_append] at after ⊢
          exact ihRest _ changed after (by rw [counted]; exact enough)

/-- **A walk is the recursion.** Let a visitor, whatever its state and whenever it fails, do no more
to a tree than rearrange it. From a well-formed tree the recursion then ends, and a walk with a
stack makes the same visits in the same order and from the same states, with the same outcome, as
long as it is allowed that many; `Visitor.walk` is, when handles of nodes have 32 bits. No node is
visited twice, and when no visit fails, the visited nodes are those of the tree that is left to
which a chain of holders leads, none of them pruned and none an expression. -/
theorem walk_eq_recurse (visitor : Visitor σ) {good : σ → Prop}
    (rearranges : visitor.Rearranges good) {start : σ} (isGood : good start)
    (wf : (visitor.tree start).WellFormed) :
    ∃ (record : List (Visit σ)) (outcome : EStateM.Result PassError σ Unit),
      (∀ depth, record.length ≤ depth →
        Performs (·.recurse depth Tree.root) visitor start record outcome) ∧
      (∀ visits, record.length ≤ visits →
        Performs (·.walkStack visits [Tree.root]) visitor start record outcome) ∧
      ((∀ visit ∈ record, visit.node < 2 ^ 32) → Performs walk visitor start record outcome) ∧
      (record.map Visit.node).Nodup ∧
      ∀ final, outcome = .ok () final → ∀ id, id ∈ record.map Visit.node ↔
        Relation.ReflTransGen ((Visit.log record).Opens (visitor.tree final)) Tree.root id := by
  obtain ⟨record, outcome, walks, nodup, finished⟩ :=
    (Underway.start isGood wf).ends rearranges _ _ _ _ (Nat.le_add_left _ _)
  rw [Log.nodes, List.map_nil, List.nil_append] at nodup
  refine ⟨record, outcome, ?_, ?_, ?_, nodup, ?_⟩
  · intro depth enough
    refine walks.performs fun count walks => ?_
    rw [← walks.forM_recurse depth (count ▸ enough), forM_singleton]
  · intro visits enough
    exact walks.performs fun count walks => walks.walkStack visits (count ▸ enough)
  · intro handles
    have few := Tree.length_le_of_nodup (2 ^ 32) nodup fun id member => by
      obtain ⟨visit, inside, rfl⟩ := List.mem_map.mp member
      exact handles visit inside
    rw [List.length_map] at few
    refine walks.performs fun count walks => walks.walkStack _ ?_
    rw [count, visitLimit]
    exact Nat.le_trans (Nat.le_trans few (by decide)) (Nat.le_add_right _ _)
  · intro final isOutcome id
    have ended := finished final isOutcome
    rw [List.append_nil] at ended
    rw [← ended.frontier.mem_nodes_iff ended.unshared ended.leads, walks.nodes_log final isOutcome,
      List.mem_reverse]

end Visitor

/-! ## A walk that sorts, counts and stops -/

/-- Local passes rearrange well-formed trees. -/
theorem Pass.Local.rearranges {pass : Pass} {allowance : Allowance}
    (isLocal : pass.Local allowance) : pass.Rearranges Tree.WellFormed := by
  intro tree id descent changed wf visible answered
  rw [isLocal.tree_eq] at visible
  obtain ⟨descent', after, outcome, effect⟩ := isLocal.visit tree id wf visible
  rw [answered] at outcome
  cases outcome
  rw [isLocal.tree_eq, isLocal.tree_eq]
  exact ⟨effect.wellFormed wf, effect.toTouched.rearranged wf visible.reachable⟩

/-- Orders the attribute run of each node and enters all but the elements of one name, until it has
no visits left. -/
def countdown (pruned : String) : Visitor (Tree × Nat) where
  name := "countdown"
  tree := Prod.fst
  visit id := fun (tree, left) =>
    if left = 0 then .error (.invalidArgument "countdown" "no visits left") (tree, left)
    else
      match (attributeSort (leadingRank [])).visit id tree with
      | .error error changed => .error error (changed, left - 1)
      | .ok _ changed =>
        .ok (if changed.isElement id pruned then .prune else .enter) (changed, left - 1)

theorem countdown_rearranges (pruned : String) :
    (countdown pruned).Rearranges fun state => state.1.WellFormed := by
  rintro ⟨tree, left⟩ id descent ⟨changed, left'⟩ wf visible answered
  obtain ⟨_, after, sorted, effect⟩ :=
    (attributeSort_local (leadingRank [])).visit tree id wf visible
  simp only [countdown, sorted] at answered
  split at answered
  · cases answered
  · cases answered
    exact ⟨effect.wellFormed wf, effect.toTouched.rearranged wf visible.reachable⟩

/-- `<p b a><i></i></p><b></b>` without a separator in front of the attributes. -/
def unsortedTree : Tree :=
  ⟨#[⟨.fragment [2, 8], none⟩, ⟨.fragment [3, 4], some 2⟩, ⟨.element "p" 1 [6], some 0⟩,
    ⟨.attr (.text "b") none none, some 1⟩, ⟨.attr (.text "a") none none, some 1⟩,
    ⟨.fragment [], some 6⟩, ⟨.element "i" 5 [], some 2⟩, ⟨.fragment [], some 8⟩,
    ⟨.element "b" 7 [], some 0⟩]⟩

theorem unsortedTree_wellFormed : unsortedTree.WellFormed :=
  .of_closed [0, 1, 2, 3, 4, 5, 6, 7, 8] (by decide) (by decide) (by decide) (by decide)

theorem walk_eq_recurse_countdown :
    unsortedTree.WellFormed ∧ ∃ record outcome,
      (∀ depth, record.length ≤ depth →
        (countdown "p").Performs (·.recurse depth Tree.root) (unsortedTree, 3) record outcome) ∧
      (∀ visits, record.length ≤ visits →
        (countdown "p").Performs (·.walkStack visits [Tree.root]) (unsortedTree, 3) record
          outcome) ∧
      ((∀ visit ∈ record, visit.node < 2 ^ 32) →
        (countdown "p").Performs Visitor.walk (unsortedTree, 3) record outcome) ∧
      (record.map Visit.node).Nodup ∧
      ∀ final, outcome = .ok () final → ∀ id, id ∈ record.map Visit.node ↔
        Relation.ReflTransGen ((Visit.log record).Opens ((countdown "p").tree final)) Tree.root
          id :=
  ⟨unsortedTree_wellFormed,
    Visitor.walk_eq_recurse (countdown "p") (countdown_rearranges "p") unsortedTree_wellFormed
      unsortedTree_wellFormed⟩

end Templating.Markup
