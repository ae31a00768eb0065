import Templating.Proofs.Markup.Growth
import Templating.Proofs.Markup.Printing
import Templating.Proofs.Markup.Scanning

/-!
# The markup of a tree that is being built

While a tree is built, the elements that are open form its spine. All else is finished: nothing
that is added later changes it. `Tree.Prints` gives the markup of finished nodes and `Tree.Opened`
that of a tree with open elements, which goes up to the place where the next token is added.

- `Tree.Opened.grown`: what a token adds is open at the end of the markup.
- `Tree.Opened.absorb`: when it is finished, its own markup follows.
- `Tree.Opened.close`: closing an element adds its end tag.
- `Tree.Prints.markupOf`: finished nodes are printed so.
-/

namespace Templating.Markup

open Templating.Text

/-- The markup of a node that holds no other. -/
def NodeKind.leafText? : NodeKind → Option String
  | .text content => some content
  | .attr name value quote => some (renderAttribute name value quote)
  | .expression source [] => some ("\x7b" ++ source ++ "\x7d")
  | _ => none

theorem NodeKind.render_of_leafText? {kind : NodeKind} {text : String}
    (leaf : kind.leafText? = some text) (markupOf : NodeId → String) :
    kind.render markupOf = text := by
  unfold leafText? at leaf
  split at leaf
  · exact Option.some.inj leaf
  · exact Option.some.inj leaf
  · rw [← Option.some.inj leaf]
    exact String.append_empty
  · cases leaf

theorem RunItem.exists_leafText (item : RunItem) :
    ∃ text, item.kind.leafText? = some text ∧ text.toList = item.written := by
  cases item with
  | gap blanks => exact ⟨blanks, rfl, rfl⟩
  | attr name value => exact ⟨_, rfl, rfl⟩

namespace Tree

/-- Nodes that are finished and off the spine, and their markup. -/
inductive Prints (tree : Tree) (spine : List NodeId) : List NodeId → List Char → Prop
  | nil : Prints tree spine [] []
  | leaf {id : NodeId} {kind : NodeKind} {text : String} {rest : List NodeId} {behind : List Char}
      (off : id ∉ spine) (known : tree.kind? id = some kind) (leaf : kind.leafText? = some text)
      (later : Prints tree spine rest behind) :
      Prints tree spine (id :: rest) (text.toList ++ behind)
  | void {id run : NodeId} {name : String} {items rest : List NodeId}
      {attributes behind : List Char} (off : id ∉ spine) (runOff : run ∉ spine)
      (known : tree.kind? id = some (.element name run [])) (isVoid : isVoid name = true)
      (fragment : tree.kind? run = some (.fragment items))
      (inRun : Prints tree spine items attributes) (later : Prints tree spine rest behind) :
      Prints tree spine (id :: rest) ('<' :: name.toList ++ attributes ++ '>' :: behind)
  | element {id run : NodeId} {name : String} {children items rest : List NodeId}
      {attributes inside behind : List Char} (off : id ∉ spine) (runOff : run ∉ spine)
      (known : tree.kind? id = some (.element name run children)) (notVoid : isVoid name = false)
      (fragment : tree.kind? run = some (.fragment items))
      (inRun : Prints tree spine items attributes) (content : Prints tree spine children inside)
      (later : Prints tree spine rest behind) :
      Prints tree spine (id :: rest) ('<' :: name.toList ++ attributes ++ '>' :: inside ++
        (Token.endTag name).written ++ behind)

/-- The innermost node of `stack` is open at `next`, the last of its children, and so on outwards
to the root; `names` are the open elements, and the text is the markup in front of `next`. -/
inductive Opened (tree : Tree) (spine : List NodeId) :
    List NodeId → List NodeId → List String → List Char → Prop
  | root {children next : List NodeId} {text : List Char}
      (known : tree.kind? Tree.root = some (.fragment (children ++ next)))
      (content : tree.Prints spine children text) :
      Opened tree spine next [Tree.root] [] text
  | element {id run : NodeId} {name : String} {children items next outer : List NodeId}
      {names : List String} {before attributes inside : List Char}
      (known : tree.kind? id = some (.element name run (children ++ next)))
      (notVoid : isVoid name = false) (new : id ∉ outer) (runOff : run ∉ spine)
      (fragment : tree.kind? run = some (.fragment items))
      (inRun : tree.Prints spine items attributes) (content : tree.Prints spine children inside)
      (around : Opened tree spine [id] outer names before) :
      Opened tree spine next (id :: outer) (name :: names)
        (before ++ ('<' :: name.toList ++ attributes ++ '>' :: inside))

variable {tree after : Tree} {spine spine' ids next stack outer : List NodeId}
  {names : List String} {text : List Char} {id holder : NodeId}

theorem exists_slot_of_kind? {kind : NodeKind} (known : tree.kind? id = some kind) :
    id < tree.size := by
  obtain ⟨node, slot, -⟩ := exists_of_kind? known
  exact lt_size slot

/-- Nothing old comes to the spine. -/
theorem off_spine (wider : ∀ id ∈ spine', id ∈ spine ∨ tree.size ≤ id) {kind : NodeKind}
    (off : id ∉ spine) (known : tree.kind? id = some kind) : id ∉ spine' := by
  intro member
  rcases wider id member with inside | beyond
  · exact off inside
  · exact absurd (exists_slot_of_kind? known) (Nat.not_lt_of_le beyond)

/-- Finished nodes keep their markup when only the spine changes. -/
theorem Prints.frame (prints : tree.Prints spine ids text)
    (same : ∀ id, id < tree.size → id ∉ spine → after.kind? id = tree.kind? id)
    (wider : ∀ id ∈ spine', id ∈ spine ∨ tree.size ≤ id) : after.Prints spine' ids text := by
  have kept {id : NodeId} {kind : NodeKind} (off : id ∉ spine)
      (known : tree.kind? id = some kind) : after.kind? id = some kind :=
    (same id (exists_slot_of_kind? known) off).trans known
  induction prints with
  | nil => exact .nil
  | leaf off known leaf _ ih => exact .leaf (off_spine wider off known) (kept off known) leaf ih
  | void off runOff known isVoid fragment _ _ ihRun ih =>
    exact .void (off_spine wider off known) (off_spine wider runOff fragment) (kept off known)
      isVoid (kept runOff fragment) ihRun ih
  | element off runOff known notVoid fragment _ _ _ ihRun ihContent ih =>
    exact .element (off_spine wider off known) (off_spine wider runOff fragment) (kept off known)
      notVoid (kept runOff fragment) ihRun ihContent ih

theorem Prints.append {ids' : List NodeId} {text' : List Char} (first : tree.Prints spine ids text)
    (second : tree.Prints spine ids' text') : tree.Prints spine (ids ++ ids') (text ++ text') := by
  induction first with
  | nil => exact second
  | leaf off known leaf _ ih =>
    rw [List.append_assoc]
    exact .leaf off known leaf ih
  | void off runOff known isVoid fragment inRun _ _ ih =>
    rw [List.append_assoc, List.cons_append]
    exact .void off runOff known isVoid fragment inRun ih
  | element off runOff known notVoid fragment inRun content _ _ _ ih =>
    rw [List.append_assoc]
    exact .element off runOff known notVoid fragment inRun content ih

/-! ## Open elements -/

/-- Every open node has a slot and takes children. -/
theorem Opened.container (opened : tree.Opened spine next stack names text) :
    ∀ id ∈ stack, ∃ kind children, tree.kind? id = some kind ∧ kind.content? = some children := by
  induction opened with
  | root known =>
    intro id member
    rw [List.mem_singleton.mp member]
    exact ⟨_, _, known, rfl⟩
  | element known _ _ _ _ _ _ _ ih =>
    intro id member
    rcases List.mem_cons.mp member with rfl | member
    · exact ⟨_, _, known, rfl⟩
    · exact ih id member

/-- An open node inside another one is an element that has the first of the names. -/
theorem Opened.exists_name (opened : tree.Opened spine next (id :: holder :: outer) names text) :
    ∃ name outerNames, names = name :: outerNames ∧ tree.elementName? id = some name := by
  cases opened with
  | element known => exact ⟨_, _, rfl, by rw [elementName?, known]⟩

/-- Outside of all elements there is only the root. -/
theorem Opened.eq_root (opened : tree.Opened spine next [id] names text) :
    id = Tree.root ∧ names = [] := by
  cases opened with
  | root => exact ⟨rfl, rfl⟩
  | element known notVoid new runOff fragment inRun content around => cases around

/-- New slots are off the spine. -/
theorem Opened.not_mem (opened : tree.Opened spine next stack names text)
    (beyond : tree.size ≤ id) : id ∉ stack := by
  intro member
  obtain ⟨_, _, known, -⟩ := opened.container id member
  exact absurd (exists_slot_of_kind? known) (Nat.not_lt_of_le beyond)

/-- What is open stays open when the nodes that are open keep their kinds. -/
theorem Opened.frame (opened : tree.Opened spine next stack names text)
    (same : ∀ id, id < tree.size → id ∉ spine ∨ id ∈ stack → after.kind? id = tree.kind? id)
    (wider : ∀ id ∈ spine', id ∈ spine ∨ tree.size ≤ id) :
    after.Opened spine' next stack names text := by
  induction opened with
  | root known content =>
    refine .root ?_ (content.frame (fun id inside off => same id inside (.inl off)) wider)
    rw [same _ (exists_slot_of_kind? known) (.inr List.mem_cons_self)]
    exact known
  | element known notVoid new runOff fragment inRun content _ ih =>
    have finished {ids : List NodeId} {text : List Char} (prints : tree.Prints spine ids text) :
        after.Prints spine' ids text :=
      prints.frame (fun id inside off => same id inside (.inl off)) wider
    refine .element ?_ notVoid new (off_spine wider runOff fragment) ?_ (finished inRun)
      (finished content) (ih fun id inside kept =>
        same id inside (kept.imp_right (List.mem_cons_of_mem _)))
    · rw [same _ (exists_slot_of_kind? known) (.inr List.mem_cons_self)]
      exact known
    · rw [same _ (exists_slot_of_kind? fragment) (.inl runOff)]
      exact fragment

/-- What was open at its end is finished, and its markup follows. -/
theorem Opened.absorb {text' : List Char} (opened : tree.Opened spine next stack names text)
    (finished : tree.Prints spine next text') :
    tree.Opened spine [] stack names (text ++ text') := by
  cases opened with
  | root known content =>
    refine .root ?_ (content.append finished)
    rwa [List.append_nil]
  | element known notVoid new runOff fragment inRun content around =>
    rw [List.append_assoc, List.append_assoc, List.cons_append]
    refine .element ?_ notVoid new runOff fragment inRun (content.append finished) around
    rwa [List.append_nil]

/-- Closing an element adds its end tag. -/
theorem Opened.close {name : String}
    (opened : tree.Opened (id :: outer) [] (id :: outer) (name :: names) text) :
    tree.Opened outer [] outer names (text ++ (Token.endTag name).written) := by
  have narrower : ∀ other ∈ outer, other ∈ id :: outer ∨ tree.size ≤ other := fun other member =>
    .inl (List.mem_cons_of_mem id member)
  cases opened with
  | @element id run name children items next outer names before attributes inside known notVoid new
      runOff fragment inRun content around =>
    have finished {ids : List NodeId} {text : List Char}
        (prints : tree.Prints (id :: outer) ids text) : tree.Prints outer ids text :=
      prints.frame (fun _ _ _ => rfl) narrower
    rw [List.append_nil] at known
    have whole := Prints.element new (List.not_mem_of_not_mem_cons runOff) known notVoid fragment
      (finished inRun) (finished content) .nil
    have outside := (around.frame (fun _ _ _ => rfl) narrower).absorb whole
    rwa [List.append_nil, ← List.append_assoc] at outside

/-- What is attached to the innermost open node is open at the end of the markup. -/
theorem Opened.attach {added : List Node} {child : NodeId}
    (opened : tree.Opened (holder :: outer) [] (holder :: outer) names text)
    (wider : ∀ id ∈ spine', id ∈ holder :: outer ∨ tree.size ≤ id) :
    (tree.attach holder added child).Opened spine' [child] (holder :: outer) names text := by
  obtain ⟨kind, children, known, container⟩ := opened.container holder List.mem_cons_self
  obtain ⟨node, slot, rfl⟩ := exists_of_kind? known
  have inside := lt_size slot
  have same (id : NodeId) (old : id < tree.size) (other : id ≠ holder) :
      (tree.attach holder added child).kind? id = tree.kind? id := by
    rw [kind?, kind?, get?_attach_of_lt _ _ old other]
  have isHolder : (tree.attach holder added child).kind? holder =
      some (node.kind.withChild child) := by
    rw [kind?, get?_attach_holder _ _ inside, slot]
    rfl
  have finished {ids : List NodeId} {text : List Char}
      (prints : tree.Prints (holder :: outer) ids text) :
      (tree.attach holder added child).Prints spine' ids text :=
    prints.frame (fun id old off => same id old (List.ne_of_not_mem_cons off)) wider
  cases opened with
  | @root children _ _ known' content =>
    obtain isRoot : node.kind = .fragment (children ++ []) :=
      Option.some.inj (known.symm.trans known')
    refine .root (isHolder.trans ?_) (finished content)
    rw [isRoot, List.append_nil]
    rfl
  | @element _ run name children items _ _ _ _ _ _ known' notVoid new runOff fragment inRun content
      around =>
    obtain isElement : node.kind = .element name run (children ++ []) :=
      Option.some.inj (known.symm.trans known')
    refine .element (isHolder.trans ?_) notVoid new (off_spine wider runOff fragment) ?_
      (finished inRun) (finished content) (around.frame (fun id old kept => same id old ?_) wider)
    · rw [isElement, List.append_nil]
      rfl
    · rw [same run (exists_slot_of_kind? fragment) (List.ne_of_not_mem_cons runOff)]
      exact fragment
    · rintro rfl
      rcases kept with off | member
      · exact off List.mem_cons_self
      · exact new member

/-! ## Tokens -/

/-- The items of an attribute run print as they are written. -/
theorem prints_items {parts : List RunItem} {start : Nat}
    (slots : ∀ index, tree.kind? (start + index) = parts[index]?.map RunItem.kind)
    (off : ∀ index, start + index ∉ spine) :
    tree.Prints spine (List.range' start parts.length) (parts.flatMap RunItem.written) := by
  induction parts generalizing start with
  | nil => exact .nil
  | cons item rest ih =>
    obtain ⟨text, leaf, written⟩ := item.exists_leafText
    rw [List.flatMap_cons, ← written]
    refine .leaf (off 0) (slots 0) leaf (ih (fun index => ?_) fun index => ?_)
    · rw [Nat.add_assoc, Nat.add_comm 1 index]
      exact slots (index + 1)
    · rw [Nat.add_assoc]
      exact off (1 + index)

/-- Text and expressions are finished at once. -/
theorem Opened.grown_leaf {token : Token} {kind : NodeKind} {written : String}
    (opened : tree.Opened (holder :: outer) [] (holder :: outer) names text)
    (nodes : token.nodes tree.size holder = [⟨kind, some holder⟩])
    (node : token.node tree.size = tree.size) (leaf : kind.leafText? = some written)
    (isWritten : token.written = written.toList) :
    (tree.grown holder token).Opened (holder :: outer) [] (holder :: outer) names
      (text ++ token.written) := by
  obtain ⟨_, _, known, -⟩ := opened.container holder List.mem_cons_self
  have inside := exists_slot_of_kind? known
  have new : (tree.attach holder [⟨kind, some holder⟩] tree.size).kind? (tree.size + 0) =
      some kind := by
    rw [kind?, get?_attach_add inside]
    rfl
  have finished := Prints.leaf (opened.not_mem (Nat.le_refl _)) new leaf .nil
  rw [List.append_nil] at finished
  rw [grown, nodes, node, isWritten]
  exact (opened.attach fun _ => .inl).absorb finished

section StartTag

variable {name : String} {run : List RunItem}

/-- The slots of an element that has just been added. -/
theorem kind?_grown_startTag (inside : holder < tree.size) (offset : Nat) :
    (tree.grown holder (.startTag name run)).kind? (tree.size + offset) =
      ((elementNodes tree.size name run (some holder))[offset]?).map Node.kind := by
  rw [kind?, grown, Token.nodes, get?_attach_add inside]

/-- The attribute run of an element that has just been added. -/
theorem prints_run (inside : holder < tree.size)
    (low : ∀ id ∈ spine, id ≤ tree.size + 1) :
    (tree.grown holder (.startTag name run)).Prints spine (List.range' (tree.size + 2) run.length)
      (run.flatMap RunItem.written) := by
  refine prints_items (fun index => ?_) fun index member => ?_
  · rw [Nat.add_assoc, Nat.add_comm 2 index, kind?_grown_startTag inside, elementNodes_item,
      Option.map_map]
    rfl
  · have beyond : tree.size + 1 < tree.size + 2 + index :=
      Nat.lt_of_lt_of_le (Nat.lt_succ_self _) (Nat.le_add_right _ index)
    exact absurd (low _ member) (Nat.not_le_of_lt beyond)

/-- A void element is finished at once. -/
theorem Opened.grown_void
    (opened : tree.Opened (holder :: outer) [] (holder :: outer) names text)
    (isVoid : isVoid name = true) :
    (tree.grown holder (.startTag name run)).Opened (holder :: outer) [] (holder :: outer) names
      (text ++ (Token.startTag name run).written) := by
  obtain ⟨_, _, known, -⟩ := opened.container holder List.mem_cons_self
  have inside := exists_slot_of_kind? known
  have low : ∀ id ∈ holder :: outer, id ≤ tree.size + 1 := by
    intro id member
    obtain ⟨_, _, known, -⟩ := opened.container id member
    exact Nat.le_succ_of_le (Nat.le_of_lt (exists_slot_of_kind? known))
  refine (opened.attach fun _ => .inl).absorb ?_
  exact .void (opened.not_mem (Nat.le_succ _)) (opened.not_mem (Nat.le_refl _))
    (kind?_grown_startTag inside 1) isVoid (kind?_grown_startTag inside 0)
    (prints_run inside low) .nil

/-- Any other element is open. -/
theorem Opened.grown_element
    (opened : tree.Opened (holder :: outer) [] (holder :: outer) names text)
    (notVoid : isVoid name = false) :
    (tree.grown holder (.startTag name run)).Opened ((tree.size + 1) :: holder :: outer) []
      ((tree.size + 1) :: holder :: outer) (name :: names)
      (text ++ (Token.startTag name run).written) := by
  obtain ⟨_, _, known, -⟩ := opened.container holder List.mem_cons_self
  have inside := exists_slot_of_kind? known
  have low : ∀ id ∈ (tree.size + 1) :: holder :: outer, id ≤ tree.size + 1 := by
    intro id member
    rcases List.mem_cons.mp member with rfl | member
    · exact Nat.le_refl _
    · obtain ⟨_, _, known, -⟩ := opened.container id member
      exact Nat.le_succ_of_le (Nat.le_of_lt (exists_slot_of_kind? known))
  have wider : ∀ id ∈ (tree.size + 1) :: holder :: outer,
      id ∈ holder :: outer ∨ tree.size ≤ id := by
    intro id member
    rcases List.mem_cons.mp member with rfl | member
    · exact .inr (Nat.le_succ _)
    · exact .inl member
  have runOff : tree.size ∉ (tree.size + 1) :: holder :: outer := by
    intro member
    rcases List.mem_cons.mp member with same | member
    · exact absurd same (Nat.succ_ne_self _).symm
    · exact opened.not_mem (Nat.le_refl _) member
  exact .element (kind?_grown_startTag inside 1) notVoid (opened.not_mem (Nat.le_succ _)) runOff
    (kind?_grown_startTag inside 0) (prints_run inside low) .nil (opened.attach wider)

end StartTag

/-! ## Printing -/

/-- Finished nodes are printed as they are. -/
theorem Prints.markupOf (prints : tree.Prints spine ids text) (wf : tree.WellFormed)
    (reach : ∀ id ∈ ids, tree.Reachable id) :
    (ids.flatMap fun id => (tree.markupOf id).toList) = text := by
  have run {id run : NodeId} {name : String} {children items : List NodeId}
      (known : tree.kind? id = some (.element name run children)) (reach : tree.Reachable id)
      (fragment : tree.kind? run = some (.fragment items)) : tree.Reachable run ∧
        (∀ item ∈ items, tree.Reachable item) ∧ (∀ child ∈ children, tree.Reachable child) := by
    have holds {child : NodeId} (member : child ∈ run :: children) : tree.Holds id child := by
      rw [Holds, walkChildren_of_kind? known]
      exact member
    have reachRun := reach.child (holds List.mem_cons_self)
    refine ⟨reachRun, fun item member => reachRun.child ?_, fun child member =>
      reach.child (holds (List.mem_cons_of_mem run member))⟩
    rw [Holds, walkChildren_of_kind? fragment]
    exact member
  induction prints with
  | nil => rfl
  | leaf off known leaf later ih =>
    rw [List.flatMap_cons, wf.markupOf_eq (reach _ List.mem_cons_self) known,
      NodeKind.render_of_leafText? leaf,
      ih fun id member => reach id (List.mem_cons_of_mem _ member)]
  | void off runOff known isVoid fragment inRun later ihRun ih =>
    obtain ⟨reachRun, reachItems, -⟩ := run known (reach _ List.mem_cons_self) fragment
    rw [List.flatMap_cons, wf.markupOf_eq (reach _ List.mem_cons_self) known, NodeKind.render,
      wf.markupOf_eq reachRun fragment, NodeKind.render,
      ih fun id member => reach id (List.mem_cons_of_mem _ member), ← ihRun reachItems]
    simp [isVoid, List.flatMap_map]
  | element off runOff known notVoid fragment inRun content later ihRun ihContent ih =>
    obtain ⟨reachRun, reachItems, reachChildren⟩ := run known (reach _ List.mem_cons_self) fragment
    rw [List.flatMap_cons, wf.markupOf_eq (reach _ List.mem_cons_self) known, NodeKind.render,
      wf.markupOf_eq reachRun fragment, NodeKind.render,
      ih fun id member => reach id (List.mem_cons_of_mem _ member), ← ihRun reachItems,
      ← ihContent reachChildren]
    simp [notVoid, List.flatMap_map, Token.written]

/-- A tree without open elements is printed as it was built. -/
theorem Opened.markup (opened : tree.Opened [Tree.root] [] [Tree.root] names text)
    (wf : tree.WellFormed) : tree.markup.toList = text := by
  cases opened with
  | @root children _ _ known content =>
    rw [List.append_nil] at known
    have reach : ∀ id ∈ children, tree.Reachable id := by
      intro id member
      refine Reachable.root.child ?_
      rw [Holds, walkChildren_of_kind? known]
      exact member
    rw [markup, wf.markupOf_eq Reachable.root known, NodeKind.render, String.toList_join,
      List.flatMap_map]
    exact content.markupOf wf reach
  | element known notVoid new runOff fragment inRun content around => cases around

end Tree

end Templating.Markup
