import Templating.Proofs.Markup.Growth

/-!
# How edits end

An edit asks its nodes to be of certain kinds and is refused when one is not. On a tree whose
handles are slots, and with nodes that the tree has, it does nothing else.

* `Ends`: how an edit ends on a tree, with the rule `Ends.bind` for edits one after the other.
* `ends_appendChild`, `ends_appendAttribute`, `ends_replaceAttributeChildren`, `ends_setText`: an
  edit that is refused leaves the tree as it was.
* `ends_setAttribute`: the separator of a new attribute is made before the element is asked.
-/

namespace Templating.Markup

/-- Every node has some content, if only its own. -/
theorem NodeKind.exists_withContent (kind : NodeKind) :
    ∃ children, kind = kind.withContent children := by
  cases kind with
  | element name run children => exact ⟨children, rfl⟩
  | fragment children => exact ⟨children, rfl⟩
  | expression source children => exact ⟨children, rfl⟩
  | attr => exact ⟨[], rfl⟩
  | text => exact ⟨[], rfl⟩

/-! ## Trees whose handles are slots -/

namespace Tree

variable {tree : Tree} {id child parent run : NodeId} {kind : NodeKind}

/-- Every handle that a node holds is a slot. -/
def Closed (tree : Tree) : Prop :=
  ∀ id kind, tree.kind? id = some kind → ∀ held ∈ kind.walkChildren, held < tree.size

/-- The node can have content. -/
def IsContainer (tree : Tree) (id : NodeId) : Prop :=
  ∃ kind children, tree.kind? id = some kind ∧ kind.content? = some children

/-- The node is an element whose attribute run can have items. -/
def TakesAttributes (tree : Tree) (id : NodeId) : Prop :=
  ∃ run, tree.attributeRun? id = some run ∧ tree.IsContainer run

theorem exists_kind? (inside : id < tree.size) : ∃ kind, tree.kind? id = some kind := by
  obtain ⟨node, slot⟩ := exists_get? inside
  exact ⟨_, kind?_of_get? slot⟩

theorem closed_empty : empty.Closed := by
  intro id kind known held member
  obtain ⟨node, slot, rfl⟩ := exists_of_kind? known
  obtain rfl : id = 0 := Nat.lt_one_iff.mp (lt_size slot)
  obtain rfl : (⟨.fragment [], none⟩ : Node) = node := Option.some.inj slot
  cases member

theorem Closed.push (closed : tree.Closed) {holder : Option NodeId}
    (held : ∀ child ∈ kind.walkChildren, child < tree.size + 1) :
    (tree.push kind holder).Closed := by
  intro id kind' known child member
  rw [size_push]
  rw [kind?, get?_push] at known
  split at known
  · obtain rfl : kind = kind' := Option.some.inj known
    exact held child member
  · exact Nat.lt_succ_of_lt (closed id kind' known child member)

theorem Closed.setKind (closed : tree.Closed)
    (held : ∀ child ∈ kind.walkChildren, child < tree.size) : (tree.setKind id kind).Closed := by
  intro other kind' known child member
  rw [size_setKind]
  by_cases same : id = other
  · rw [kind?, get?_setKind, if_pos same, Option.map_map] at known
    obtain ⟨node, -, rfl⟩ := Option.map_eq_some_iff.mp known
    exact held child member
  · rw [kind?_setKind_of_ne same] at known
    exact closed other kind' known child member

theorem Closed.setParent (closed : tree.Closed) : (tree.setParent id parent).Closed := by
  intro other kind known child member
  rw [size_setParent]
  rw [kind?_setParent] at known
  exact closed other kind known child member

theorem Closed.foldl_setParent (closed : tree.Closed) (items : List NodeId) (run : NodeId) :
    (items.foldl (fun changed child => changed.setParent child run) tree).Closed ∧
      (items.foldl (fun changed child => changed.setParent child run) tree).size = tree.size := by
  induction items generalizing tree with
  | nil => exact ⟨closed, rfl⟩
  | cons item rest ih =>
    obtain ⟨kept, size⟩ := ih closed.setParent
    exact ⟨kept, size.trans (size_setParent _ _ _)⟩

/-- Every node of the first tree is in the second what it was, but for its
content and its holder. -/
def SameForms (before after : Tree) : Prop :=
  ∀ id kind, before.kind? id = some kind →
    ∃ children, after.kind? id = some (kind.withContent children)

theorem SameForms.trans {before middle after : Tree} (first : before.SameForms middle)
    (second : middle.SameForms after) : before.SameForms after := by
  intro id kind known
  obtain ⟨children, known'⟩ := first id kind known
  obtain ⟨children', known''⟩ := second id _ known'
  refine ⟨children', known''.trans (congrArg some ?_)⟩
  cases kind <;> rfl

theorem sameForms_push (kind : NodeKind) (holder : Option NodeId) :
    tree.SameForms (tree.push kind holder) := by
  intro id old known
  obtain ⟨node, slot, -⟩ := exists_of_kind? known
  have kept : (tree.push kind holder).kind? id = some old := by
    rwa [kind?, get?_push, if_neg (Nat.ne_of_lt (lt_size slot))]
  exact (NodeKind.exists_withContent old).imp fun _ same => kept.trans (congrArg some same)

theorem sameForms_append (known : tree.kind? parent = some kind) :
    tree.SameForms ((tree.setKind parent (kind.withChild child)).setParent child parent) := by
  intro id old known'
  rw [kind?_setParent]
  by_cases same : parent = id
  · subst same
    obtain rfl := Option.some.inj (known.symm.trans known')
    obtain ⟨node, slot, -⟩ := exists_of_kind? known
    refine ⟨kind.content?.getD [] ++ [child], ?_⟩
    rw [kind?, get?_setKind, if_pos rfl, slot]
    rfl
  · rw [kind?_setKind_of_ne same, known']
    exact (NodeKind.exists_withContent old).imp fun _ same => congrArg some same

/-- An element still takes attributes when nodes have got other content. -/
theorem TakesAttributes.of_sameForms {after : Tree} (takes : tree.TakesAttributes id)
    (same : tree.SameForms after) : after.TakesAttributes id := by
  obtain ⟨run, element, kind, content, known, container⟩ := takes
  obtain ⟨name, inside, isElement⟩ := kind?_of_attributeRun? element
  obtain ⟨children, isElement'⟩ := same id _ isElement
  obtain ⟨children', known'⟩ := same run kind known
  refine ⟨run, attributeRun?_of_kind? isElement', _, children', known', ?_⟩
  cases kind with
  | element => rfl
  | fragment => rfl
  | expression => rfl
  | attr => cases container
  | text => cases container

theorem takesAttributes_push (closed : tree.Closed) (inside : id < tree.size)
    {holder : Option NodeId} :
    (tree.push kind holder).TakesAttributes id ↔ tree.TakesAttributes id := by
  -- The run is a slot of the first tree, so it cannot be the new one.
  have old {other : NodeId} (inside : other < tree.size) :
      (tree.push kind holder).kind? other = tree.kind? other := by
    rw [kind?, kind?, get?_push, if_neg (Nat.ne_of_lt inside)]
  refine ⟨?_, fun takes => takes.of_sameForms (sameForms_push kind holder)⟩
  rintro ⟨run, element, container⟩
  obtain ⟨name, children, isElement⟩ := kind?_of_attributeRun? element
  rw [old inside] at isElement
  refine ⟨run, attributeRun?_of_kind? isElement, ?_⟩
  rwa [IsContainer, old (closed id _ isElement run List.mem_cons_self)] at container

/-- An element whose run has an item takes attributes. -/
theorem takesAttributes_of_mem (member : child ∈ tree.attributeChildren id) :
    tree.TakesAttributes id := by
  unfold attributeChildren at member
  cases element : tree.attributeRun? id with
  | none =>
    rw [element] at member
    cases member
  | some run =>
    rw [element, Option.map_some, Option.getD_some, content] at member
    cases inside : (tree.kind? run).bind NodeKind.content? with
    | none =>
      rw [inside] at member
      cases member
    | some children =>
      obtain ⟨kind, known, container⟩ := Option.bind_eq_some_iff.mp inside
      exact ⟨run, element, kind, children, known, container⟩

end Tree

/-! ## How an edit ends -/

namespace Edit

variable {α β : Type} {tree : Tree}

/-- The edit is made on the tree, with a result and a tree of which `made` holds, or refused for the
kind of a node, with a tree of which `refused` holds. -/
inductive Ends (made : α → Tree → Prop) (refused : Tree → Prop) (edit : Edit α) (tree : Tree) : Prop
  | made {value : α} {after : Tree} (outcome : edit tree = .ok value after)
      (holds : made value after) :
    Ends made refused edit tree
  | refused {id : NodeId} {expected : Expected} {actual : Shape} {after : Tree}
      (outcome : edit tree = .error (.wrongKind id expected actual) after)
      (holds : refused after) :
    Ends made refused edit tree

/-- The tree behind an edit, whether it was made or not. -/
def left (edit : Edit α) (tree : Tree) : Tree :=
  match edit tree with
  | .ok _ after => after
  | .error _ after => after

theorem left_of_ok {edit : Edit α} {value : α} {after : Tree}
    (outcome : edit tree = .ok value after) : left edit tree = after := by
  rw [left, outcome]

theorem left_of_error {edit : Edit α} {fault : TreeError} {after : Tree}
    (outcome : edit tree = .error fault after) : left edit tree = after := by
  rw [left, outcome]

theorem bind_of_error {edit : Edit α} {next : α → Edit β} {fault : TreeError} {after : Tree}
    (outcome : edit tree = .error fault after) : (edit >>= next) tree = .error fault after := by
  simp only [bind, EStateM.bind, outcome]

namespace Ends

variable {made : α → Tree → Prop} {made' : β → Tree → Prop} {refused refused' : Tree → Prop}
  {edit : Edit α} {next : α → Edit β}

/-- Edits one after the other: the second is tried on what the first makes. -/
theorem bind (ends : Ends made refused' edit tree)
    (goes : ∀ value after, made value after → Ends made' refused' (next value) after) :
    Ends made' refused' (edit >>= next) tree := by
  cases ends with
  | made outcome holds =>
    cases goes _ _ holds with
    | made outcome' holds' => exact .made ((bind_of_ok outcome).trans outcome') holds'
    | refused outcome' holds' => exact .refused ((bind_of_ok outcome).trans outcome') holds'
  | refused outcome holds => exact .refused (bind_of_error outcome) holds

/-- The first of two edits is known to be made. -/
theorem of_ok {value : α} {after : Tree} (outcome : edit tree = .ok value after)
    (ends : Ends made' refused (next value) after) : Ends made' refused (edit >>= next) tree :=
  have known : Ends (fun value' after' => value = value' ∧ after = after') refused edit tree :=
    .made outcome ⟨rfl, rfl⟩
  known.bind fun _ _ ⟨same, same'⟩ => same ▸ same' ▸ ends

theorem imp {made' : α → Tree → Prop} (ends : Ends made refused edit tree)
    (goes : ∀ value after, made value after → made' value after)
    (fails : ∀ after, refused after → refused' after) : Ends made' refused' edit tree := by
  cases ends with
  | made outcome holds => exact .made outcome (goes _ _ holds)
  | refused outcome holds => exact .refused outcome (fails _ holds)

end Ends

/-! ## How each change ends -/

variable {id parent child element : NodeId}

theorem ends_appendChild (closed : tree.Closed) (inside : parent < tree.size)
    (inside' : child < tree.size) :
    Ends (fun _ after => tree.IsContainer parent ∧ after.Closed ∧ tree.SameForms after)
      (fun after => ¬ tree.IsContainer parent ∧ after = tree) (appendChild parent child) tree := by
  obtain ⟨kind, known⟩ := Tree.exists_kind? inside
  obtain ⟨kind', known'⟩ := Tree.exists_kind? inside'
  cases content : kind.content? with
  | some children =>
    refine .made (appendChild_of_container known content known')
      ⟨⟨kind, children, known, content⟩, ?_, Tree.sameForms_append known⟩
    refine (closed.setKind fun held member => ?_).setParent
    rw [NodeKind.walkChildren_withChild content, List.mem_append, List.mem_singleton] at member
    rcases member with old | rfl
    · exact closed parent kind known held old
    · exact inside'
  | none =>
    have outcome : appendChild parent child tree =
        .error (.wrongKind parent .container kind.shape) tree := by
      rw [appendChild, bind_of_ok (kindOf_of_kind? known)]
      simp only [content]
      rfl
    refine .refused outcome ⟨?_, rfl⟩
    rintro ⟨kind', children, known', content'⟩
    obtain rfl := Option.some.inj (known.symm.trans known')
    cases content.symm.trans content'

/-- What asks for the attribute run of a node asks for an element. -/
theorem ends_attributeRun (inside : element < tree.size) :
    Ends (fun run after => tree.attributeRun? element = some run ∧ after = tree)
      (fun after => tree.attributeRun? element = none ∧ after = tree)
      (attributeRun element) tree := by
  obtain ⟨kind, known⟩ := Tree.exists_kind? inside
  cases kind with
  | element name run children =>
    have run := Tree.attributeRun?_of_kind? known
    exact .made (attributeRun_of_attributeRun? run) ⟨run, rfl⟩
  | _ =>
    refine .refused (bind_of_ok (kindOf_of_kind? known)) ⟨?_, rfl⟩
    rw [Tree.attributeRun?, known]

theorem ends_appendAttribute (closed : tree.Closed) (inside : element < tree.size)
    (inside' : child < tree.size) :
    Ends (fun _ after => tree.TakesAttributes element ∧ after.Closed ∧ tree.SameForms after)
      (fun after => ¬ tree.TakesAttributes element ∧ after = tree) (appendAttribute element child)
      tree := by
  have asked := ends_attributeRun inside
  refine (asked.imp (fun _ _ => id) ?_).bind fun run after ⟨known, same⟩ => ?_
  · rintro after ⟨none, same⟩
    refine ⟨fun ⟨run, known, _⟩ => ?_, same⟩
    cases none.symm.trans known
  · subst same
    obtain ⟨name, children, isElement⟩ := Tree.kind?_of_attributeRun? known
    have runInside := closed element _ isElement run List.mem_cons_self
    refine (ends_appendChild closed runInside inside').imp ?_ ?_
    · rintro - grown ⟨container, rest⟩
      exact ⟨⟨run, known, container⟩, rest⟩
    · rintro left ⟨notContainer, same⟩
      refine ⟨fun ⟨run', known', container⟩ => notContainer ?_, same⟩
      exact Option.some.inj (known.symm.trans known') ▸ container

theorem ends_replaceAttributeChildren {children : List NodeId} (closed : tree.Closed)
    (inside : element < tree.size) (inside' : ∀ child ∈ children, child < tree.size) :
    Ends (fun _ after => tree.attributeRun? element ≠ none ∧ after.Closed)
      (fun after => tree.attributeRun? element = none ∧ after = tree)
      (replaceAttributeChildren element children) tree := by
  refine (ends_attributeRun inside).bind fun run after ⟨known, same⟩ => ?_
  subst same
  obtain ⟨name, content, isElement⟩ := Tree.kind?_of_attributeRun? known
  obtain ⟨movedClosed, size⟩ := closed.foldl_setParent children run
  obtain ⟨kind, isRun⟩ :=
    Tree.exists_kind? (size ▸ closed element _ isElement run List.mem_cons_self)
  have required : children.forM require after = .ok () after :=
    forM_require fun child member => Tree.exists_kind? (inside' child member)
  have found : after.attributeRun? element ≠ none := by
    rw [known]
    exact Option.some_ne_none run
  refine .of_ok required (.of_ok rfl (.of_ok (kindOf_of_kind? isRun) ?_))
  cases kind with
  | fragment old =>
    refine .made rfl ⟨found, movedClosed.setKind fun child member => ?_⟩
    rw [size]
    exact inside' child member
  | _ => exact .made rfl ⟨found, movedClosed⟩

theorem ends_setText (closed : tree.Closed) (inside : id < tree.size) (content : String) :
    Ends (fun _ after => tree.textContent? id ≠ none ∧ after.Closed)
      (fun after => tree.textContent? id = none ∧ after = tree) (setText id content) tree := by
  obtain ⟨kind, known⟩ := Tree.exists_kind? inside
  cases kind with
  | text old =>
    refine .made (setText_of_text known content) ⟨?_, closed.setKind fun _ member => nomatch member⟩
    rw [Tree.textContent?, known]
    exact Option.some_ne_none old
  | _ =>
    refine .refused (bind_of_ok (kindOf_of_kind? known)) ⟨?_, rfl⟩
    rw [Tree.textContent?, known]

/-- A node without children that has just been made becomes the last item of an attribute run. -/
theorem ends_appendAttribute_push (closed : tree.Closed) (inside : element < tree.size)
    {kind : NodeKind} (leaf : kind.walkChildren = []) :
    Ends (fun _ after => tree.TakesAttributes element ∧ after.Closed ∧ tree.SameForms after)
      (fun after => ¬ tree.TakesAttributes element ∧ after = tree.push kind)
      (appendAttribute element tree.size) (tree.push kind) := by
  have grown : (tree.push kind).Closed := by
    refine closed.push fun child member => ?_
    rw [leaf] at member
    cases member
  have size : (tree.push kind).size = tree.size + 1 := Tree.size_push _ _ _
  have inside' : element < (tree.push kind).size := size ▸ Nat.lt_succ_of_lt inside
  have new : tree.size < (tree.push kind).size := size ▸ Nat.lt_succ_self _
  refine (ends_appendAttribute grown inside' new).imp ?_ ?_
  · rintro - after ⟨takes, closed', same⟩
    exact ⟨(Tree.takesAttributes_push closed inside).mp takes, closed',
      (Tree.sameForms_push kind none).trans same⟩
  · rintro after ⟨notTakes, rfl⟩
    exact ⟨mt (Tree.takesAttributes_push closed inside).mpr notTakes, rfl⟩

/-- A node that takes attributes does not refuse a new one. -/
theorem ends_addAttribute (closed : tree.Closed) (takes : tree.TakesAttributes element)
    (name value : String) :
    Ends (fun _ after => after.Closed) (fun _ => False) (do
      let added ← newAttribute name (some value)
      appendAttribute element added
      return added) tree := by
  obtain ⟨run, isElement, -⟩ := id takes
  have inside := Tree.lt_size_of_attributeRun? isElement
  refine .of_ok rfl (((ends_appendAttribute_push closed inside rfl).imp (fun _ _ => id) ?_).bind ?_)
  · rintro after ⟨notTakes, -⟩
    exact notTakes takes
  · rintro - after ⟨-, closed', -⟩
    exact .made rfl closed'

/-- The separator has been made when a node refuses an attribute. -/
theorem ends_setAttribute (closed : tree.Closed) (inside : element < tree.size)
    (name value : String) :
    Ends (fun _ after => tree.TakesAttributes element ∧ after.Closed)
      (fun after => ¬ tree.TakesAttributes element ∧ after = tree.push (.text separator))
      (setAttribute element name value) tree := by
  obtain ⟨kind, known⟩ := Tree.exists_kind? inside
  rw [setAttribute]
  refine .of_ok (require_of_kind? known) (.of_ok rfl ?_)
  -- An attribute that is found, or a blank at the end, is an item of the run, and only an element
  -- that takes attributes has one.
  cases found : tree.findAttribute element name with
  | some item =>
    have takes := Tree.takesAttributes_of_mem (List.mem_of_find?_eq_some found)
    obtain ⟨part, old, quote, isAttr⟩ := Tree.kind?_of_hasLiteralName (List.find?_some found)
    refine .of_ok (setValue_of_attr isAttr value) (.made rfl ⟨takes, closed.setKind ?_⟩)
    exact fun _ member => absurd member List.not_mem_nil
  | none =>
    cases blank : tree.runEndsBlank element with
    | true =>
      obtain ⟨last, isLast, -⟩ := (Option.any_eq_true _ _).mp blank
      have takes := Tree.takesAttributes_of_mem (List.mem_of_getLast? isLast)
      have added := ends_addAttribute closed takes name value
      exact added.imp (fun _ _ closed' => ⟨takes, closed'⟩) fun _ => False.elim
    | false =>
      have made : (newText separator : Edit NodeId) tree =
        .ok tree.size (tree.push (.text separator)) := rfl
      simp only [Bool.false_eq_true, if_false]
      refine .of_ok made ((ends_appendAttribute_push closed inside rfl).bind ?_)
      rintro - after ⟨takes, closed', same⟩
      have added := ends_addAttribute closed' (takes.of_sameForms same) name value
      exact added.imp (fun _ _ closed'' => ⟨takes, closed''⟩) fun _ => False.elim

end Edit

end Templating.Markup
