import Mathlib.Data.List.Chain
import Templating.Proofs.Markup.Pass.Rewording
import Templating.Proofs.Markup.RoundTrip

/-!
# Parsed runs are spaced

All blanks between two attributes are read as one gap. So no gap of a run that is read stands behind
another one, and no blank text of a run stands behind a text in the tree of a source.

- `alternating_of_readRunFrom`, `alternating_of_mem_scan`: the runs that are read.
- `Tree.RunsSpaced.grown`: a token adds a run to the tree and does not touch the others.
- `Building.runsSpaced`, `parseMarkup_spaced`: the result while parsing, and for whole sources.
-/

namespace Templating.Markup

open Templating.Text

/-! ## Reading -/

/-- No gap stands behind a gap. -/
def Alternating (parts : List RunItem) : Prop :=
  parts.IsChain fun left right => right.isGap = true → left.isGap = false

/-- **Gaps alternate with attributes** in a run that is read, and what is read in an
attribute begins with it. -/
theorem alternating_of_readRunFrom {state : RunState} {text : List Char} {items : List RunItem}
    (read : readRunFrom state text = .ok items) :
    Alternating items ∧
      (state.inAttribute = true → ∀ first ∈ items.head?, first.isGap = false) := by
  induction text generalizing state items with
  | nil =>
    cases state with
    | start =>
      cases read
      exact ⟨List.isChain_nil, nofun⟩
    | gap blanks =>
      cases read
      exact ⟨List.isChain_singleton _, nofun⟩
    | name letters =>
      cases read
      refine ⟨List.isChain_singleton _, fun _ first isFirst => ?_⟩
      obtain rfl := Option.some.inj isFirst
      rfl
    | assigned letters => cases read
    | value letters quote inside => cases read
  | cons c rest ih =>
    cases runStep state c with
    | reads next _ within step =>
      rw [step] at read
      exact ⟨(ih read).1, fun inside => (ih read).2 (within inside)⟩
    | closes item next _ kind behind step =>
      rw [step] at read
      obtain ⟨items, later, rfl⟩ := exists_of_map_eq_ok read
      obtain ⟨alternating, attr⟩ := ih later
      refine ⟨List.isChain_cons.mpr ⟨fun second isSecond gap => ?_, alternating⟩, ?_⟩
      · refine Bool.eq_false_iff.mpr fun isGap => ?_
        rw [attr (behind isGap) second isSecond] at gap
        cases gap
      · intro inside first isFirst
        obtain rfl := Option.some.inj isFirst
        exact kind inside
    | fails fault step => cases (step rest).symm.trans read

theorem alternating_of_readStartTag {body : List Char} {name : String} {run : List RunItem}
    (read : readStartTag body = .ok (.startTag name run)) : Alternating run := by
  obtain ⟨items, readsRun, isTag⟩ := exists_of_map_eq_ok read
  obtain ⟨-, rfl⟩ := Token.startTag.inj isTag
  exact (alternating_of_readRunFrom readsRun).1

/-- The run of every start tag that is scanned alternates. -/
theorem alternating_of_mem_scan {state : ScanState} {source : List Char} {name : String}
    {run : List RunItem} (member : .ok (.startTag name run) ∈ scanFrom state source) :
    Alternating run := by
  have notText {content : List Char} (member : .ok (.startTag name run) ∈ textToken content) :
      False := by
    unfold textToken at member
    split at member
    · cases member
    · cases List.mem_singleton.mp member
  fun_induction scanFrom state source with
  -- The source ends here, or what is read so far is no start tag.
  | case1 => exact (notText member).elim
  | case2 | case3 | case4 | case5 | case17 => cases List.mem_singleton.mp member
  -- Text ends in front of a tag or an expression.
  | case6 content rest ih | case7 content rest _ ih =>
    rcases List.mem_append.mp member with text | later
    · exact (notText text).elim
    · exact ih later
  -- An expression, an end tag and a start tag without a name and a run are read.
  | case9 source rest ih | case11 written rest ih =>
    rcases List.mem_cons.mp member with first | later
    · cases first
    · exact ih later
  | case14 rest _ ih =>
    rcases List.mem_cons.mp member with first | later
    · cases first
      exact List.isChain_nil
    · exact ih later
  -- Any other start tag is read.
  | case16 quote body c rest _ token read ih =>
    rcases List.mem_cons.mp member with first | later
    · cases first
      exact alternating_of_readStartTag read
    · exact ih later
  -- One more character of the token is read.
  | case8 | case10 | case12 | case13 | case15 | case18 => exact ‹_ → Alternating run› member

/-! ## Trees -/

namespace Tree

variable {tree : Tree} {holder child id : NodeId} {added : List Node} {kind : NodeKind}

/-- In no attribute run does a blank text stand behind a text. -/
def RunsSpaced (tree : Tree) : Prop :=
  ∀ id name run children items, tree.kind? id = some (.element name run children) →
    tree.kind? run = some (.fragment items) → tree.SpacedItems items

theorem runsSpaced_empty : Tree.empty.RunsSpaced := by
  intro id name run children items known
  obtain ⟨node, slot, isElement⟩ := exists_of_kind? known
  have inside : id < 1 := lt_size slot
  obtain rfl := Nat.lt_one_iff.mp inside
  cases known

/-- A run is spaced as its items alternate. -/
theorem spacedItems_of_alternating {parts : List RunItem} {start : Nat}
    (slots : ∀ index, tree.kind? (start + index) = parts[index]?.map RunItem.kind)
    (alternating : Alternating parts) :
    tree.SpacedItems (List.range' start parts.length) := by
  have text (index : Nat) (bounded : index < parts.length) :
      (tree.textContent? (start + index)).isSome = parts[index].isGap := by
    rw [textContent?, slots, List.getElem?_eq_getElem bounded]
    cases parts[index] <;> rfl
  refine List.isChain_iff_getElem.mpr fun index bounded blank => ?_
  rw [List.length_range'] at bounded
  rw [List.getElem_range', Nat.one_mul] at blank ⊢
  have right : parts[index + 1].isGap = true :=
    (text (index + 1) bounded).symm.trans (Option.isSome_of_any blank)
  have left : parts[index].isGap = false := alternating.getElem index bounded right
  rw [← Option.not_isSome, text index (Nat.lt_of_succ_lt bounded), left]
  rfl

/-- Old nodes are texts as they were. -/
theorem textContent?_attach_of_lt (old : id < tree.size) :
    (tree.attach holder added child).textContent? id = tree.textContent? id := by
  rw [textContent?, textContent?, kind?, kind?]
  by_cases same : id = holder
  · subst same
    obtain ⟨⟨kind, parent⟩, slot⟩ := exists_get? old
    rw [get?_attach_holder _ _ old, slot]
    cases kind <;> rfl
  · rw [get?_attach_of_lt _ _ old same]

/-- What is attached to the root or to an element leaves the runs that there are spaced. -/
theorem RunsSpaced.attach (spaced : tree.RunsSpaced) (linked : tree.Linked)
    (known : tree.kind? holder = some kind)
    (taker : holder = Tree.root ∨ ∃ name run children, kind = .element name run children)
    (new : ∀ node ∈ added, ∀ name run children items, node.kind = .element name run children →
      (tree.attach holder added child).kind? run = some (.fragment items) →
      (tree.attach holder added child).SpacedItems items) :
    (tree.attach holder added child).RunsSpaced := by
  obtain ⟨old, slot, isOld⟩ := exists_of_kind? known
  have inside := lt_size slot
  intro id name run children' items isElement isRun
  obtain ⟨node, now, isNode⟩ := exists_of_kind? isElement
  -- The element is old, or it has just been added with its run.
  have cases : (∃ children, tree.kind? id = some (.element name run children)) ∨ node ∈ added := by
    rcases slot_attach inside now with ⟨rfl, node', slot', rfl⟩ | ⟨-, same⟩ | ⟨offset, rfl, found⟩
    · obtain ⟨before, isElement'⟩ := NodeKind.element_of_withChild isNode
      exact .inl ⟨before, (kind?_of_get? slot').trans (congrArg some isElement')⟩
    · exact .inl ⟨children', (kind?_of_get? same).trans (congrArg some isNode)⟩
    · exact .inr (List.mem_of_getElem? found)
  rcases cases with ⟨before, isElement'⟩ | member
  · obtain ⟨items', isRun'⟩ := linked.run_fragment id name run before isElement'
    have notHolder : run ≠ holder := by
      rintro rfl
      rcases taker with rfl | ⟨name', run', children'', rfl⟩
      · refine linked.root_free id ?_
        rw [Holds, walkChildren_of_kind? isElement']
        exact List.mem_cons_self
      · cases known.symm.trans isRun'
    obtain ⟨runNode, runSlot, -⟩ := exists_of_kind? isRun'
    rw [kind?, get?_attach_of_lt _ _ (lt_size runSlot) notHolder] at isRun
    have same : ∀ item ∈ items, (tree.attach holder added child).textContent? item =
        tree.textContent? item := by
      intro item member
      have holds : tree.Holds run item := by
        rw [Holds, walkChildren_of_kind? isRun]
        exact member
      exact textContent?_attach_of_lt (linked.lt_size holds)
    refine (spaced id name run before items isElement' isRun).congr (fun item member => ?_)
      fun item member => ?_
    · rw [isBlankText, isBlankText, same item member]
    · rw [same item member]
  · exact new node member name run children' items isNode isRun

/-- **A token** adds a run to the tree that is spaced when the items alternate, and leaves the
others as they were. -/
theorem RunsSpaced.grown {token : Token} (spaced : tree.RunsSpaced) (linked : tree.Linked)
    (known : tree.kind? holder = some kind)
    (taker : holder = Tree.root ∨ ∃ name run children, kind = .element name run children)
    (alternating : ∀ name run, token = .startTag name run → Alternating run) :
    (tree.grown holder token).RunsSpaced := by
  have inside := exists_slot_of_kind? known
  refine spaced.attach linked known taker fun node member name run children items isNode isRun => ?_
  cases token with
  | text content =>
    obtain rfl := List.mem_singleton.mp member
    cases isNode
  | expression source =>
    obtain rfl := List.mem_singleton.mp member
    cases isNode
  | endTag written => cases member
  | startTag name' parts =>
    -- Of the new slots only the second is an element, and the first is its run.
    rcases List.mem_cons.mp member with rfl | member
    · cases isNode
    · rcases List.mem_cons.mp member with rfl | member
      · obtain ⟨-, rfl, -⟩ := NodeKind.element.inj isNode
        have slot (offset : Nat) : (tree.grown holder (.startTag name' parts)).kind?
            (tree.size + offset) = _ := kind?_grown_startTag inside offset
        cases isRun.symm.trans (slot 0)
        refine spacedItems_of_alternating (fun index => ?_) (alternating name' parts rfl)
        rw [Nat.add_assoc]
        refine (slot (2 + index)).trans ?_
        rw [Nat.add_comm 2 index, elementNodes_item, Option.map_map]
        rfl
      · obtain ⟨item, -, rfl⟩ := List.mem_map.mp member
        cases item <;> cases isNode

/-- The innermost open node is the root or an element. -/
theorem Opened.root_or_element {spine next outer : List NodeId} {names : List String}
    {text : List Char} (opened : tree.Opened spine next (id :: outer) names text) :
    ∃ kind, tree.kind? id = some kind ∧
      (id = Tree.root ∨ ∃ name run children, kind = .element name run children) := by
  cases opened with
  | root known => exact ⟨_, known, .inl rfl⟩
  | element known => exact ⟨_, known, .inr ⟨_, _, _, rfl⟩⟩

end Tree

/-! ## Parsing -/

namespace Building

variable {tree : Tree} {current : NodeId} {outer : List NodeId} {names : List String}
  {text : List Char}

theorem runsSpaced_grown (building : Building tree current outer names text)
    (spaced : tree.RunsSpaced) {token : Token}
    (alternating : ∀ name run, token = .startTag name run → Alternating run) :
    (tree.grown current token).RunsSpaced := by
  obtain ⟨kind, known, taker⟩ := building.opened.root_or_element
  exact spaced.grown building.linked known taker alternating

/-- **Parsing to the end** leaves all runs spaced. The induction is on the tokens that are left. -/
theorem runsSpaced {tokens : List Token} {built : Tree}
    (building : Building tree current outer names text) (spaced : tree.RunsSpaced)
    (scannable : Scannable tokens)
    (alternating : ∀ name run, Token.startTag name run ∈ tokens → Alternating run)
    (builds : buildTree tree current outer (tokens.map .ok) = .ok built) : built.RunsSpaced := by
  induction tokens generalizing tree current outer names text with
  | nil =>
    cases outer with
    | cons holder further => cases builds
    | nil =>
      obtain rfl := Except.ok.inj builds
      exact spaced
  | cons token rest ih =>
    obtain ⟨here, -, later⟩ := scannable
    rw [List.map_cons] at builds
    have alternating' : ∀ name run, Token.startTag name run ∈ rest → Alternating run :=
      fun name run member => alternating name run (List.mem_cons_of_mem _ member)
    have grown : (tree.grown current token).RunsSpaced := building.runsSpaced_grown spaced
      fun name run same => alternating name run (same ▸ List.mem_cons_self)
    cases building.parseStep here with
    | grows holder further inner next step =>
      rw [step] at builds
      exact ih next grown later alternating' builds
    | closes name written holder further inner isEnd same _ closed step =>
      subst isEnd
      rw [step written _ same] at builds
      exact ih closed spaced later alternating' builds
    | fails fault step => cases (step _).symm.trans builds

end Building

/-- **Parsed runs are spaced**, in a well-formed tree. -/
theorem parseMarkup_spaced {source : String} {tree : Tree}
    (parsed : parseMarkup source = .ok tree) : tree.WellFormed ∧ tree.Spaced := by
  obtain ⟨tokens, scanned⟩ := exists_tokens_of_buildTree parsed
  obtain ⟨scannable, -⟩ := scannable_of_scan reached_start scanned
  rw [parseMarkup, scanned] at parsed
  have wf := (building_empty.run scannable parsed).1.linked.wellFormed
  have spaced := building_empty.runsSpaced Tree.runsSpaced_empty scannable (fun name run member =>
    alternating_of_mem_scan (scanned ▸ List.mem_map_of_mem member)) parsed
  refine ⟨wf, fun id visible => ?_⟩
  cases element : tree.attributeRun? id with
  | none =>
    rw [Tree.attributeChildren, element]
    exact List.isChain_nil
  | some run =>
    obtain ⟨name, children, known⟩ := Tree.kind?_of_attributeRun? element
    rw [Tree.attributeChildren, element, Option.map_some, Option.getD_some]
    exact spaced id name run children _ known (wf.kind?_attributeRun visible.reachable element)

end Templating.Markup
