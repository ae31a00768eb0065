import Templating.Proofs.Markup.OpenTree
import Templating.Proofs.Text.Substitution

/-!
# Printing and parsing agree

A source that is parsed is the written form of its tokens, and its tree prints as the same tokens,
with every end tag written as its start tag names the element (`nameEnds`). `Building` holds of the
tree while the parser goes over the tokens, `ParseStep` says what it makes of one of them, and
`Building.run` takes it to the end: there the markup is complete, and the tokens that it consists of
build the same tree.

- `parseMarkup_roundTrip`: the result for whole sources.
-/

namespace Templating.Markup

open Templating.Text

/-! ## End tags -/

/-- The tokens with every end tag naming the element that it closes; `opened` are the names of the
elements that are open, the innermost first. An end tag with no element open stays as it is, which
no source that is parsed has. -/
def nameEnds : List String → List Token → List Token
  | _, [] => []
  | name :: opened, .endTag _ :: rest => .endTag name :: nameEnds opened rest
  | [], .endTag written :: rest => .endTag written :: nameEnds [] rest
  | opened, .startTag name run :: rest =>
    .startTag name run :: nameEnds (if isVoid name then opened else name :: opened) rest
  | opened, .text content :: rest => .text content :: nameEnds opened rest
  | opened, .expression source :: rest => .expression source :: nameEnds opened rest

theorem nameEnds_text (names : List String) (content : String) (rest : List Token) :
    nameEnds names (.text content :: rest) = .text content :: nameEnds names rest := by
  cases names <;> rfl

theorem nameEnds_expression (names : List String) (source : String) (rest : List Token) :
    nameEnds names (.expression source :: rest) = .expression source :: nameEnds names rest := by
  cases names <;> rfl

theorem nameEnds_startTag (names : List String) (name : String) (run : List RunItem)
    (rest : List Token) :
    nameEnds names (.startTag name run :: rest) =
      .startTag name run :: nameEnds (if isVoid name then names else name :: names) rest := by
  cases names <;> rfl

/-- Every token begins as it did. -/
theorem head?_nameEnds (names : List String) (tokens : List Token) :
    ((nameEnds names tokens).flatMap Token.written).head? =
      (tokens.flatMap Token.written).head? := by
  induction tokens generalizing names with
  | nil => cases names <;> rfl
  | cons token rest ih =>
    cases token with
    | text content => cases names <;> simp [nameEnds, List.head?_append, ih]
    | expression source => cases names <;> rfl
    | startTag name run => cases names <;> rfl
    | endTag written => cases names <;> rfl

theorem endsText_nameEnds {tokens : List Token} (ends : EndsText (tokens.flatMap Token.written))
    (names : List String) : EndsText ((nameEnds names tokens).flatMap Token.written) := by
  intro c first
  rw [head?_nameEnds] at first
  exact ends c first

/-- Trimming keeps a name without blanks. -/
theorem trim_of_dense {name : List Char} (dense : ∀ c ∈ name, isBlank c = false) :
    trim name = name := by
  have drop {text : List Char} (dense : ∀ c ∈ text, isBlank c = false) :
      text.dropWhile isBlank = text := by
    cases text with
    | nil => rfl
    | cons c rest => rw [List.dropWhile_cons, dense c List.mem_cons_self]; rfl
  rw [trim, trimBy, drop dense, dropTail,
    drop fun c member => dense c (List.mem_reverse.mp member), List.reverse_reverse]

/-- A name agrees with what an end tag names, so it does not end an end tag. -/
theorem not_mem_of_sameName {name : String} {written : List Char} (inside : '>' ∉ written)
    (same : sameName name (String.ofList (trim written)) = true) : '>' ∉ name.toList := by
  intro member
  rw [sameName, String.toList_ofList, beq_iff_eq] at same
  have lower : '>' ∈ lowerLetters (trim written) := same ▸ List.mem_map_of_mem member
  obtain ⟨c, inTrim, isEnd⟩ := List.mem_map.mp lower
  obtain rfl : c = '>' := eq_of_toLower_eq isEnd (by decide)
  refine inside ?_
  rw [trim, trimBy, dropTail, List.mem_reverse] at inTrim
  exact (List.dropWhile_sublist _).subset
    (List.mem_reverse.mp ((List.dropWhile_sublist _).subset inTrim))

/-! ## Steps of the parser -/

/-- The tree in the middle of parsing: its slots are linked, its markup so far is `text`, and the
elements that are open have names without blanks. -/
structure Building (tree : Tree) (current : NodeId) (outer : List NodeId) (names : List String)
    (text : List Char) : Prop where
  linked : tree.Linked
  opened : tree.Opened (current :: outer) [] (current :: outer) names text
  dense : ∀ name ∈ names, ∀ c ∈ name.toList, isBlank c = false

theorem building_empty : Building .empty Tree.root [] [] [] :=
  ⟨Tree.linked_empty, .root rfl .nil, by simp⟩

namespace Building

variable {tree : Tree} {current : NodeId} {outer : List NodeId} {names : List String}
  {text : List Char}

theorem edited_eq (building : Building tree current outer names text) (token : Token)
    (notEnd : ∀ written, token ≠ .endTag written) :
    edited (addToken current token) tree =
      (token.node tree.size, tree.grown current token) := by
  obtain ⟨kind, children, known, container⟩ := building.opened.container current List.mem_cons_self
  exact Edit.edited_addToken known container notEnd

theorem linked_grown (building : Building tree current outer names text) {token : Token}
    (notEnd : ∀ written, token ≠ .endTag written) : (tree.grown current token).Linked := by
  obtain ⟨kind, children, known, container⟩ := building.opened.container current List.mem_cons_self
  exact building.linked.grown known container notEnd

theorem after_text (building : Building tree current outer names text) (content : String) :
    Building (tree.grown current (.text content)) current outer names
      (text ++ (Token.text content).written) :=
  ⟨building.linked_grown (by simp), building.opened.grown_leaf rfl rfl rfl rfl, building.dense⟩

theorem after_expression (building : Building tree current outer names text) (source : String) :
    Building (tree.grown current (.expression source)) current outer names
      (text ++ (Token.expression source).written) := by
  refine ⟨building.linked_grown (by simp), building.opened.grown_leaf rfl rfl rfl ?_,
    building.dense⟩
  simp [Token.written]

theorem after_void (building : Building tree current outer names text) {name : String}
    (isVoid : isVoid name = true) (run : List RunItem) :
    Building (tree.grown current (.startTag name run)) current outer names
      (text ++ (Token.startTag name run).written) :=
  ⟨building.linked_grown (by simp), building.opened.grown_void isVoid, building.dense⟩

theorem after_element (building : Building tree current outer names text) {name : String}
    (notVoid : isVoid name = false) (dense : ∀ c ∈ name.toList, isBlank c = false)
    (run : List RunItem) :
    Building (tree.grown current (.startTag name run)) (tree.size + 1) (current :: outer)
      (name :: names) (text ++ (Token.startTag name run).written) := by
  refine ⟨building.linked_grown (by simp), building.opened.grown_element notVoid, ?_⟩
  intro other member
  rcases List.mem_cons.mp member with rfl | member
  · exact dense
  · exact building.dense other member

/-- The element that is open has the first of the names, and can be closed. -/
theorem after_end {holder : NodeId} {further : List NodeId}
    (building : Building tree current (holder :: further) names text) :
    ∃ name outerNames, names = name :: outerNames ∧ tree.elementName? current = some name ∧
      Building tree holder further outerNames (text ++ (Token.endTag name).written) := by
  obtain ⟨name, outerNames, rfl, isOpen⟩ := building.opened.exists_name
  exact ⟨name, outerNames, rfl, isOpen, building.linked, building.opened.close, fun other member =>
    building.dense other (List.mem_cons_of_mem _ member)⟩

theorem buildTree_text (building : Building tree current outer names text) (content : String)
    (tail : Scanned) : buildTree tree current outer (.ok (.text content) :: tail) =
      buildTree (tree.grown current (.text content)) current outer tail :=
  congrArg (fun added => buildTree added.2 current outer tail) (building.edited_eq _ (by simp))

theorem buildTree_expression (building : Building tree current outer names text) (source : String)
    (tail : Scanned) : buildTree tree current outer (.ok (.expression source) :: tail) =
      buildTree (tree.grown current (.expression source)) current outer tail :=
  congrArg (fun added => buildTree added.2 current outer tail) (building.edited_eq _ (by simp))

theorem buildTree_startTag (building : Building tree current outer names text) (name : String)
    (run : List RunItem) (tail : Scanned) :
    buildTree tree current outer (.ok (.startTag name run) :: tail) =
      if isVoid name then
        buildTree (tree.grown current (.startTag name run)) current outer tail
      else
        buildTree (tree.grown current (.startTag name run)) (tree.size + 1) (current :: outer)
          tail := by
  rw [buildTree, building.edited_eq (.startTag name run) (by simp)]
  rfl

end Building

theorem buildTree_endTag {tree : Tree} {current holder : NodeId} {further : List NodeId}
    {name : String} (isOpen : tree.elementName? current = some name) (written : String)
    (tail : Scanned) :
    buildTree tree current (holder :: further) (.ok (.endTag written) :: tail) =
      if sameName name (String.ofList (trim written.toList)) then
        buildTree tree holder further tail
      else .error (.unexpectedEndTag (String.ofList (trim written.toList))) := by
  rw [buildTree, Tree.isElement, isOpen]
  rfl

/-- What parsing makes of a token: which elements are open behind it and how the rest is parsed. -/
inductive ParseStep (tree : Tree) (current : NodeId) (outer : List NodeId) (names : List String)
    (text : List Char) (token : Token) : Prop
  /-- The token is added to the tree. -/
  | grows (holder : NodeId) (further : List NodeId) (inner : List String)
      (building :
        Building (tree.grown current token) holder further inner (text ++ token.written))
      (step : ∀ tail, buildTree tree current outer (.ok token :: tail) =
        buildTree (tree.grown current token) holder further tail)
      (ends : ∀ rest, nameEnds names (token :: rest) = token :: nameEnds inner rest)
  /-- The token is an end tag of the innermost element; every other spelling would do as well. -/
  | closes (name written : String) (holder : NodeId) (further : List NodeId)
      (inner : List String) (isEnd : token = .endTag written)
      (same : sameName name (String.ofList (trim written.toList)) = true)
      (dense : ∀ c ∈ name.toList, isBlank c = false)
      (building : Building tree holder further inner (text ++ (Token.endTag name).written))
      (step : ∀ spelled tail, sameName name (String.ofList (trim spelled.toList)) = true →
        buildTree tree current outer (.ok (.endTag spelled) :: tail) =
          buildTree tree holder further tail)
      (ends : ∀ rest, nameEnds names (token :: rest) = .endTag name :: nameEnds inner rest)
  /-- The token is an end tag that closes nothing. -/
  | fails (fault : MarkupError)
      (step : ∀ tail, buildTree tree current outer (.ok token :: tail) = .error fault)

namespace Building

variable {tree : Tree} {current : NodeId} {outer : List NodeId} {names : List String}
  {text : List Char}

theorem parseStep_startTag (building : Building tree current outer names text) {name : String}
    {run : List RunItem} (dense : ∀ c ∈ name.toList, isBlank c = false) :
    ParseStep tree current outer names text (.startTag name run) := by
  cases void : isVoid name with
  | true =>
    refine .grows current outer names (building.after_void void run) (fun tail => ?_) fun rest => ?_
    · rw [building.buildTree_startTag, void]
      rfl
    · rw [nameEnds_startTag, void]
      rfl
  | false =>
    refine .grows _ _ (name :: names) (building.after_element void dense run) (fun tail => ?_)
      fun rest => ?_
    · rw [building.buildTree_startTag, void]
      rfl
    · rw [nameEnds_startTag, void]
      rfl

theorem parseStep_endTag (building : Building tree current outer names text) (written : String) :
    ParseStep tree current outer names text (.endTag written) := by
  cases outer with
  | nil => exact .fails _ fun tail => rfl
  | cons holder further =>
    obtain ⟨name, inner, rfl, isOpen, closed⟩ := building.after_end
    cases same : sameName name (String.ofList (trim written.toList)) with
    | true =>
      exact .closes name written holder further inner rfl same
        (building.dense name List.mem_cons_self) closed
        (fun spelled tail agrees => (buildTree_endTag isOpen spelled tail).trans (if_pos agrees))
        fun rest => rfl
    | false =>
      refine .fails _ fun tail => (buildTree_endTag isOpen written tail).trans (if_neg ?_)
      rw [same]
      exact Bool.false_ne_true

/-- **Parsing makes one of these of a token**, whatever tree it has come to. -/
theorem parseStep (building : Building tree current outer names text) {token : Token}
    (scannable : token.Scannable) : ParseStep tree current outer names text token := by
  cases token with
  | text content =>
    exact .grows current outer names (building.after_text content)
      (building.buildTree_text content) (nameEnds_text names content)
  | expression source =>
    exact .grows current outer names (building.after_expression source)
      (building.buildTree_expression source) (nameEnds_expression names source)
  | startTag name run => exact building.parseStep_startTag (scannable.dense_name name run rfl)
  | endTag written => exact building.parseStep_endTag written

/-- **Parsing to the end.** What is built from here on is linked and has all markup, and the tokens
that the markup consists of are scanned from it and build the same tree. The induction is on the
tokens that are left. -/
theorem run {tokens : List Token} {built : Tree} (building : Building tree current outer names text)
    (scannable : Scannable tokens)
    (builds : buildTree tree current outer (tokens.map .ok) = .ok built) :
    Building built Tree.root [] [] (text ++ (nameEnds names tokens).flatMap Token.written) ∧
      Scannable (nameEnds names tokens) ∧
      buildTree tree current outer ((nameEnds names tokens).map .ok) = .ok built := by
  induction tokens generalizing tree current outer names text with
  | nil =>
    cases outer with
    | cons holder further => cases builds
    | nil =>
      obtain ⟨rfl, rfl⟩ := building.opened.eq_root
      obtain rfl := Except.ok.inj builds
      rw [nameEnds, List.flatMap_nil, List.append_nil]
      exact ⟨building, trivial, rfl⟩
  | cons token rest ih =>
    obtain ⟨here, endsText, later⟩ := scannable
    rw [List.map_cons] at builds
    cases building.parseStep here with
    | grows holder further inner grown step ends =>
      rw [step] at builds
      obtain ⟨whole, scans, again⟩ := ih grown later builds
      rw [ends, List.flatMap_cons, ← List.append_assoc, List.map_cons, step]
      exact ⟨whole, ⟨here, fun content isText =>
        endsText_nameEnds (endsText content isText) inner, scans⟩, again⟩
    | closes name written holder further inner isEnd same dense closed step ends =>
      subst isEnd
      rw [step written _ same] at builds
      obtain ⟨whole, scans, again⟩ := ih closed later builds
      have sameEnd : sameName name (String.ofList (trim name.toList)) = true := by
        rw [trim_of_dense dense, String.ofList_toList]
        exact sameName_refl name
      rw [ends, List.flatMap_cons, ← List.append_assoc, List.map_cons, step name _ sameEnd]
      exact ⟨whole, ⟨scannable_endTag (not_mem_of_sameName here.not_mem same),
        (fun _ isText => by cases isText), scans⟩, again⟩
    | fails fault step => cases (step _).symm.trans builds

end Building

/-! ## Whole sources -/

/-- Only a source without a fault is parsed. -/
theorem exists_tokens_of_buildTree {scanned : Scanned} {tree built : Tree} {current : NodeId}
    {outer : List NodeId} (builds : buildTree tree current outer scanned = .ok built) :
    ∃ tokens : List Token, scanned = tokens.map .ok := by
  induction scanned generalizing tree current outer with
  | nil => exact ⟨[], rfl⟩
  | cons first rest ih =>
    cases first with
    | error fault => cases builds
    | ok token =>
      have later : ∃ tree current outer, buildTree tree current outer rest = .ok built := by
        cases token with
        | text content => exact ⟨_, _, _, builds⟩
        | expression source => exact ⟨_, _, _, builds⟩
        | startTag name run =>
          cases void : isVoid name with
          | true => exact ⟨_, _, _, (if_pos void).symm.trans builds⟩
          | false => exact ⟨_, _, _, (if_neg (by simp [void])).symm.trans builds⟩
        | endTag written =>
          cases outer with
          | nil => cases builds
          | cons holder further =>
            cases closes : tree.isElement current (String.ofList (trim written.toList)) with
            | true => exact ⟨_, _, _, (if_pos closes).symm.trans builds⟩
            | false =>
              have fails := (if_neg (by simp [closes])).symm.trans builds
              cases fails
      obtain ⟨tree, current, outer, builds⟩ := later
      obtain ⟨tokens, rfl⟩ := ih builds
      exact ⟨token :: tokens, rfl⟩

/-- **Printing and parsing agree.** The tree of a source that is parsed is well-formed; its markup
is the source with the name of every end tag written as in its start tag; and parsing this markup
gives exactly the same tree again. -/
theorem parseMarkup_roundTrip {source : String} {tree : Tree}
    (parsed : parseMarkup source = .ok tree) :
    tree.WellFormed ∧
      (∃ tokens : List Token, scanTokens source.toList = tokens.map .ok ∧
        tokens.flatMap Token.written = source.toList ∧
        (nameEnds [] tokens).flatMap Token.written = tree.markup.toList) ∧
      parseMarkup tree.markup = .ok tree := by
  obtain ⟨tokens, scanned⟩ := exists_tokens_of_buildTree parsed
  obtain ⟨scannable, written⟩ := scannable_of_scan reached_start scanned
  rw [parseMarkup, scanned] at parsed
  obtain ⟨whole, scans, again⟩ := building_empty.run scannable parsed
  have wf := whole.linked.wellFormed
  have markup : (nameEnds [] tokens).flatMap Token.written = tree.markup.toList :=
    (whole.opened.markup wf).symm
  refine ⟨wf, ⟨tokens, scanned, written, markup⟩, ?_⟩
  rw [parseMarkup, ← markup, scan_written scans]
  exact again

/-- Markup with blanks and other letters in its end tags, an element without a name, a `>` and
quotes in an attribute name, a brace as a value, attributes without a gap, and a void element. -/
def sampleMarkup : String :=
  "a<P q=\"\x7bv\x7d\"r='\x7b'><BR x\">\"=''><></ >\x7be\x7d</ p\n>"

/-- The tree of the sample. -/
def sampleParsed : Tree :=
  match parseMarkup sampleMarkup with
  | .ok tree => tree
  | .error _ => .empty

theorem parseMarkup_roundTrip_sample :
    parseMarkup sampleMarkup = .ok sampleParsed ∧
      sampleParsed.markup = "a<P q=\"\x7bv\x7d\"r='\x7b'><BR x\">\"=''><></>\x7be\x7d</P>" ∧
      sampleParsed.WellFormed ∧ parseMarkup sampleParsed.markup = .ok sampleParsed := by
  have parsed : parseMarkup sampleMarkup = .ok sampleParsed := by decide +kernel
  have roundTrip := parseMarkup_roundTrip parsed
  exact ⟨parsed, by decide +kernel, roundTrip.1, roundTrip.2.2⟩

end Templating.Markup
