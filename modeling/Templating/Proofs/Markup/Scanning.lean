import Templating.Markup.Printer
import Templating.Markup.Token

/-!
# Tokens are what is written

A source without a fault is the written forms of its tokens, one after the other, and each of them
is read for itself: whatever follows, a token that is written is scanned as that token.

- `runStep`, `scanStep`: what the reader of a run, and a scan, can make of a character.
- `RunItem.flatMap_written`: reading an attribute run loses nothing.
- `Reached`: a state of the scan stands for the characters behind the last token.
- `scannable_of_scan`: what a scan gives is `Scannable`, and the source is its written form.
- `scan_written`: what is `Scannable` is scanned back from its written form.
-/

namespace Templating.Markup

open Templating.Text

/-! ## Written forms -/

/-- An item of an attribute run as it stands in a source. -/
def RunItem.written : RunItem → List Char
  | .gap blanks => blanks.toList
  | .attr name value =>
    (renderAttribute (.text name) (value.map Prod.fst) (value.map Prod.snd)).toList

/-- A token as it stands in a source. -/
def Token.written : Token → List Char
  | .text content => content.toList
  | .expression source => '\x7b' :: source.toList ++ ['\x7d']
  | .startTag name run => '<' :: name.toList ++ run.flatMap RunItem.written ++ ['>']
  | .endTag written => '<' :: '/' :: written.toList ++ ['>']

/-! ## Attribute runs -/

/-- What has been read of the piece that a state stands in. -/
def RunState.pending : RunState → List Char
  | .start => []
  | .gap blanks => blanks.reverse
  | .name letters => letters.reverse
  | .assigned letters => letters.reverse ++ ['=']
  | .value letters quote inside => letters.reverse ++ '=' :: quote :: inside.reverse

theorem RunState.pending_open (c : Char) : (RunState.open c).pending = [c] := by
  unfold RunState.open
  split
  · rfl
  · split
    · rename_i sign
      rw [sign]
      rfl
    · rfl

/-- A value is written as it was read, also when it is an expression. -/
theorem toList_render_readValue (value : List Char) : (readValue value).render.toList = value := by
  unfold readValue
  split
  · split
    · rename_i inner closed
      obtain ⟨front, rfl⟩ := List.getLast?_eq_some_iff.mp closed
      simp [AttrPart.render]
    · exact String.toList_ofList
  · exact String.toList_ofList

theorem RunItem.written_gap (blanks : List Char) :
    (RunItem.gap (ofReversed blanks)).written = blanks.reverse :=
  String.toList_ofList

theorem RunItem.written_bare (name : List Char) :
    (RunItem.attr (ofReversed name) none).written = name.reverse :=
  String.toList_ofList

theorem RunItem.written_value (name value : List Char) (quote : Char) :
    (RunItem.attr (ofReversed name) (some (readValue value.reverse, quote))).written =
      name.reverse ++ '=' :: quote :: (value.reverse ++ [quote]) := by
  have inside := toList_render_readValue value.reverse
  simp only [written, Option.map_some, renderAttribute, String.toList_append, inside]
  simp [AttrPart.render, ofReversed]

theorem exists_of_map_eq_ok {ε α β : Type} {f : α → β} {outcome : Except ε α} {result : β}
    (mapped : outcome.map f = .ok result) : ∃ value, outcome = .ok value ∧ f value = result := by
  cases outcome with
  | error fault => cases mapped
  | ok value => exact ⟨value, rfl, Except.ok.inj mapped⟩

/-- Whether the item is the blanks between attributes. -/
def RunItem.isGap : RunItem → Bool
  | .gap _ => true
  | .attr .. => false

/-- Whether the state stands in an attribute. -/
def RunState.inAttribute : RunState → Bool
  | .start => false
  | .gap _ => false
  | .name _ => true
  | .assigned _ => true
  | .value .. => true

theorem RunState.inAttribute_open {c : Char} (solid : isBlank c = false) :
    (RunState.open c).inAttribute = true := by
  rw [RunState.open, solid]
  split
  · contradiction
  · split <;> rfl

/-- What reading a run makes of a character in a state. -/
inductive RunStep (state : RunState) (c : Char) : Prop
  /-- The character is a part of the item that is being read. -/
  | reads (next : RunState) (pending : next.pending = state.pending ++ [c])
      (within : state.inAttribute = true → next.inAttribute = true)
      (step : ∀ rest, readRunFrom state (c :: rest) = readRunFrom next rest)
  /-- The item is complete, before the character or with it; an attribute follows a gap. -/
  | closes (item : RunItem) (next : RunState)
      (written : item.written ++ next.pending = state.pending ++ [c])
      (kind : state.inAttribute = true → item.isGap = false)
      (behind : item.isGap = true → next.inAttribute = true)
      (step : ∀ rest, readRunFrom state (c :: rest) = (readRunFrom next rest).map (item :: ·))
  /-- The character cannot stand there. -/
  | fails (fault : MarkupError) (step : ∀ rest, readRunFrom state (c :: rest) = .error fault)

theorem runStep_gap (blanks : List Char) (c : Char) : RunStep (.gap blanks) c := by
  cases blank : isBlank c with
  | true => exact .reads (.gap (c :: blanks)) List.reverse_cons nofun fun _ => if_pos blank
  | false =>
    refine .closes (.gap (ofReversed blanks)) (.open c) ?_ nofun
      (fun _ => RunState.inAttribute_open blank) fun _ => if_neg (Bool.eq_false_iff.mp blank)
    rw [RunItem.written_gap, RunState.pending_open]
    rfl

theorem runStep_name (letters : List Char) (c : Char) : RunStep (.name letters) c := by
  by_cases sign : c = '='
  · subst sign
    exact .reads (.assigned letters) rfl id fun _ => rfl
  by_cases blank : isBlank c = true
  · refine .closes (.attr (ofReversed letters) none) (.gap [c]) ?_ (fun _ => rfl) nofun
      fun rest => (if_neg sign).trans (if_pos blank)
    rw [RunItem.written_bare]
    rfl
  · exact .reads (.name (c :: letters)) List.reverse_cons id
      fun rest => (if_neg sign).trans (if_neg blank)

theorem runStep_assigned (letters : List Char) (c : Char) : RunStep (.assigned letters) c := by
  by_cases quote : c = '"' ∨ c = '\''
  · refine .reads (.value letters c []) ?_ id fun _ => if_pos quote
    simp [RunState.pending]
  · exact .fails .unquotedValue fun _ => if_neg quote

theorem runStep_value (letters inside : List Char) (quote c : Char) :
    RunStep (.value letters quote inside) c := by
  by_cases closes : c = quote
  · subst closes
    refine .closes (.attr (ofReversed letters) (some (readValue inside.reverse, c))) .start ?_
      (fun _ => rfl) nofun fun _ => if_pos rfl
    rw [RunItem.written_value]
    simp [RunState.pending]
  · refine .reads (.value letters quote (c :: inside)) ?_ id fun _ => if_neg closes
    simp [RunState.pending]

/-- **Reading a run makes one of these of a character**, whatever state it has come to. -/
theorem runStep (state : RunState) (c : Char) : RunStep state c := by
  cases state with
  | start => exact .reads (.open c) (RunState.pending_open c) nofun fun _ => rfl
  | gap blanks => exact runStep_gap blanks c
  | name letters => exact runStep_name letters c
  | assigned letters => exact runStep_assigned letters c
  | value letters quote inside => exact runStep_value letters inside quote c

/-- Reading an attribute run loses nothing. -/
theorem RunItem.flatMap_written {state : RunState} {text : List Char} {items : List RunItem}
    (read : readRunFrom state text = .ok items) :
    items.flatMap RunItem.written = state.pending ++ text := by
  induction text generalizing state items with
  | nil =>
    cases state with
    | start =>
      cases read
      rfl
    | gap blanks =>
      cases read
      rw [List.flatMap_singleton, written_gap, RunState.pending, List.append_nil]
    | name letters =>
      cases read
      rw [List.flatMap_singleton, written_bare, RunState.pending, List.append_nil]
    | assigned letters => cases read
    | value letters quote inside => cases read
  | cons c rest ih =>
    cases runStep state c with
    | reads next pending _ step =>
      rw [step] at read
      rw [ih read, pending, List.append_assoc, List.singleton_append]
    | closes item next written _ _ step =>
      rw [step] at read
      obtain ⟨items, later, rfl⟩ := exists_of_map_eq_ok read
      rw [List.flatMap_cons, ih later, ← List.append_assoc, written, List.append_assoc,
        List.singleton_append]
    | fails fault step => cases (step rest).symm.trans read

/-- Reading a start tag loses nothing, and its name ends before the first blank. -/
theorem readStartTag_eq_ok {body : List Char} {token : Token}
    (read : readStartTag body = .ok token) :
    ∃ name run, token = .startTag name run ∧ token.written = '<' :: (body ++ ['>']) ∧
      ∀ c ∈ name.toList, isBlank c = false := by
  obtain ⟨run, readsRun, rfl⟩ := exists_of_map_eq_ok read
  refine ⟨_, run, rfl, ?_, ?_⟩
  · rw [Token.written, RunItem.flatMap_written readsRun, String.toList_ofList]
    simp only [RunState.pending, List.nil_append, List.cons_append, List.append_assoc]
    rw [← List.append_assoc, List.takeWhile_append_dropWhile]
  · intro c member
    rw [String.toList_ofList] at member
    simpa using List.all_eq_true.mp List.all_takeWhile c member

/-! ## Single tokens -/

/-- Text ends in front of this. -/
def EndsText (behind : List Char) : Prop :=
  ∀ c, behind.head? = some c → c = '<' ∨ c = '\x7b'

/-- In front of anything that ends it, the token is read from its written form. -/
structure Token.Scannable (token : Token) : Prop where
  scan : ∀ behind, (∀ content, token = .text content → EndsText behind) →
    scanTokens (token.written ++ behind) = .ok token :: scanTokens behind
  dense_name : ∀ name run, token = .startTag name run → ∀ c ∈ name.toList, isBlank c = false

/-- Each token is read from its written form where it stands. -/
def Scannable : List Token → Prop
  | [] => True
  | token :: rest =>
    token.Scannable ∧ (∀ content, token = .text content → EndsText (rest.flatMap Token.written)) ∧
      Scannable rest

/-- What is scannable is scanned back from its written form. -/
theorem scan_written {tokens : List Token} (scannable : Scannable tokens) :
    scanTokens (tokens.flatMap Token.written) = tokens.map .ok := by
  induction tokens with
  | nil => rfl
  | cons token rest ih =>
    obtain ⟨here, ends, later⟩ := scannable
    rw [List.flatMap_cons, here.scan _ ends, ih later, List.map_cons]

theorem scan_endTag (read written behind : List Char) (inside : '>' ∉ written) :
    scanFrom (.endTag read) (written ++ '>' :: behind) =
      .ok (.endTag (ofReversed (written.reverse ++ read))) :: scanTokens behind := by
  induction written generalizing read with
  | nil =>
    exact if_pos rfl
  | cons c written ih =>
    have step : scanFrom (.endTag read) (c :: (written ++ '>' :: behind)) =
        scanFrom (.endTag (c :: read)) (written ++ '>' :: behind) :=
      if_neg (List.ne_of_not_mem_cons inside).symm
    rw [List.cons_append, step, ih _ (List.not_mem_of_not_mem_cons inside)]
    simp

/-- An end tag is scanned back when it does not end itself. -/
theorem scannable_endTag {written : String} (inside : '>' ∉ written.toList) :
    (Token.endTag written).Scannable := by
  refine ⟨fun behind _ => ?_, fun name run other => by cases other⟩
  have rest := scan_endTag [] written.toList behind inside
  rw [List.append_nil, ofReversed, List.reverse_reverse, String.ofList_toList] at rest
  rw [Token.written, List.cons_append, List.cons_append, List.append_assoc]
  exact rest

/-- An end tag that is scanned back does not end itself. -/
theorem Token.Scannable.not_mem {written : String} (scannable : (Token.endTag written).Scannable) :
    '>' ∉ written.toList := by
  intro member
  obtain ⟨front, back, same, first⟩ := List.eq_append_cons_of_mem member
  have scan := scannable.scan [] fun content other => by cases other
  have early := scan_endTag [] front (back ++ ['>']) first
  rw [Token.written, same, List.append_nil] at scan
  have start : scanTokens ('<' :: '/' :: (front ++ '>' :: back) ++ ['>']) =
      scanFrom (.endTag []) (front ++ '>' :: (back ++ ['>'])) := by
    simp [scanTokens, scanFrom, textToken]
  rw [start, early] at scan
  have shorter : written = ofReversed (front.reverse ++ []) := by
    injection scan with tokens
    injection tokens with tokens
    injection tokens with tokens
    exact tokens.symm
  have sizes := congrArg (List.length ∘ String.toList) shorter
  simp [same, ofReversed] at sizes

/-! ## What a scan gives -/

/-- What has been read of the token that a state stands in. -/
def ScanState.pending : ScanState → List Char
  | .text content => content.reverse
  | .expression source => '\x7b' :: source.reverse
  | .opened => ['<']
  | .startTag _ body => '<' :: body.reverse
  | .endTag written => '<' :: '/' :: written.reverse

/-- A scan that starts in front of what is pending comes to this state behind it. -/
def ScanState.Reached (state : ScanState) : Prop :=
  ∀ behind, scanTokens (state.pending ++ behind) = scanFrom state behind

theorem reached_start : (ScanState.text []).Reached :=
  fun _ => rfl

theorem reached_opened : ScanState.opened.Reached :=
  fun _ => rfl

theorem reached_expression : (ScanState.expression []).Reached :=
  fun _ => rfl

theorem ScanState.Reached.step {state next : ScanState} {c : Char} (reached : state.Reached)
    (step : ∀ behind, scanFrom state (c :: behind) = scanFrom next behind)
    (pending : next.pending = state.pending ++ [c]) : next.Reached := by
  intro behind
  rw [pending, List.append_assoc, List.singleton_append, reached, step]

/-- The token that a state ends in is read from its written form. -/
theorem ScanState.Reached.scannable {state : ScanState} {c : Char} {token : Token}
    (reached : state.Reached)
    (closes : ∀ behind, scanFrom state (c :: behind) = .ok token :: scanTokens behind)
    (written : token.written = state.pending ++ [c])
    (dense : ∀ name run, token = .startTag name run → ∀ d ∈ name.toList, isBlank d = false) :
    token.Scannable := by
  refine ⟨fun behind _ => ?_, dense⟩
  rw [written, List.append_assoc, List.singleton_append, reached, closes]

theorem endsText_nil : EndsText [] := by
  intro c first
  cases first

theorem scanFrom_text_of_endsText {behind : List Char} (ends : EndsText behind)
    (content : List Char) :
    scanFrom (.text content) behind = textToken content ++ scanTokens behind := by
  cases behind with
  | nil => exact (List.append_nil _).symm
  | cons c behind =>
    rcases ends c rfl with rfl | rfl
    · rfl
    · rfl

/-- The text in front of what ends it is a token, unless it is empty. -/
theorem scannable_textToken {content behind : List Char} {later : Scanned} {tokens : List Token}
    (reached : (ScanState.text content).Reached) (ends : EndsText behind)
    (scanned : textToken content ++ later = tokens.map .ok)
    (rest : ∀ tokens : List Token, later = tokens.map .ok →
      Scannable tokens ∧ tokens.flatMap Token.written = behind) :
    Scannable tokens ∧ tokens.flatMap Token.written = content.reverse ++ behind := by
  unfold textToken at scanned
  split at scanned
  · rename_i empty
    rw [List.isEmpty_iff.mp empty]
    exact rest tokens scanned
  · rename_i nonempty
    cases tokens with
    | nil => cases scanned
    | cons token tokens =>
      rw [List.singleton_append, List.map_cons] at scanned
      obtain ⟨first, others⟩ := List.cons.inj scanned
      obtain rfl := Except.ok.inj first
      obtain ⟨scannable, written⟩ := rest tokens others
      have chars : (Token.text (ofReversed content)).written = content.reverse :=
        String.toList_ofList
      have here : (Token.text (ofReversed content)).Scannable := by
        refine ⟨fun behind ends => ?_, fun name run other => by cases other⟩
        have read : textToken content = [.ok (.text (ofReversed content))] := by
          rw [textToken, if_neg nonempty]
        rw [chars]
        refine (reached behind).trans ?_
        rw [scanFrom_text_of_endsText (ends _ rfl), read]
        rfl
      refine ⟨⟨here, fun _ _ => written ▸ ends, scannable⟩, ?_⟩
      rw [List.flatMap_cons, written, chars]

/-! ## Single steps -/

/-- What a scan makes of a character in a state. -/
inductive ScanStep (state : ScanState) (c : Char) : Prop
  /-- The character is a part of the token that is being read. -/
  | reads (next : ScanState) (pending : next.pending = state.pending ++ [c])
      (step : ∀ behind, scanFrom state (c :: behind) = scanFrom next behind)
  /-- The character ends a token that is no text. -/
  | closes (token : Token) (written : token.written = state.pending ++ [c])
      (notText : ∀ content, token ≠ .text content)
      (dense : ∀ name run, token = .startTag name run → ∀ d ∈ name.toList, isBlank d = false)
      (step : ∀ behind, scanFrom state (c :: behind) = .ok token :: scanTokens behind)
  /-- The character begins a token, and the text in front of it is one if there is any. -/
  | opens (content : List Char) (next : ScanState) (isText : state = .text content)
      (ends : c = '<' ∨ c = '\x7b') (reached : next.Reached) (pending : next.pending = [c])
      (step : ∀ behind, scanFrom state (c :: behind) = textToken content ++ scanFrom next behind)
  /-- The character ends a start tag whose run cannot be read. -/
  | fails (fault : MarkupError)
      (step : ∀ behind, scanFrom state (c :: behind) = [.error fault])

theorem scanStep_text (content : List Char) (c : Char) : ScanStep (.text content) c := by
  by_cases tag : c = '<'
  · subst tag
    exact .opens content .opened rfl (.inl rfl) reached_opened rfl fun _ => rfl
  by_cases brace : c = '\x7b'
  · subst brace
    exact .opens content (.expression []) rfl (.inr rfl) reached_expression rfl fun _ => rfl
  · refine .reads (.text (c :: content)) List.reverse_cons fun behind => ?_
    exact (if_neg tag).trans (if_neg brace)

theorem scanStep_expression (source : List Char) (c : Char) : ScanStep (.expression source) c := by
  by_cases closes : c = '\x7d'
  · refine .closes (.expression (ofReversed source)) ?_ (by simp) (by simp) fun _ => if_pos closes
    simp [Token.written, ScanState.pending, ofReversed, closes]
  · exact .reads (.expression (c :: source)) (by simp [ScanState.pending]) fun _ => if_neg closes

theorem scanStep_endTag (written : List Char) (c : Char) : ScanStep (.endTag written) c := by
  by_cases closes : c = '>'
  · refine .closes (.endTag (ofReversed written)) ?_ (by simp) (by simp) fun _ => if_pos closes
    simp [Token.written, ScanState.pending, ofReversed, closes]
  · exact .reads (.endTag (c :: written)) (by simp [ScanState.pending]) fun _ => if_neg closes

theorem scanStep_opened (c : Char) : ScanStep .opened c := by
  by_cases slash : c = '/'
  · subst slash
    exact .reads (.endTag []) rfl fun _ => rfl
  by_cases closes : c = '>'
  · subst closes
    exact .closes (.startTag "" []) rfl (by simp) (by simp) fun _ => rfl
  · refine .reads (.startTag (quoteBehind none c) [c]) rfl fun behind => ?_
    exact (if_neg slash).trans (if_neg closes)

theorem scanStep_startTag (quote : Option Char) (body : List Char) (c : Char) :
    ScanStep (.startTag quote body) c := by
  by_cases closes : quote = none ∧ c = '>'
  · cases read : readStartTag body.reverse with
    | error fault =>
      refine .fails fault fun behind => (if_pos closes).trans ?_
      rw [read]
    | ok token =>
      obtain ⟨name, run, isTag, written, dense⟩ := readStartTag_eq_ok read
      refine .closes token ?_ (by simp [isTag]) (fun name' run' isTag' => ?_) fun behind => ?_
      · rw [written, closes.2]
        rfl
      · cases isTag.symm.trans isTag'
        exact dense
      · refine (if_pos closes).trans ?_
        rw [read]
        rfl
  · refine .reads (.startTag (quoteBehind quote c) (c :: body)) ?_ fun _ => if_neg closes
    simp [ScanState.pending]

/-- **A scan makes one of these of a character**, whatever state it has come to. -/
theorem scanStep (state : ScanState) (c : Char) : ScanStep state c := by
  cases state with
  | text content => exact scanStep_text content c
  | expression source => exact scanStep_expression source c
  | opened => exact scanStep_opened c
  | startTag quote body => exact scanStep_startTag quote body c
  | endTag written => exact scanStep_endTag written c

/-! ## Whole scans -/

/-- A scan that is a fault gives no tokens. -/
theorem fault_ne_map_ok {fault : MarkupError} {tokens : List Token} :
    [Except.error fault] ≠ tokens.map Except.ok := by
  cases tokens <;> nofun

/-- A scan without a fault gives tokens that are read one by one, and loses nothing. The induction
is on what is left of the source, in whatever state the scan has come to it. -/
theorem scannable_of_scan {state : ScanState} {source : List Char} {tokens : List Token}
    (reached : state.Reached) (scanned : scanFrom state source = tokens.map .ok) :
    Scannable tokens ∧ tokens.flatMap Token.written = state.pending ++ source := by
  induction source generalizing state tokens with
  | nil =>
    cases state with
    | text content =>
      refine scannable_textToken reached endsText_nil ((List.append_nil _).trans scanned) ?_
      intro tokens none
      rw [List.map_eq_nil_iff.mp none.symm]
      exact ⟨trivial, rfl⟩
    | _ => exact absurd scanned fault_ne_map_ok
  | cons c rest ih =>
    cases scanStep state c with
    | reads next pending step =>
      rw [step] at scanned
      obtain ⟨scannable, whole⟩ := ih (reached.step step pending) scanned
      rw [pending, List.append_assoc, List.singleton_append] at whole
      exact ⟨scannable, whole⟩
    | closes token written notText dense step =>
      rw [step] at scanned
      cases tokens with
      | nil => cases scanned
      | cons first tokens =>
        obtain ⟨same, others⟩ := List.cons.inj scanned
        obtain rfl := Except.ok.inj same
        obtain ⟨scannable, whole⟩ := ih reached_start others
        refine ⟨⟨reached.scannable step written dense, fun content isText => ?_, scannable⟩, ?_⟩
        · exact absurd isText (notText content)
        · rw [List.flatMap_cons, whole, written, List.append_assoc]
          rfl
    | opens content next isText ends reached' pending step =>
      subst isText
      rw [step] at scanned
      have endsHere : EndsText (c :: rest) := fun _ first => Option.some.inj first ▸ ends
      refine scannable_textToken reached endsHere scanned fun tokens scanned => ?_
      have behind := ih reached' scanned
      rwa [pending] at behind
    | fails fault step => exact absurd ((step rest).symm.trans scanned) fault_ne_map_ok

end Templating.Markup
