import Mathlib.Data.List.Induction
import Templating.Compiler
import Templating.Markup.Parser
import Templating.Proofs.TagCache.Coherence

/-!
# Sessions with one compiler

A session is any sequence of calls on one compiler, between which others may change the store of its
cache in any way. From one call to the next the compiler keeps the attribute-tags, once a call has
asked for them, and the lock on its search path.

* `Call.program_eq`: what one call does with the store, and what it answers.
* `Follows.step` and `Follows.run`: at each call the compiler is the one that the session started
  with, but for the lock and for the tags, which are those of the first call that asked.
* `session_loads_once` is the result for whole sessions.
-/

namespace Templating

namespace StoreProgram

variable {α β γ : Type}

/-- Whether the program has no call left to make. -/
def isDone : StoreProgram α → Bool
  | .done _ => true
  | _ => false

/-- Programs one after the other, whichever two of them are put together first. -/
theorem bind_bind (program : StoreProgram α) (f : α → StoreProgram β) (g : β → StoreProgram γ) :
    (program.bind f).bind g = program.bind fun answer => (f answer).bind g := by
  induction program with
  | done answer => rfl
  | present key next ih => exact congrArg _ (funext ih)
  | read key next ih => exact congrArg _ (funext ih)
  | write key bytes next ih => exact congrArg _ (funext ih)
  | remove key next ih => exact congrArg _ (funext ih)

end StoreProgram

namespace Compiler

open Markup Source

variable {σ α : Type}

/-! ## Calls -/

/-- A call on a compiler, with what it sees of the files and what it is given from outside. -/
inductive Call (α : Type) where
  | tags (now : Moment)
  | preprocess (now : Moment) (source : String)
  | load (surroundings : Surroundings) (name : String)
  | compile (surroundings : Surroundings) (parser : SourceParser) (generator : Generator α)
      (name : String)
  | compileSource (now : Moment) (parser : SourceParser) (generator : Generator α)
      (name source : String)

inductive Reply (α : Type) where
  | tags (tags : List String)
  | text (text : Except CompileError String)
  | output (output : Except CompileError α)

/-- What preprocessing a text with these tags gives. -/
def prepared (compiler : Compiler) (tags : List String) (source : String) :
    Except CompileError String :=
  (compiler.preprocessor.preprocess source tags).mapError .preprocess

/-- When preprocessing the text that was read asks for the tags, if it does. A text that could not
be read needs none. -/
def asksFor (compiler : Compiler) (now : Moment) : Except CompileError String → Option Moment
  | .ok _ => if compiler.preprocessor.enabled then some now else none
  | .error _ => none

/-- The compiler with tags that it knows and with a search path that may be locked. -/
def withState (compiler : Compiler) (locked : Bool) (known : Option (List String)) : Compiler :=
  { compiler with
    directories := if locked then compiler.directories.lock else compiler.directories
    knownTags := known }

namespace Call

/-- What a call does with the store, up to its reply and the compiler that it leaves. -/
def program (compiler : Compiler) : Call α → StoreProgram (Reply α × Compiler)
  | .tags now => (compiler.tags now).bind fun (known, left) => .done (.tags known, left)
  | .preprocess now source =>
    (compiler.preprocess now source).bind fun (text, left) => .done (.text text, left)
  | .load surroundings name =>
    (compiler.load surroundings name).bind fun (text, left) => .done (.text text, left)
  | .compile surroundings parser generator name =>
    (compiler.compile surroundings parser generator name).bind fun (output, left) =>
      .done (.output output, left)
  | .compileSource now parser generator name source =>
    (compiler.compileSource now parser generator name source).bind fun (output, left) =>
      .done (.output output, left)

/-- When the call asks for the tags, if it does. -/
def asks (compiler : Compiler) : Call α → Option Moment
  | .tags now => some now
  | .preprocess now source => compiler.asksFor now (.ok source)
  | .load surroundings name =>
    compiler.asksFor surroundings.now (compiler.source surroundings name).1
  | .compile surroundings _ _ name =>
    compiler.asksFor surroundings.now (compiler.source surroundings name).1
  | .compileSource now _ _ _ source => compiler.asksFor now (.ok source)

/-- What the call answers when these are the tags. -/
def answer (compiler : Compiler) (known : List String) : Call α → Reply α
  | .tags _ => .tags known
  | .preprocess _ source => .text (compiler.prepared known source)
  | .load surroundings name =>
    .text ((compiler.source surroundings name).1 >>= compiler.prepared known)
  | .compile surroundings parser generator name =>
    .output ((compiler.source surroundings name).1 >>= compiler.prepared known >>=
      finish compiler.config.pipeline parser generator name)
  | .compileSource _ parser generator name source =>
    .output (compiler.prepared known source >>=
      finish compiler.config.pipeline parser generator name)

/-- Whether the call resolves a name. -/
def locks : Call α → Bool
  | .load .. => true
  | .compile .. => true
  | _ => false

end Call

/-! ## One call -/

/-- A program that asks for the tags at a time, if at all, and answers with them. -/
def ask {β : Type} (compiler : Compiler) (asked : Option Moment) (answer : List String → β) :
    StoreProgram (β × Compiler) :=
  match asked with
  | none => .done (answer [], compiler)
  | some now => (compiler.tags now).bind fun (known, left) => .done (answer known, left)

section

variable {compiler : Compiler}

theorem preprocess_eq_ask (now : Moment) (source : String) :
    compiler.preprocess now source =
      compiler.ask (compiler.asksFor now (.ok source)) fun known =>
        compiler.prepared known source := by
  cases enabled : compiler.preprocessor.enabled with
  | false =>
    rw [preprocess_of_disabled enabled, asksFor, enabled]
    rfl
  | true =>
    rw [Compiler.preprocess, asksFor, enabled]
    rfl

theorem load_eq_ask (surroundings : Surroundings) (name : String) :
    compiler.load surroundings name =
      (compiler.withState true compiler.knownTags).ask
        (compiler.asksFor surroundings.now (compiler.source surroundings name).1)
        fun known => (compiler.source surroundings name).1 >>= compiler.prepared known := by
  have left : (compiler.source surroundings name).2 =
      compiler.withState true compiler.knownTags := rfl
  rw [load]
  cases read : (compiler.source surroundings name).1 with
  | error cause =>
    rw [show compiler.source surroundings name = (_, _) from Prod.ext read left]
    rfl
  | ok text =>
    rw [show compiler.source surroundings name = (_, _) from Prod.ext read left]
    exact preprocess_eq_ask surroundings.now text

/-- An answer that is made from another one is made from the same tags. -/
theorem ask_bind {β γ : Type} (asked : Option Moment) (answer : List String → β) (f : β → γ) :
    ((compiler.ask asked answer).bind fun (given, left) => .done (f given, left)) =
      compiler.ask asked fun known => f (answer known) := by
  cases asked with
  | none => rfl
  | some now => exact StoreProgram.bind_bind _ _ _

/-- A compiler that knows its tags answers without a call on the store. -/
theorem ask_of_known {β : Type} {known : List String} (isKnown : compiler.knownTags = some known)
    (now : Moment) (answer : List String → β) :
    compiler.ask (some now) answer = .done (answer known, compiler) := by
  rw [ask, tags_of_known isKnown]
  rfl

/-- A compiler that does not know its tags loads or collects them. -/
theorem ask_of_unknown {β : Type} (unknown : compiler.knownTags = none) (now : Moment)
    (answer : List String → β) :
    compiler.ask (some now) answer =
      (compiler.tagCache.loadOrBuild now compiler.extensions).bind fun known =>
        .done (answer known, compiler.withState false (some known)) := by
  rw [ask, Compiler.tags, unknown]
  exact StoreProgram.bind_bind _ _ _

/-- The output is made with the settings of the compiler. -/
theorem ask_finished (asked : Option Moment) (answer : List String → Except CompileError String)
    (parser : SourceParser) (generator : Generator α) (name : String) :
    ((compiler.ask asked answer).bind fun given => .done (finished parser generator name given)) =
      compiler.ask asked fun known =>
        answer known >>= finish compiler.config.pipeline parser generator name := by
  cases asked with
  | none => rfl
  | some now =>
    cases isKnown : compiler.knownTags with
    | some known =>
      rw [ask_of_known isKnown, ask_of_known isKnown]
      rfl
    | none =>
      rw [ask_of_unknown isKnown, ask_of_unknown isKnown]
      exact StoreProgram.bind_bind _ _ _

/-- **What a call does**: it may lock the search path, asks for the tags if it needs them, and
answers. -/
theorem Call.program_eq (compiler : Compiler) (call : Call α) :
    call.program compiler = (compiler.withState call.locks compiler.knownTags).ask
      (call.asks compiler) fun known => call.answer compiler known := by
  cases call with
  | tags now => rfl
  | preprocess now source =>
    rw [program, preprocess_eq_ask]
    exact ask_bind _ _ _
  | load surroundings name =>
    rw [program, load_eq_ask]
    exact ask_bind _ _ _
  | compile surroundings parser generator name =>
    rw [program, Compiler.compile, load_eq_ask]
    exact (congrArg (StoreProgram.bind · _) (ask_finished _ _ _ _ _)).trans (ask_bind _ _ _)
  | compileSource now parser generator name source =>
    rw [program, Compiler.compileSource, preprocess_eq_ask]
    exact (congrArg (StoreProgram.bind · _) (ask_finished _ _ _ _ _)).trans (ask_bind _ _ _)

/-- A compiler that does not preprocess asks for the tags only when these are called for. -/
theorem Call.asks_of_disabled {call : Call α} (disabled : compiler.preprocessor.enabled = false)
    (notTags : ∀ now, call ≠ .tags now) : call.asks compiler = none := by
  have unasked (now : Moment) (read : Except CompileError String) :
      compiler.asksFor now read = none := by
    cases read with
    | error cause => rfl
    | ok text => rw [asksFor, disabled]; rfl
  cases call with
  | tags now => exact absurd rfl (notTags now)
  | preprocess now source => exact unasked now (.ok source)
  | load surroundings name => exact unasked _ _
  | compile surroundings parser generator name => exact unasked _ _
  | compileSource now parser generator name source => exact unasked now (.ok source)

/-- What a call that does not ask for the tags answers does not depend on them. -/
theorem Call.answer_of_unasked {call : Call α} (unasked : call.asks compiler = none)
    (known known' : List String) : call.answer compiler known = call.answer compiler known' := by
  have same (now : Moment) (read : Except CompileError String)
      (unasked : compiler.asksFor now read = none) :
      (read >>= compiler.prepared known) = (read >>= compiler.prepared known') := by
    cases read with
    | error cause => rfl
    | ok text =>
      cases enabled : compiler.preprocessor.enabled with
      | true =>
        rw [asksFor, enabled] at unasked
        cases unasked
      | false =>
        have plain (known : List String) : compiler.prepared known text =
            .ok (onText Text.trim text) := by
          rw [prepared, Preprocessor.preprocess, enabled]
          rfl
        exact (plain known).trans (plain known').symm
  cases call with
  | tags now => cases unasked
  | preprocess now source => exact congrArg Reply.text (same now (.ok source) unasked)
  | load surroundings name => exact congrArg Reply.text (same _ _ unasked)
  | compile surroundings parser generator name =>
    exact congrArg (fun text => Reply.output (text >>= _)) (same _ _ unasked)
  | compileSource now parser generator name source =>
    exact congrArg (fun text => Reply.output (text >>= _)) (same now (.ok source) unasked)

/-- The state of a compiler does not matter to when a call asks for the tags, nor to what it answers
when it has them. -/
theorem Call.asks_withState (locked : Bool) (known : Option (List String)) (call : Call α) :
    call.asks (compiler.withState locked known) = call.asks compiler := by
  cases locked <;> cases call <;> rfl

theorem Call.answer_withState (locked : Bool) (known : Option (List String)) (call : Call α)
    (tags : List String) :
    call.answer (compiler.withState locked known) tags = call.answer compiler tags := by
  cases locked <;> cases call <;> rfl

theorem withState_withState (locked locked' : Bool) (known known' : Option (List String)) :
    (compiler.withState locked known).withState locked' known' =
      compiler.withState (locked || locked') known' := by
  cases locked <;> cases locked' <;> rfl

end

/-! ## Sessions -/

/-- A call that was made, with the compiler and the state of the store that it found. -/
structure Made (σ α : Type) where
  call : Call α
  compiler : Compiler
  state : σ

namespace Made

variable (store : Store σ) (made : Made σ α)

/-- What the call did with the store. -/
def program : StoreProgram (Reply α × Compiler) :=
  made.call.program made.compiler

/-- What the call answered, and the compiler and the state of the store that it left. -/
def outcome : (Reply α × Compiler) × σ :=
  made.program.run store made.state

def reply : Reply α :=
  (made.outcome store).1.1

end Made

inductive Event (σ α : Type) where
  | call (call : Call α)
  /-- Someone else changes the store. -/
  | change (change : σ → σ)

/-- A compiler, the store of its cache, and the calls that have been made. -/
structure Session (σ α : Type) where
  compiler : Compiler
  state : σ
  log : List (Made σ α) := []

namespace Session

variable (store : Store σ)

/-- The call as it would be made next. -/
def next (session : Session σ α) (call : Call α) : Made σ α :=
  ⟨call, session.compiler, session.state⟩

def step (session : Session σ α) : Event σ α → Session σ α
  | .call call =>
    let made := session.next call
    ⟨(made.outcome store).1.2, (made.outcome store).2, session.log ++ [made]⟩
  | .change change => { session with state := change session.state }

def run (session : Session σ α) (events : List (Event σ α)) : Session σ α :=
  events.foldl (step store) session

end Session

/-- The tags that are loaded at a time from a state of the store. -/
def loadedAt (compiler : Compiler) (store : Store σ) (now : Moment) (state : σ) : List String :=
  ((compiler.tagCache.loadOrBuild now compiler.extensions).run store state).1

/-- The tags that are known behind these calls: those that were known before them or, if none were,
those that the first call loads that asks for them. -/
def knownAfter (compiler : Compiler) (store : Store σ) (log : List (Made σ α)) :
    Option (List String) :=
  compiler.knownTags.or (log.findSome? fun made =>
    (made.call.asks compiler).map fun now => compiler.loadedAt store now made.state)

/-- The compiler of a session is the one that it started with, but for the lock and for the tags,
which are those that are known behind the calls of the session; and so it was at each call. -/
structure Follows (store : Store σ) (compiler : Compiler) (session : Session σ α) : Prop where
  current : ∃ locked, session.compiler =
    compiler.withState locked (compiler.knownAfter store session.log)
  each : ∀ earlier made later, session.log = earlier ++ made :: later →
    ∃ locked, made.compiler = compiler.withState locked (compiler.knownAfter store earlier)

section

variable {store : Store σ} {compiler : Compiler} {session : Session σ α}

theorem knownAfter_append_singleton (log : List (Made σ α)) (made : Made σ α) :
    compiler.knownAfter store (log ++ [made]) = (compiler.knownAfter store log).or
      ((made.call.asks compiler).map fun now => compiler.loadedAt store now made.state) := by
  rw [knownAfter, List.findSome?_append, List.findSome?_singleton, ← Option.or_assoc]
  rfl

/-- No tags are known only if none were from the start and no call has asked for them. -/
theorem knownAfter_eq_none_iff {log : List (Made σ α)} :
    compiler.knownAfter store log = none ↔
      compiler.knownTags = none ∧ ∀ made ∈ log, made.call.asks compiler = none := by
  rw [knownAfter, Option.or_eq_none_iff, List.findSome?_eq_none_iff]
  exact and_congr_right fun _ => forall₂_congr fun _ _ => Option.map_eq_none_iff

/-- How a call goes behind `earlier` ones: one that does not ask for the tags makes no call on the
store, and answers the same whatever they are; the first one that asks makes the calls of one load;
and later ones make none and answer with the tags of that load. -/
inductive Made.Goes (store : Store σ) (compiler : Compiler) (earlier : List (Made σ α))
    (made : Made σ α) : Prop
  | unasked (unasked : made.call.asks compiler = none)
      (quiet : ∀ known, ∃ left, made.program = .done (made.call.answer compiler known, left))
  | first {now : Moment} (asked : made.call.asks compiler = some now)
      (isFresh : compiler.knownTags = none)
      (isFirst : ∀ other ∈ earlier, other.call.asks compiler = none)
      (loads : ∃ left : List String → Compiler, made.program =
        (compiler.tagCache.loadOrBuild now compiler.extensions).bind fun known =>
          .done (made.call.answer compiler known, left known))
  | later {known : List String} (asked : (made.call.asks compiler).isSome = true)
      (isLoaded : compiler.knownAfter store earlier = some known)
      (quiet : ∃ left, made.program = .done (made.call.answer compiler known, left))

/-- The program of a call on a compiler that knows the tags of the calls before it. -/
theorem program_of_follows {made : Made σ α} {earlier : List (Made σ α)} {locked : Bool}
    (follows : made.compiler = compiler.withState locked (compiler.knownAfter store earlier)) :
    made.program =
      (compiler.withState (locked || made.call.locks) (compiler.knownAfter store earlier)).ask
        (made.call.asks compiler) fun known => made.call.answer compiler known := by
  rw [Made.program, Call.program_eq, follows, withState_withState, Call.asks_withState]
  exact congrArg _ (funext fun known => Call.answer_withState _ _ _ known)

theorem goes_of_follows {made : Made σ α} {earlier : List (Made σ α)} {locked : Bool}
    (follows : made.compiler = compiler.withState locked (compiler.knownAfter store earlier)) :
    made.Goes store compiler earlier := by
  have program := program_of_follows follows
  cases asked : made.call.asks compiler with
  | none =>
    rw [asked] at program
    refine .unasked asked fun known =>
      ⟨compiler.withState (locked || made.call.locks) (compiler.knownAfter store earlier), ?_⟩
    rw [Call.answer_of_unasked asked known []]
    exact program
  | some now =>
    rw [asked] at program
    cases isLoaded : compiler.knownAfter store earlier with
    | some known =>
      rw [isLoaded, ask_of_known rfl] at program
      exact .later (Option.isSome_iff_exists.mpr ⟨now, asked⟩) isLoaded ⟨_, program⟩
    | none =>
      rw [isLoaded, ask_of_unknown rfl] at program
      obtain ⟨isFresh, isFirst⟩ := knownAfter_eq_none_iff.mp isLoaded
      exact .first asked isFresh isFirst ⟨_, program⟩

/-- The compiler that a call leaves knows the tags of that call and of those before it. -/
theorem left_of_follows {made : Made σ α} {earlier : List (Made σ α)} {locked : Bool}
    (follows : made.compiler = compiler.withState locked (compiler.knownAfter store earlier)) :
    (made.outcome store).1.2 = compiler.withState (locked || made.call.locks)
      (compiler.knownAfter store (earlier ++ [made])) := by
  rw [Made.outcome, program_of_follows follows, knownAfter_append_singleton]
  cases asked : made.call.asks compiler with
  | none =>
    rw [Option.map_none, Option.or_none]
    rfl
  | some now =>
    cases isLoaded : compiler.knownAfter store earlier with
    | some known =>
      rw [ask_of_known rfl]
      rfl
    | none =>
      rw [ask_of_unknown rfl, StoreProgram.run_bind]
      refine (withState_withState _ false _ _).trans ?_
      rw [Bool.or_false]
      rfl

theorem Follows.step (follows : Follows store compiler session) (event : Event σ α) :
    Follows store compiler (session.step store event) := by
  cases event with
  | change change => exact ⟨follows.current, follows.each⟩
  | call call =>
    obtain ⟨locked, current⟩ := follows.current
    refine ⟨⟨_, left_of_follows current⟩, fun earlier made later split => ?_⟩
    have split : session.log ++ [session.next call] = earlier ++ made :: later := split
    rcases List.eq_nil_or_concat later with rfl | ⟨later, last, rfl⟩
    · obtain ⟨rfl, same⟩ := List.append_inj' split rfl
      cases same
      exact ⟨locked, current⟩
    · rw [List.concat_eq_append, ← List.cons_append, ← List.append_assoc] at split
      exact follows.each earlier made later (List.append_inj' split rfl).1

theorem Follows.run (follows : Follows store compiler session) (events : List (Event σ α)) :
    Follows store compiler (session.run store events) := by
  induction events generalizing session with
  | nil => exact follows
  | cons event events ih => exact ih (follows.step event)

theorem follows_start (compiler : Compiler) (state : σ) :
    Follows store compiler (⟨compiler, state, []⟩ : Session σ α) where
  current := ⟨false, by rw [knownAfter, List.findSome?_nil, Option.or_none]; rfl⟩
  each := fun earlier made later split => by cases earlier <;> cases split

/-- A call that makes calls on the store is the first one that asks for the tags. -/
theorem Made.Goes.of_not_isDone {made : Made σ α} {earlier : List (Made σ α)}
    (goes : made.Goes store compiler earlier) (loads : made.program.isDone = false) :
    ∀ other ∈ earlier, other.call.asks compiler = none := by
  cases goes with
  | unasked _ quiet =>
    obtain ⟨left, done⟩ := quiet []
    rw [done] at loads
    cases loads
  | first _ _ isFirst => exact isFirst
  | later _ _ quiet =>
    obtain ⟨left, done⟩ := quiet
    rw [done] at loads
    cases loads

/-- A call that does not ask for the tags makes no call on the store. -/
theorem Made.Goes.isDone_of_unasked {made : Made σ α} {earlier : List (Made σ α)}
    (goes : made.Goes store compiler earlier) (unasked : made.call.asks compiler = none) :
    made.program.isDone = true := by
  cases goes with
  | unasked _ quiet =>
    obtain ⟨left, done⟩ := quiet []
    rw [done]
    rfl
  | first asked =>
    rw [unasked] at asked
    cases asked
  | later asked =>
    rw [unasked] at asked
    cases asked

/-- Behind a call that asked for the tags, every call answers with those that were loaded. -/
theorem reply_of_follows {made : Made σ α} {earlier : List (Made σ α)} {locked : Bool}
    {known : List String}
    (follows : made.compiler = compiler.withState locked (compiler.knownAfter store earlier))
    (isLoaded : compiler.knownAfter store earlier = some known) :
    made.reply store = made.call.answer compiler known := by
  rw [Made.reply, Made.outcome]
  cases goes_of_follows follows with
  | unasked _ quiet =>
    obtain ⟨left, done⟩ := quiet known
    rw [done]
    rfl
  | first _ isFresh isFirst =>
    rw [knownAfter_eq_none_iff.mpr ⟨isFresh, isFirst⟩] at isLoaded
    cases isLoaded
  | later _ isLoaded' quiet =>
    obtain ⟨left, done⟩ := quiet
    cases isLoaded.symm.trans isLoaded'
    rw [done]
    rfl

/-- Tags that are known stay the same. -/
theorem knownAfter_run {known : List String}
    (isLoaded : compiler.knownAfter store session.log = some known) (events : List (Event σ α)) :
    compiler.knownAfter store (session.run store events).log = some known := by
  induction events generalizing session with
  | nil => exact isLoaded
  | cons event events ih =>
    refine ih ?_
    cases event with
    | change change => exact isLoaded
    | call call =>
      rw [Session.step, knownAfter_append_singleton, isLoaded]
      rfl

/-- Of the calls in the order in which they were made, only one makes calls on the store. -/
theorem countP_not_isDone_le_one {log : List (Made σ α)}
    (goes : ∀ earlier made later, log = earlier ++ made :: later →
      made.Goes store compiler earlier) :
    (log.countP fun made => !made.program.isDone) ≤ 1 := by
  induction log using List.reverseRecOn with
  | nil => exact Nat.zero_le 1
  | append_singleton log last ih =>
    rw [List.countP_append, List.countP_singleton]
    have before (earlier : List (Made σ α)) (made : Made σ α) (later : List (Made σ α))
        (split : log = earlier ++ made :: later) : made.Goes store compiler earlier :=
      goes earlier made (later ++ [last]) (by rw [split, List.append_assoc, List.cons_append])
    cases loads : last.program.isDone with
    | true => exact ih before
    | false =>
      -- The last call asks for the tags first, so that those before it make no call on the store.
      have unasked := (goes log last [] rfl).of_not_isDone loads
      rw [List.countP_eq_zero.mpr fun made member => ?_]
      · exact Nat.le_refl 1
      obtain ⟨earlier, later, split⟩ := List.append_of_mem member
      rw [(before earlier made later split).isDone_of_unasked (unasked made member)]
      exact Bool.false_ne_true

/-- A locked search path does not change what is answered. -/
theorem run_ask_withState {β : Type} (locked : Bool) (asked : Option Moment)
    (answer : List String → β) (state : σ) :
    (((compiler.withState locked compiler.knownTags).ask asked answer).run store state).1.1 =
      ((compiler.ask asked answer).run store state).1.1 := by
  cases asked with
  | none => rfl
  | some now =>
    cases isKnown : compiler.knownTags with
    | some known =>
      rw [ask_of_known isKnown, ask_of_known rfl]
      rfl
    | none =>
      rw [ask_of_unknown isKnown, ask_of_unknown rfl, StoreProgram.run_bind, StoreProgram.run_bind]
      cases locked <;> rfl

/-- Calls that ask for the tags at the same time, if at all, and answer the same when they have them
get the same reply. -/
theorem reply_congr {call call' : Call α} (asks : call.asks compiler = call'.asks compiler)
    (answer : ∀ known, call.answer compiler known = call'.answer compiler known) (state : σ) :
    Made.reply store ⟨call, compiler, state⟩ = Made.reply store ⟨call', compiler, state⟩ := by
  rw [Made.reply, Made.reply, Made.outcome, Made.outcome, Made.program, Made.program,
    Call.program_eq, Call.program_eq, run_ask_withState, run_ask_withState, asks, funext answer]

/-- A template whose file reads as a text is compiled as that text. -/
theorem reply_compile {surroundings : Surroundings} {name source : String}
    (reads : surroundings.readText (compiler.resolve surroundings.present name).1 = .ok source)
    (parser : SourceParser) (generator : Generator α) (state : σ) :
    Made.reply store ⟨.compile surroundings parser generator name, compiler, state⟩ =
      Made.reply store
        ⟨.compileSource surroundings.now parser generator name source, compiler, state⟩ := by
  have read : (compiler.source surroundings name).1 = .ok source :=
    congrArg (Except.mapError _) reads
  refine reply_congr ?_ (fun known => ?_) state
  · exact congrArg (compiler.asksFor surroundings.now) read
  · rw [Call.answer, Call.answer, read]
    rfl

end

/-! ## Whole sessions -/

/-- **The tags are loaded once.** Take any compiler, any store for its cache, and any sequence of
calls between which the store changes in any way.

* Each call goes in one of three ways: without the tags and the store; as the first one that asks
  for the tags, with the calls of a single `loadOrBuild`; or, behind that one, without the store and
  with the tags that were loaded then.
* At most one of the calls makes calls on the store, and when preprocessing is disabled only one for
  the tags themselves does.
* Behind a call that asked for the tags, what a source compiles to depends neither on later calls
  nor on later changes of the store.
* At any point a template whose file reads as a text compiles as that text. -/
theorem session_loads_once (store : Store σ) (compiler : Compiler) (state : σ)
    (events : List (Event σ α)) :
    let session := Session.run store ⟨compiler, state, []⟩ events
    (∀ earlier made later, session.log = earlier ++ made :: later →
      made.Goes store compiler earlier) ∧
    (session.log.countP fun made => !made.program.isDone) ≤ 1 ∧
    (compiler.preprocessor.enabled = false →
      ∀ made ∈ session.log, (∀ now, made.call ≠ .tags now) → made.program.isDone = true) ∧
    ((∃ made ∈ session.log, (made.call.asks compiler).isSome = true) →
      ∀ (more more' : List (Event σ α)) (now now' : Moment) (parser : SourceParser)
        (generator : Generator α) (name source : String),
        ((session.run store more).next
            (.compileSource now parser generator name source)).reply store =
          ((session.run store more').next
            (.compileSource now' parser generator name source)).reply store) ∧
    ∀ (surroundings : Surroundings) (parser : SourceParser) (generator : Generator α)
      (name source : String),
      surroundings.readText (session.compiler.resolve surroundings.present name).1 = .ok source →
      (session.next (.compile surroundings parser generator name)).reply store =
        (session.next
          (.compileSource surroundings.now parser generator name source)).reply store := by
  intro session
  have follows : Follows store compiler session := (follows_start compiler state).run events
  have goes (earlier : List (Made σ α)) (made : Made σ α) (later : List (Made σ α))
      (split : session.log = earlier ++ made :: later) : made.Goes store compiler earlier := by
    obtain ⟨locked, atCall⟩ := follows.each earlier made later split
    exact goes_of_follows atCall
  refine ⟨goes, countP_not_isDone_le_one goes, ?disabled, ?settled, ?compiled⟩
  case disabled =>
    intro disabled made member notTags
    obtain ⟨earlier, later, split⟩ := List.append_of_mem member
    refine (goes earlier made later split).isDone_of_unasked ?_
    exact Call.asks_of_disabled disabled notTags
  case settled =>
    rintro ⟨made, member, asked⟩ more more' now now' parser generator name source
    obtain ⟨known, isLoaded⟩ : ∃ known, compiler.knownAfter store session.log = some known := by
      refine Option.ne_none_iff_exists'.mp fun none => ?_
      rw [(knownAfter_eq_none_iff.mp none).2 made member] at asked
      cases asked
    have settled (more : List (Event σ α)) (now : Moment) :
        ((session.run store more).next
            (.compileSource now parser generator name source)).reply store =
          .output (compiler.prepared known source >>=
            finish compiler.config.pipeline parser generator name) := by
      obtain ⟨locked, current⟩ := (follows.run more).current
      exact reply_of_follows current (knownAfter_run isLoaded more)
    exact (settled more now).trans (settled more' now').symm
  case compiled =>
    exact fun surroundings parser generator name source reads =>
      reply_compile reads parser generator session.state

/-! ## A template that is missing, and a store that is emptied -/

def sampleCompiler : Compiler where
  config := {}
  directories := Directories.new "."
  extensions := firstSet
  tagCache := sampleCache
  preprocessor := {}

/-- There are no files. -/
def bareSurroundings : Surroundings :=
  ⟨sampleMoment, fun _ => false, fun _ => .error .notFound⟩

/-- Loading a template that is missing asks for no tags; the second call does. -/
def sampleCalls : List (Event Memory String) :=
  [.call (.load bareSurroundings "page"), .call (.tags sampleMoment)]

theorem session_loads_once_emptied :
    let session := Session.run memoryStore ⟨sampleCompiler, {}, []⟩ sampleCalls
    let source : Call String := .compileSource sampleMoment (fun text => .ok (textTree text))
      markupGenerator "page" "<p n:if=\"$a\"></p>"
    (∃ made ∈ session.log, (made.call.asks sampleCompiler).isSome = true) ∧
      ((session.run memoryStore [.change fun _ => {}]).next source).reply memoryStore =
        (session.next source).reply memoryStore := by
  intro session source
  have asked : ∃ made ∈ session.log, (made.call.asks sampleCompiler).isSome = true :=
    ⟨_, List.mem_cons_of_mem _ (List.mem_singleton_self _), rfl⟩
  have settled := (session_loads_once memoryStore sampleCompiler {} sampleCalls).2.2.2.1
  exact ⟨asked, settled asked _ [] _ _ _ _ _ _⟩

end Compiler

end Templating
