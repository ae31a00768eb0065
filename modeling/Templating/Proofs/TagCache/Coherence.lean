import Templating.Proofs.TagCache.Fingerprint
import Templating.Proofs.TagCache.Interleaving
import Templating.TagCache.Cache

/-!
# Tag caches on a shared store

Any number of callers load or clear their tags on one store. Their calls are interleaved in any
order, any of them can fail, and bytes that are no artifact can appear under any key between two of
them. What keeps the answers right is one invariant of the store: an artifact that is read from it
was collected from extensions that are involved (`Collected`).

* `keeps_loadOrBuild`: a caller keeps the invariant and, given it, answers with the tags of its own
  extensions within three calls.
* `World.Coherent.step` and `World.Coherent.run`: so does every interleaving of callers.
* `loadOrBuild_coherent` is the statement about whole interleavings.
-/

namespace Templating

/-! ## Collected artifacts -/

/-- What an artifact is made from. -/
structure Collection where
  now : Moment
  generator : String
  set : ExtensionSet

def Collection.artifact (collection : Collection) : Artifact :=
  Artifact.build collection.now collection.generator collection.set

/-- The artifact is read back from the bytes that it is stored as. -/
def Artifact.Readable (artifact : Artifact) : Prop :=
  Artifact.decode? artifact.encode = some artifact

/-- No two different sets of extensions among the collections agree in both count and
fingerprint. -/
def Distinguished (involved : List Collection) : Prop :=
  ∀ first ∈ involved, ∀ second ∈ involved,
    UInt64.ofNat first.set.size = UInt64.ofNat second.set.size →
    first.set.fingerprint = second.set.fingerprint → first.set = second.set

/-- The artifact that the bytes hold, if they hold one, was collected here. -/
def Collected (involved : List Collection) (bytes : ByteArray) : Prop :=
  ∀ artifact, Artifact.decode? bytes = some artifact →
    ∃ collection ∈ involved, artifact = collection.artifact

variable {involved : List Collection}

theorem collected_of_undecodable {bytes : ByteArray} (undecodable : Artifact.decode? bytes = none) :
    Collected involved bytes := by
  intro artifact decoded
  rw [undecodable] at decoded
  cases decoded

theorem collected_encode {collection : Collection} (member : collection ∈ involved)
    (readable : collection.artifact.Readable) :
    Collected involved collection.artifact.encode := by
  intro artifact decoded
  rw [readable] at decoded
  exact ⟨collection, member, (Option.some.inj decoded).symm⟩

/-- A collected artifact that is fresh for a set involved has the tags of this set. -/
theorem tags_of_isFreshFor (distinguished : Distinguished involved) {own other : Collection}
    (member : own ∈ involved) (member' : other ∈ involved)
    (fresh : other.artifact.isFreshFor own.set = true) :
    other.artifact.tags = own.set.attributeTags := by
  obtain ⟨counts, prints⟩ := Artifact.isFreshFor_iff.mp fresh
  have same : other.set = own.set := distinguished other member' own member counts prints
  exact congrArg ExtensionSet.attributeTags same

/-! ## What each operation keeps -/

namespace TagCache

open StoreProgram

/-- Loading takes two calls and gives collected artifacts only. -/
theorem keeps_load (cache : TagCache) :
    Keeps (Collected involved)
      (fun outcome => ∀ artifact, outcome = .ok (some artifact) →
        ∃ collection ∈ involved, artifact = collection.artifact) 2 cache.load := by
  refine .present fun answer => ?_
  cases answer with
  | false => exact .done fun artifact found => by cases found
  | true =>
    refine .read (fun bytes collected => ?_) fun cause => .done fun artifact found => by cases found
    simp only [StoreProgram.bind]
    cases decoded : Artifact.decode? bytes with
    | none => exact .done fun artifact found => by cases found
    | some artifact =>
      refine .done fun _ found => ?_
      cases found
      exact collected artifact decoded

/-- Storing an artifact takes one call, which writes its bytes. -/
theorem keeps_save {good : ByteArray → Prop} (cache : TagCache) {artifact : Artifact}
    (owed : good artifact.encode) : Keeps good (fun _ => True) 1 (cache.save artifact) :=
  .write owed fun _ => .done trivial

/-- Removing the artifact takes one call. -/
theorem keeps_clear {good : ByteArray → Prop} (cache : TagCache) :
    Keeps good (fun _ => True) 1 cache.clear :=
  .remove fun _ => .done trivial

theorem eq_of_freshFrom {set : ExtensionSet} {outcome : Except CacheError (Option Artifact)}
    {artifact : Artifact} (fresh : freshFrom set outcome = some artifact) :
    outcome = .ok (some artifact) ∧ artifact.isFreshFor set = true := by
  unfold freshFrom at fresh
  split at fresh
  · split at fresh
    · cases fresh
      exact ⟨rfl, ‹_›⟩
    · cases fresh
  · cases fresh
  · cases fresh

/-- Loading or collecting takes three calls and gives the tags of the extensions. -/
theorem keeps_loadOrBuild (distinguished : Distinguished involved) (cache : TagCache) {now : Moment}
    {set : ExtensionSet} (member : ⟨now, cache.generator, set⟩ ∈ involved)
    (readable : (Artifact.build now cache.generator set).Readable) :
    Keeps (Collected involved) (· = set.attributeTags) 3 (cache.loadOrBuild now set) := by
  refine (keeps_load cache).bind fun outcome loads => ?_
  cases fresh : freshFrom set outcome with
  | none =>
    have owed := collected_encode member readable
    exact (keeps_save cache owed).bind fun _ _ => .done rfl
  | some artifact =>
    obtain ⟨loaded, fresh⟩ := eq_of_freshFrom fresh
    obtain ⟨other, member', rfl⟩ := loads artifact loaded
    exact .done (tags_of_isFreshFor distinguished member member' fresh)

end TagCache

/-! ## Interleavings -/

/-- What a caller does with a cache on the shared store. -/
inductive Task where
  | loadOrBuild (cache : TagCache) (now : Moment) (set : ExtensionSet)
  | clear (cache : TagCache)

inductive Outcome where
  | tags (tags : List String)
  | cleared (outcome : Except CacheError Unit)

namespace Task

def program : Task → StoreProgram Outcome
  | .loadOrBuild cache now set => (cache.loadOrBuild now set).bind fun tags => .done (.tags tags)
  | .clear cache => cache.clear.bind fun outcome => .done (.cleared outcome)

/-- What the task may make an artifact from. -/
def collection? : Task → Option Collection
  | .loadOrBuild cache now set => some ⟨now, cache.generator, set⟩
  | .clear _ => none

/-- Everything that artifacts are made from when tasks find `stored` artifacts on their store. -/
def sources (stored : List Collection) (tasks : List Task) : List Collection :=
  stored ++ tasks.filterMap collection?

/-- The outcomes that the task may have. -/
def Promises : Task → Outcome → Prop
  | .loadOrBuild _ _ set => (· = .tags set.attributeTags)
  | .clear _ => fun _ => True

end Task

/-- A task keeps its promise within three calls. -/
theorem Task.keeps_program (distinguished : Distinguished involved) (task : Task)
    (own : ∀ collection, task.collection? = some collection →
      collection ∈ involved ∧ collection.artifact.Readable) :
    task.program.Keeps (Collected involved) task.Promises 3 := by
  cases task with
  | loadOrBuild cache now set =>
    obtain ⟨member, readable⟩ := own ⟨now, cache.generator, set⟩ rfl
    have keeps := TagCache.keeps_loadOrBuild distinguished cache member readable
    exact keeps.map fun tags same => congrArg Outcome.tags same
  | clear cache =>
    have keeps : cache.clear.Keeps (Collected involved) (fun _ => True) 3 :=
      (TagCache.keeps_clear cache).add 2
    exact keeps.map fun _ _ => trivial

/-- One event on the shared store. -/
inductive Event where
  /-- A task makes its next call, which fails if it can and a fault is given. -/
  | call (task : Nat) (fault : Option IoError)
  /-- Bytes that are no artifact appear under a key. -/
  | spoil (key : String) (bytes : { bytes : ByteArray // Artifact.decode? bytes = none })

/-- How many of the next calls of a task an event makes. -/
def Event.callsOf (task : Nat) : Event → Nat
  | .call caller _ => if caller = task then 1 else 0
  | .spoil .. => 0

/-- The shared store, and what is left of each task. -/
structure World where
  memory : Memory
  programs : List (StoreProgram Outcome)

namespace World

/-- All tasks before their first calls. -/
def start (memory : Memory) (tasks : List Task) : World :=
  ⟨memory, tasks.map Task.program⟩

def step (world : World) : Event → World
  | .call task fault =>
    match world.programs[task]? with
    | none => world
    | some program =>
      let (left, memory) := program.step (memoryStore.failing fault) world.memory
      ⟨memory, world.programs.set task left⟩
  | .spoil key bytes => { world with memory := world.memory.insert key bytes }

def run (world : World) (events : List Event) : World :=
  events.foldl step world

/-- What a task has answered, once it is done. -/
def outcome? (world : World) (task : Nat) : Option Outcome :=
  match world.programs[task]? with
  | some (.done outcome) => some outcome
  | _ => none

/-- Whatever the store holds was collected by someone involved, and each task keeps to that and to
its promise within three calls, of which it has made `made`. -/
structure Coherent (involved : List Collection) (tasks : List Task) (made : Nat → Nat)
    (world : World) : Prop where
  holds : world.memory.Holds (Collected involved)
  sized : world.programs.length = tasks.length
  keeps : ∀ (index : Nat) (task : Task) (program : StoreProgram Outcome),
    tasks[index]? = some task → world.programs[index]? = some program →
    program.Keeps (Collected involved) task.Promises (3 - made index)

variable {tasks : List Task} {made : Nat → Nat} {world : World}

theorem Coherent.step (coherent : Coherent involved tasks made world) (event : Event) :
    Coherent involved tasks (fun task => made task + event.callsOf task) (world.step event) := by
  cases event with
  | spoil key bytes =>
    exact ⟨coherent.holds.insert key (collected_of_undecodable bytes.2), coherent.sized,
      coherent.keeps⟩
  | call caller fault =>
    cases known : world.programs[caller]? with
    | none =>
      rw [World.step, known]
      refine ⟨coherent.holds, coherent.sized, fun index task program isTask isProgram => ?_⟩
      have other : caller ≠ index := by
        rintro rfl
        rw [known] at isProgram
        cases isProgram
      rw [Event.callsOf, if_neg other]
      exact coherent.keeps index task program isTask isProgram
    | some program =>
      obtain ⟨inside, -⟩ := List.getElem?_eq_some_iff.mp known
      have isTask := List.getElem?_eq_getElem (coherent.sized ▸ inside)
      have after := (coherent.keeps caller _ program isTask known).step coherent.holds fault
      rw [World.step, known]
      refine ⟨after.2, by simpa using coherent.sized, fun index task left isTask' isLeft => ?_⟩
      by_cases same : caller = index
      · subst same
        rw [isTask] at isTask'
        rw [List.getElem?_set_self inside] at isLeft
        cases isTask'
        cases isLeft
        rw [Event.callsOf, if_pos rfl, Nat.sub_add_eq]
        exact after.1
      · rw [List.getElem?_set_ne same] at isLeft
        rw [Event.callsOf, if_neg same]
        exact coherent.keeps index task left isTask' isLeft

/-- How many of the calls of a task a sequence of events makes. -/
def callsMade : List Event → Nat → Nat
  | [], _ => 0
  | event :: events, task => event.callsOf task + callsMade events task

theorem Coherent.run (coherent : Coherent involved tasks made world) (events : List Event) :
    Coherent involved tasks (fun task => made task + callsMade events task) (world.run events) := by
  induction events generalizing made world with
  | nil => exact coherent
  | cons event events ih =>
    have ran := ih (coherent.step event)
    simp only [callsMade, ← Nat.add_assoc]
    exact ran

theorem coherent_start {memory : Memory} (holds : memory.Holds (Collected involved))
    (keeps : ∀ task ∈ tasks, task.program.Keeps (Collected involved) task.Promises 3) :
    Coherent involved tasks (fun _ => 0) (start memory tasks) := by
  refine ⟨holds, List.length_map _, fun index task program isTask isProgram => ?_⟩
  rw [start, List.getElem?_map, isTask] at isProgram
  obtain rfl : task.program = program := Option.some.inj isProgram
  exact keeps task (List.mem_of_getElem? isTask)

/-- A task that has answered kept its promise, and after three calls it has answered. -/
theorem Coherent.answers (coherent : Coherent involved tasks made world) {index : Nat} {task : Task}
    (isTask : tasks[index]? = some task) :
    (∀ outcome, world.outcome? index = some outcome → task.Promises outcome) ∧
      (3 ≤ made index →
        ∃ outcome, world.outcome? index = some outcome ∧ task.Promises outcome) := by
  obtain ⟨inside, -⟩ := List.getElem?_eq_some_iff.mp isTask
  have isProgram := List.getElem?_eq_getElem (coherent.sized ▸ inside)
  have kept := coherent.keeps index task _ isTask isProgram
  unfold outcome?
  rw [isProgram]
  constructor
  · intro outcome answered
    split at answered
    · rename_i known
      cases answered
      rw [Option.some.inj known] at kept
      exact kept.of_done
    · cases answered
  · intro enough
    rw [Nat.sub_eq_zero_of_le enough] at kept
    obtain ⟨outcome, done, promised⟩ := kept.exists_done
    exact ⟨outcome, by rw [done], promised⟩

end World

/-- **Caches that share a store stay coherent.** Let tasks load and clear tags on one store with
their calls in any order, let any call fail, and let bytes that are no artifact appear at any time.
If the store starts with artifacts that were `stored` and bytes that are none, then a task that
loads tags can only answer with those of its own extensions, and has answered after three calls.

Assumed are that the artifacts involved are read back from their bytes, and that no two different
sets of extensions involved agree in count and fingerprint. -/
theorem loadOrBuild_coherent (memory : Memory) (stored : List Collection) (tasks : List Task)
    (events : List Event)
    (starts : ∀ key bytes, memory.blob? key = some bytes → Artifact.decode? bytes = none ∨
      ∃ collection ∈ stored, bytes = collection.artifact.encode)
    (readable : ∀ collection ∈ Task.sources stored tasks, collection.artifact.Readable)
    (distinguished : Distinguished (Task.sources stored tasks))
    (index : Nat) (cache : TagCache) (now : Moment) (set : ExtensionSet)
    (isTask : tasks[index]? = some (.loadOrBuild cache now set)) :
    let world := (World.start memory tasks).run events
    (∀ outcome, world.outcome? index = some outcome → outcome = .tags set.attributeTags) ∧
      (3 ≤ World.callsMade events index →
        world.outcome? index = some (.tags set.attributeTags)) := by
  have holds : memory.Holds (Collected (Task.sources stored tasks)) := by
    intro key bytes found
    rcases starts key bytes found with undecodable | ⟨collection, member, same⟩
    · exact collected_of_undecodable undecodable
    · have member : collection ∈ Task.sources stored tasks := List.mem_append_left _ member
      rw [same]
      exact collected_encode member (readable collection member)
  have keeps : ∀ task ∈ tasks,
      task.program.Keeps (Collected (Task.sources stored tasks)) task.Promises 3 := by
    intro task member
    refine task.keeps_program distinguished fun collection own => ?_
    have member : collection ∈ Task.sources stored tasks :=
      List.mem_append_right _ (List.mem_filterMap.mpr ⟨task, member, own⟩)
    exact ⟨member, readable collection member⟩
  obtain ⟨right, prompt⟩ := ((World.coherent_start holds keeps).run events).answers isTask
  refine ⟨right, fun enough => ?_⟩
  obtain ⟨outcome, answered, rfl⟩ := prompt ((Nat.zero_add _).symm ▸ enough)
  exact answered

/-! ## Two extensions that are swapped while others load -/

/-- A text in UTF-8 is read as its characters. -/
theorem Json.symbols_toUTF8 (text : String) : symbols text.toUTF8 = text.toList.map some := by
  rw [symbols, fromUTF8?_toUTF8]

def sampleMoment : Moment :=
  { sampleBuildTime with date := ⟨2024, 2, 3, by decide, by decide⟩ }

def firstSet : ExtensionSet := ⟨[⟨"a", ["n:x"]⟩]⟩

def swappedSet : ExtensionSet := ⟨[⟨"b", ["n:y"]⟩]⟩

theorem fingerprint_firstSet : firstSet.fingerprint =
    "28049c07b1353f92d1fb3f213a06e3465c13027a46fef6f5756a42cacc97def2" := by
  decide +kernel

theorem fingerprint_swappedSet : swappedSet.fingerprint =
    "9b2d1e6f8350f86610c5e0ff778e1f4159e8f360e1d377c751226e4fa2ebefb4" := by
  decide +kernel

def firstCollection : Collection := ⟨sampleMoment, "g", firstSet⟩

def swappedCollection : Collection := ⟨sampleMoment, "g", swappedSet⟩

theorem artifact_firstCollection : firstCollection.artifact =
    ⟨"g", sampleMoment, 1, "28049c07b1353f92d1fb3f213a06e3465c13027a46fef6f5756a42cacc97def2",
      ["n:if", "n:x"]⟩ := by
  rw [← fingerprint_firstSet]
  rfl

theorem artifact_swappedCollection : swappedCollection.artifact =
    ⟨"g", sampleMoment, 1, "9b2d1e6f8350f86610c5e0ff778e1f4159e8f360e1d377c751226e4fa2ebefb4",
      ["n:if", "n:y"]⟩ := by
  rw [← fingerprint_swappedSet]
  rfl

theorem readable_firstCollection : firstCollection.artifact.Readable := by
  rw [artifact_firstCollection, Artifact.Readable, Artifact.decode?, Artifact.encode,
    Json.readJson, Json.symbols_toUTF8, Artifact.render, String.toList_ofList]
  decide +kernel

theorem readable_swappedCollection : swappedCollection.artifact.Readable := by
  rw [artifact_swappedCollection, Artifact.Readable, Artifact.decode?, Artifact.encode,
    Json.readJson, Json.symbols_toUTF8, Artifact.render, String.toList_ofList]
  decide +kernel

theorem swappedSet_distinguished {involved : List Collection}
    (sets : ∀ collection ∈ involved, collection.set = firstSet ∨ collection.set = swappedSet) :
    Distinguished involved := by
  have differ : firstSet.fingerprint ≠ swappedSet.fingerprint := by
    rw [fingerprint_firstSet, fingerprint_swappedSet]
    decide
  intro first member second member' _ same
  rcases sets first member with left | left <;> rcases sets second member' with right | right
  · rw [left, right]
  · exact absurd (left ▸ right ▸ same) differ
  · exact absurd (left ▸ right ▸ same.symm) differ
  · rw [left, right]

def sampleCache : TagCache := ⟨"tags.json", "g"⟩

def sampleTasks : List Task :=
  [.loadOrBuild sampleCache sampleMoment firstSet,
    .loadOrBuild sampleCache sampleMoment swappedSet, .clear sampleCache]

theorem sampleBytes_undecodable : Artifact.decode? "?".toUTF8 = none := by
  rw [Artifact.decode?, Json.readJson, Json.symbols_toUTF8]
  rfl

/-- Both callers find the artifact of the first set. The one that finds it stale collects and
writes; for the other it is spoiled before it reads, cleared, and not written back. -/
def sampleEvents : List Event :=
  [.call 1 none, .call 0 none, .call 1 none,
    .spoil "tags.json" ⟨"?".toUTF8, sampleBytes_undecodable⟩,
    .call 0 none, .call 1 none, .call 2 none, .call 0 (some denied)]

def sampleMemory : Memory :=
  Memory.insert {} "tags.json" firstCollection.artifact.encode

theorem loadOrBuild_coherent_swapped :
    let world := (World.start sampleMemory sampleTasks).run sampleEvents
    World.callsMade sampleEvents 1 = 3 ∧
      world.outcome? 1 = some (.tags swappedSet.attributeTags) := by
  have sources : Task.sources [firstCollection] sampleTasks =
      [firstCollection, firstCollection, swappedCollection] := rfl
  have readable : ∀ collection ∈ Task.sources [firstCollection] sampleTasks,
      collection.artifact.Readable := by
    rw [sources]
    simp only [List.mem_cons, List.not_mem_nil, or_false]
    rintro collection (rfl | rfl | rfl)
    · exact readable_firstCollection
    · exact readable_firstCollection
    · exact readable_swappedCollection
  have distinguished : Distinguished (Task.sources [firstCollection] sampleTasks) := by
    rw [sources]
    refine swappedSet_distinguished ?_
    simp [firstCollection, swappedCollection]
  have starts : ∀ key bytes, sampleMemory.blob? key = some bytes →
      Artifact.decode? bytes = none ∨
        ∃ collection ∈ [firstCollection], bytes = collection.artifact.encode := by
    intro key bytes found
    by_cases same : key = "tags.json"
    · subst same
      rw [Memory.blob?, sampleMemory, Memory.insert, Table.get?_insert_self] at found
      exact .inr ⟨firstCollection, List.mem_singleton_self _, (Option.some.inj found).symm⟩
    · rw [Memory.blob?, sampleMemory, Memory.insert, Table.get?_insert_of_ne _ _ same] at found
      cases found
  exact ⟨rfl, (loadOrBuild_coherent sampleMemory [firstCollection] sampleTasks sampleEvents starts
    readable distinguished 1 sampleCache sampleMoment swappedSet rfl).2 (Nat.le_refl 3)⟩

end Templating
