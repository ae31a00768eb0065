import Templating.Proofs.TagCache.Fingerprint
import Templating.Proofs.TagCache.Interleaving
import Templating.TagCache.Cache

/-!
# Two caches on one store

Caches of different projects or generators share a store in memory. Their operations, and bytes that
someone writes under their keys, are carried out call by call in any order, and any call can fail.

* `cacheKeyStream_inj`: the bytes that a key is the digest of tell projects and generators apart.
* `StoreProgram.Under`: every operation of a cache makes its calls under the key of the cache.
* `StoreProgram.Under.step_alike` and `step_frame`: what a call does depends only on what the store
  has under its key, and changes nothing else.
* `caches_do_not_interfere` compares a whole run with the one that lacks the second cache.
-/

namespace Templating

/-! ## Keys -/

theorem cacheKeyStream_eq (projectId generator : String) :
    cacheKeyStream projectId generator =
      (projectId.toList ++ '\x00' :: generator.toList).flatMap String.utf8EncodeChar := by
  rw [List.flatMap_append, List.flatMap_cons]
  rfl

/-- The last mark stands between the project and the generator, whatever the project holds. -/
theorem cacheKeyStream_inj {projectId generator projectId' generator' : String}
    (free : '\x00' ∉ generator.toList) (free' : '\x00' ∉ generator'.toList)
    (same : cacheKeyStream projectId generator = cacheKeyStream projectId' generator') :
    projectId = projectId' ∧ generator = generator' := by
  rw [cacheKeyStream_eq, cacheKeyStream_eq] at same
  have reversed := congrArg List.reverse (flatMap_utf8EncodeChar_inj same)
  rw [List.reverse_append, List.reverse_append, List.reverse_cons, List.reverse_cons,
    List.append_assoc, List.append_assoc] at reversed
  obtain ⟨generators, projects⟩ := of_append_mark (mt List.mem_reverse.mp free)
    (mt List.mem_reverse.mp free') reversed
  exact ⟨String.toList_injective (List.reverse_inj.mp projects),
    String.toList_injective (List.reverse_inj.mp generators)⟩

-- A generator with a mark can be taken for the end of a project.
example : cacheKeyStream "a" "b\x00g" = cacheKeyStream "a\x00b" "g" := by decide

/-! ## Programs under one key -/

namespace StoreProgram

variable {α β : Type} {key : String}

/-- Every call of the program is under the key, whatever the store answers. -/
inductive Under (key : String) : StoreProgram α → Prop
  | done (answer : α) : Under key (.done answer)
  | present {next : Bool → StoreProgram α} (rest : ∀ answer, Under key (next answer)) :
      Under key (.present key next)
  | read {next : Except IoError ByteArray → StoreProgram α}
      (rest : ∀ answer, Under key (next answer)) : Under key (.read key next)
  | write {bytes : ByteArray} {next : Except IoError Unit → StoreProgram α}
      (rest : ∀ answer, Under key (next answer)) : Under key (.write key bytes next)
  | remove {next : Except IoError Unit → StoreProgram α}
      (rest : ∀ answer, Under key (next answer)) : Under key (.remove key next)

theorem Under.bind {program : StoreProgram α} {f : α → StoreProgram β} (under : program.Under key)
    (goes : ∀ answer, (f answer).Under key) : (program.bind f).Under key := by
  induction under with
  | done answer => exact goes answer
  | present _ rest => exact .present rest
  | read _ rest => exact .read rest
  | write _ rest => exact .write rest
  | remove _ rest => exact .remove rest

end StoreProgram

/-! ## What a call reads and changes -/

/-- Two states that a program under the key cannot tell apart. -/
structure Memory.Alike (key : String) (memory other : Memory) : Prop where
  blob : memory.blob? key = other.blob? key
  refusals : memory.refusals = other.refusals

namespace Memory

variable {key : String} {memory other third : Memory}

theorem Alike.refl (key : String) (memory : Memory) : memory.Alike key memory :=
  ⟨rfl, rfl⟩

theorem Alike.trans (alike : memory.Alike key other) (alike' : other.Alike key third) :
    memory.Alike key third :=
  ⟨alike.blob.trans alike'.blob, alike.refusals.trans alike'.refusals⟩

theorem Alike.present (alike : memory.Alike key other) (fault : Option IoError) :
    (memoryStore.failing fault).present key memory =
      (memoryStore.failing fault).present key other := by
  cases fault <;> exact congrArg Option.isSome alike.blob

theorem Alike.read (alike : memory.Alike key other) (fault : Option IoError) :
    (memoryStore.failing fault).read key memory = (memoryStore.failing fault).read key other := by
  cases fault with
  | some cause => rfl
  | none => simp only [Store.failing, memoryStore, alike.blob, alike.refusals]

theorem Alike.write (alike : memory.Alike key other) (fault : Option IoError) (bytes : ByteArray) :
    ((memoryStore.failing fault).write key bytes memory).1 =
        ((memoryStore.failing fault).write key bytes other).1 ∧
      ((memoryStore.failing fault).write key bytes memory).2.Alike key
        ((memoryStore.failing fault).write key bytes other).2 := by
  cases fault with
  | some cause => exact ⟨rfl, alike⟩
  | none =>
    simp only [Store.failing, memoryStore, alike.refusals]
    split
    · exact ⟨rfl, alike⟩
    · refine ⟨rfl, ?_, alike.refusals⟩
      exact (Table.get?_insert_self _ _ _).trans (Table.get?_insert_self _ _ _).symm

theorem Alike.remove (alike : memory.Alike key other) (fault : Option IoError) :
    ((memoryStore.failing fault).remove key memory).1 =
        ((memoryStore.failing fault).remove key other).1 ∧
      ((memoryStore.failing fault).remove key memory).2.Alike key
        ((memoryStore.failing fault).remove key other).2 := by
  cases fault with
  | some cause => exact ⟨rfl, alike⟩
  | none =>
    simp only [Store.failing, memoryStore, alike.refusals]
    split
    · exact ⟨rfl, alike⟩
    · refine ⟨rfl, ?_, alike.refusals⟩
      exact (Table.get?_erase_self _ _).trans (Table.get?_erase_self _ _).symm

/-- Writing under one key leaves the others as they are. -/
theorem alike_write {used : String} (differ : key ≠ used) (fault : Option IoError)
    (bytes : ByteArray) (memory : Memory) :
    ((memoryStore.failing fault).write used bytes memory).2.Alike key memory := by
  cases fault with
  | some cause => exact .refl key memory
  | none =>
    simp only [Store.failing, memoryStore]
    split
    · exact .refl key memory
    · exact ⟨Table.get?_insert_of_ne _ _ differ, rfl⟩

theorem alike_remove {used : String} (differ : key ≠ used) (fault : Option IoError)
    (memory : Memory) : ((memoryStore.failing fault).remove used memory).2.Alike key memory := by
  cases fault with
  | some cause => exact .refl key memory
  | none =>
    simp only [Store.failing, memoryStore]
    split
    · exact .refl key memory
    · exact ⟨Table.get?_erase_of_ne _ differ, rfl⟩

end Memory

namespace StoreProgram.Under

variable {α : Type} {key : String} {program : StoreProgram α} {memory other : Memory}

/-- A program under a key stays under it. -/
theorem step (under : program.Under key) (store : Store Memory) (memory : Memory) :
    (program.step store memory).1.Under key := by
  cases under with
  | done answer => exact .done answer
  | present rest => exact rest _
  | read rest => exact rest _
  | write rest => exact rest _
  | remove rest => exact rest _

/-- A call does the same on states that are alike under its key, and leaves states that are. -/
theorem step_alike (under : program.Under key) (alike : memory.Alike key other)
    (fault : Option IoError) :
    (program.step (memoryStore.failing fault) memory).1 =
        (program.step (memoryStore.failing fault) other).1 ∧
      (program.step (memoryStore.failing fault) memory).2.Alike key
        (program.step (memoryStore.failing fault) other).2 := by
  cases under with
  | done answer => exact ⟨rfl, alike⟩
  | @present next _ => exact ⟨congrArg next (alike.present fault), alike⟩
  | @read next _ => exact ⟨congrArg next (alike.read fault), alike⟩
  | @write bytes next _ =>
    obtain ⟨answer, left⟩ := alike.write fault bytes
    exact ⟨congrArg next answer, left⟩
  | @remove next _ =>
    obtain ⟨answer, left⟩ := alike.remove fault
    exact ⟨congrArg next answer, left⟩

/-- A call under another key leaves a state that is alike. -/
theorem step_frame {used : String} (under : program.Under used) (differ : key ≠ used)
    (fault : Option IoError) (memory : Memory) :
    (program.step (memoryStore.failing fault) memory).2.Alike key memory := by
  cases under with
  | done answer => exact .refl key memory
  | present _ => exact .refl key memory
  | read _ => exact .refl key memory
  | write _ => exact Memory.alike_write differ fault _ memory
  | remove _ => exact Memory.alike_remove differ fault memory

end StoreProgram.Under

/-! ## Operations of a cache -/

namespace TagCache

/-- An operation of a cache, or bytes that someone writes under its key. -/
inductive Operation where
  | load
  | save (artifact : Artifact)
  | clear
  | loadOrBuild (now : Moment) (set : ExtensionSet)
  | put (bytes : ByteArray)

inductive Answer where
  | loaded (outcome : Except CacheError (Option Artifact))
  | changed (outcome : Except CacheError Unit)
  | tags (tags : List String)
  | put (outcome : Except IoError Unit)

def Operation.program (cache : TagCache) : Operation → StoreProgram Answer
  | .load => cache.load.bind fun outcome => .done (.loaded outcome)
  | .save artifact => (cache.save artifact).bind fun outcome => .done (.changed outcome)
  | .clear => cache.clear.bind fun outcome => .done (.changed outcome)
  | .loadOrBuild now set => (cache.loadOrBuild now set).bind fun tags => .done (.tags tags)
  | .put bytes => (StoreProgram.askWrite cache.key bytes).bind fun outcome => .done (.put outcome)

open StoreProgram

variable (cache : TagCache)

theorem under_load : cache.load.Under cache.key := by
  refine .present fun answer => ?_
  cases answer with
  | false => exact .done _
  | true =>
    refine .read fun answer => ?_
    cases answer with
    | error cause => exact .done _
    | ok bytes =>
      simp only [StoreProgram.bind]
      cases Artifact.decode? bytes with
      | none => exact .done _
      | some artifact => exact .done _

theorem under_save (artifact : Artifact) : (cache.save artifact).Under cache.key :=
  .write fun _ => .done _

theorem under_clear : cache.clear.Under cache.key :=
  .remove fun _ => .done _

theorem under_loadOrBuild (now : Moment) (set : ExtensionSet) :
    (cache.loadOrBuild now set).Under cache.key := by
  refine (under_load cache).bind fun outcome => ?_
  cases freshFrom set outcome with
  | some artifact => exact .done _
  | none => exact (under_save cache _).bind fun _ => .done _

/-- A cache makes its calls under its key. -/
theorem Operation.under_program (operation : Operation) :
    (operation.program cache).Under cache.key := by
  cases operation with
  | load => exact (under_load cache).bind fun _ => .done _
  | save artifact => exact (under_save cache artifact).bind fun _ => .done _
  | clear => exact (under_clear cache).bind fun _ => .done _
  | loadOrBuild now set => exact (under_loadOrBuild cache now set).bind fun _ => .done _
  | put bytes => exact .write fun _ => .done _

end TagCache

/-! ## Runs of two caches -/

open TagCache (Operation Answer)

/-- A store that two caches share, with what is left of their operations. -/
structure Sharing where
  memory : Memory
  first : List (StoreProgram Answer)
  second : List (StoreProgram Answer)

/-- An operation of one of the caches makes its next call, which fails if it can and a fault is
given. -/
inductive Sharing.Event where
  | first (operation : Nat) (fault : Option IoError)
  | second (operation : Nat) (fault : Option IoError)

/-- Whether an event is of the first cache. -/
def Sharing.Event.isFirst : Event → Bool
  | .first .. => true
  | .second .. => false

namespace Sharing

/-- Makes the next call of one of some programs, if there is such a program. -/
def stepAt (fault : Option IoError) (programs : List (StoreProgram Answer)) (index : Nat)
    (memory : Memory) : List (StoreProgram Answer) × Memory :=
  match programs[index]? with
  | none => (programs, memory)
  | some program =>
    let (left, changed) := program.step (memoryStore.failing fault) memory
    (programs.set index left, changed)

def step (sharing : Sharing) : Event → Sharing
  | .first operation fault =>
    let (left, changed) := stepAt fault sharing.first operation sharing.memory
    { sharing with memory := changed, first := left }
  | .second operation fault =>
    let (left, changed) := stepAt fault sharing.second operation sharing.memory
    { sharing with memory := changed, second := left }

def run (sharing : Sharing) (events : List Event) : Sharing :=
  events.foldl step sharing

/-- What an operation of the first cache has answered, once it is done. -/
def answer? (sharing : Sharing) (operation : Nat) : Option Answer :=
  match sharing.first[operation]? with
  | some (.done answer) => some answer
  | _ => none

section

variable {key used : String} {programs : List (StoreProgram Answer)} {memory other : Memory}

theorem under_stepAt (under : ∀ program ∈ programs, program.Under key) (fault : Option IoError)
    (index : Nat) (memory : Memory) :
    ∀ program ∈ (stepAt fault programs index memory).1, program.Under key := by
  unfold stepAt
  cases known : programs[index]? with
  | none => exact under
  | some program =>
    intro left member
    rcases List.mem_or_eq_of_mem_set member with member | rfl
    · exact under left member
    · exact (under program (List.mem_of_getElem? known)).step _ memory

theorem stepAt_alike (under : ∀ program ∈ programs, program.Under key)
    (alike : memory.Alike key other) (fault : Option IoError) (index : Nat) :
    (stepAt fault programs index memory).1 = (stepAt fault programs index other).1 ∧
      (stepAt fault programs index memory).2.Alike key (stepAt fault programs index other).2 := by
  unfold stepAt
  cases known : programs[index]? with
  | none => exact ⟨rfl, alike⟩
  | some program =>
    obtain ⟨left, changed⟩ :=
      (under program (List.mem_of_getElem? known)).step_alike alike fault
    exact ⟨congrArg (programs.set index) left, changed⟩

theorem stepAt_frame (under : ∀ program ∈ programs, program.Under used) (differ : key ≠ used)
    (fault : Option IoError) (index : Nat) (memory : Memory) :
    (stepAt fault programs index memory).2.Alike key memory := by
  unfold stepAt
  cases known : programs[index]? with
  | none => exact .refl key memory
  | some program =>
    exact (under program (List.mem_of_getElem? known)).step_frame differ fault memory

end

/-- A run with both caches against one with the first cache only: the first cache has come as far in
both, and finds the same under its key. -/
structure Matches (key used : String) (shared alone : Sharing) : Prop where
  alike : shared.memory.Alike key alone.memory
  same : shared.first = alone.first
  firstUnder : ∀ program ∈ shared.first, program.Under key
  secondUnder : ∀ program ∈ shared.second, program.Under used

namespace Matches

variable {key used : String} {shared alone : Sharing}

theorem first (sides : Matches key used shared alone) (operation : Nat) (fault : Option IoError) :
    Matches key used (shared.step (.first operation fault))
      (alone.step (.first operation fault)) := by
  obtain ⟨left, changed⟩ := stepAt_alike sides.firstUnder sides.alike fault operation
  rw [sides.same] at left changed
  refine ⟨?_, ?_, under_stepAt sides.firstUnder fault operation _, sides.secondUnder⟩
  · rw [step, step, sides.same]
    exact changed
  · rw [step, step, sides.same]
    exact left

theorem second (sides : Matches key used shared alone) (differ : key ≠ used) (operation : Nat)
    (fault : Option IoError) : Matches key used (shared.step (.second operation fault)) alone :=
  ⟨(stepAt_frame sides.secondUnder differ fault operation _).trans sides.alike, sides.same,
    sides.firstUnder, under_stepAt sides.secondUnder fault operation _⟩

/-- The run with the first cache only is the one without the events of the second. -/
theorem run (sides : Matches key used shared alone) (differ : key ≠ used) (events : List Event) :
    Matches key used (shared.run events) (alone.run (events.filter Event.isFirst)) := by
  induction events generalizing shared alone with
  | nil => exact sides
  | cons event events ih =>
    cases event with
    | first operation fault => exact ih (sides.first operation fault)
    | second operation fault => exact ih (sides.second differ operation fault)

end Matches

end Sharing

/-- The keys of different projects or generators differ, unless their digests collide. -/
theorem cacheKey_ne {projectId generator projectId' generator' : String}
    (differ : (projectId, generator) ≠ (projectId', generator'))
    (free : '\x00' ∉ generator.toList) (free' : '\x00' ∉ generator'.toList)
    (noCollision : Digest.sha256Hex (cacheKeyStream projectId generator) =
      Digest.sha256Hex (cacheKeyStream projectId' generator') →
      cacheKeyStream projectId generator = cacheKeyStream projectId' generator') :
    cacheKey projectId generator ≠ cacheKey projectId' generator' := by
  intro same
  have digests : Digest.sha256Hex (cacheKeyStream projectId generator) =
      Digest.sha256Hex (cacheKeyStream projectId' generator') := by
    have letters := congrArg String.toList same
    rw [cacheKey, cacheKey, String.toList_append, String.toList_append] at letters
    exact String.toList_injective (List.append_cancel_right letters)
  obtain ⟨rfl, rfl⟩ := cacheKeyStream_inj free free' (noCollision digests)
  exact differ rfl

/-- **Caches of different projects or generators do not interfere.** Take two of them on one
store in memory, with operations of both that make their calls in any order, some of which fail.
If the generators hold no NUL and the digests of the two keys do not collide, then the first
cache answers what it answers without the operations of the second, and ends up with the same
bytes under its key. -/
theorem caches_do_not_interfere (projectId generator projectId' generator' : String)
    (differ : (projectId, generator) ≠ (projectId', generator'))
    (free : '\x00' ∉ generator.toList) (free' : '\x00' ∉ generator'.toList)
    (noCollision : Digest.sha256Hex (cacheKeyStream projectId generator) =
      Digest.sha256Hex (cacheKeyStream projectId' generator') →
      cacheKeyStream projectId generator = cacheKeyStream projectId' generator')
    (memory : Memory) (operations operations' : List Operation) (events : List Sharing.Event) :
    let first := TagCache.new projectId generator
    let second := TagCache.new projectId' generator'
    let shared := Sharing.run ⟨memory, operations.map (·.program first),
      operations'.map (·.program second)⟩ events
    let alone := Sharing.run ⟨memory, operations.map (·.program first), []⟩
      (events.filter Sharing.Event.isFirst)
    (∀ operation, shared.answer? operation = alone.answer? operation) ∧
      shared.memory.blob? first.key = alone.memory.blob? first.key := by
  intro first second shared alone
  have keys : first.key ≠ second.key := cacheKey_ne differ free free' noCollision
  have start : Sharing.Matches first.key second.key
      ⟨memory, operations.map (·.program first), operations'.map (·.program second)⟩
      ⟨memory, operations.map (·.program first), []⟩ :=
    ⟨.refl _ memory, rfl, List.forall_mem_map.mpr fun operation _ => operation.under_program first,
      List.forall_mem_map.mpr fun operation _ => operation.under_program second⟩
  have sides : Sharing.Matches first.key second.key shared alone := start.run keys events
  refine ⟨fun operation => ?_, sides.alike.blob⟩
  rw [Sharing.answer?, Sharing.answer?, sides.same]

/-! ## A project that holds the mark between project and generator -/

/-- On a store that holds nothing a cache finds nothing. -/
theorem Sharing.load_empty (cache : TagCache) :
    (Sharing.run ⟨{}, [Operation.load].map (·.program cache), []⟩
      [.first 0 none]).answer? 0 = some (.loaded (.ok none)) :=
  rfl

/-- Bytes that are written for the other project are not found. -/
theorem caches_do_not_interfere_marked :
    let first := TagCache.new "a\x00b" "g"
    let second := TagCache.new "a" "g"
    let shared := Sharing.run ⟨{}, [Operation.load].map (·.program first),
      [Operation.put "?".toUTF8, Operation.load].map (·.program second)⟩
      [.second 0 none, .first 0 none, .second 1 none]
    shared.answer? 0 = some (.loaded (.ok none)) := by
  intro first second shared
  have separate := caches_do_not_interfere "a\x00b" "g" "a" "g" (by decide) (by decide) (by decide)
    (by decide +kernel) {} [.load] [.put "?".toUTF8, .load]
    [.second 0 none, .first 0 none, .second 1 none]
  exact (separate.1 0).trans (Sharing.load_empty first)

end Templating
