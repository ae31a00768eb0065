import Templating.Proofs.TagCache.Saving

/-!
# Hits and misses

A cache looks at one blob of its store. When this blob is an artifact that is fresh for the
extensions, its tags are the answer and the store is left alone. In every other case, be the blob
missing, unreadable, no artifact or stale, the tags are collected and one write is attempted.

* `StoreProgram.writes`: the writes that a program attempts.
* `Loads.freshFrom_eq_some`: loading finds a fresh artifact just when the blob is one.
* `run_loadOrBuild_of_hits`, `run_loadOrBuild_of_misses`: what a hit and a miss do on any store.
* `loadOrBuild_writes_on_miss` puts them together for a store in memory.
-/

namespace Templating

/-! ## Attempted writes -/

namespace StoreProgram

variable {α β σ : Type}

/-- The writes that a program attempts on a store, whether or not the store takes them. -/
def writes (store : Store σ) : StoreProgram α → σ → List (String × ByteArray)
  | .done _, _ => []
  | .present key next, state => (next (store.present key state)).writes store state
  | .read key next, state => (next (store.read key state)).writes store state
  | .write key bytes next, state =>
    let (answer, changed) := store.write key bytes state
    (key, bytes) :: (next answer).writes store changed
  | .remove key next, state =>
    let (answer, changed) := store.remove key state
    (next answer).writes store changed

theorem writes_bind (store : Store σ) (program : StoreProgram α) (f : α → StoreProgram β)
    (state : σ) : (program.bind f).writes store state = program.writes store state ++
      (f (program.run store state).1).writes store (program.run store state).2 := by
  induction program generalizing state with
  | done answer => rfl
  | present key next ih => exact ih _ _
  | read key next ih => exact ih _ _
  | write key bytes next ih => exact congrArg ((key, bytes) :: ·) (ih _ _)
  | remove key next ih => exact ih _ _

end StoreProgram

namespace TagCache

variable {σ : Type} {store : Store σ} {state : σ} {cache : TagCache} {set : ExtensionSet}
  {artifact : Artifact}

/-! ## Loading -/

/-- What loading finds under the key of the cache. -/
inductive Loads (store : Store σ) (state : σ) (cache : TagCache) :
    Except CacheError (Option Artifact) → Prop
  | missing (absent : store.present cache.key state = false) : Loads store state cache (.ok none)
  | unreadable {cause : IoError} (present : store.present cache.key state = true)
      (refused : store.read cache.key state = .error cause) :
      Loads store state cache (.error (.unreadable cache.key cause))
  | undecodable {bytes : ByteArray} (present : store.present cache.key state = true)
      (given : store.read cache.key state = .ok bytes) (foreign : Artifact.decode? bytes = none) :
      Loads store state cache (.error (.undecodable cache.key))
  | found {bytes : ByteArray} {artifact : Artifact} (present : store.present cache.key state = true)
      (given : store.read cache.key state = .ok bytes)
      (decoded : Artifact.decode? bytes = some artifact) :
      Loads store state cache (.ok (some artifact))

/-- Loading changes nothing, whatever it finds. -/
theorem run_load (store : Store σ) (state : σ) (cache : TagCache) :
    ∃ outcome, cache.load.run store state = (outcome, state) ∧
      cache.load.writes store state = [] ∧ Loads store state cache outcome := by
  unfold load
  simp only [Bind.bind, StoreProgram.askPresent, StoreProgram.askRead, StoreProgram.bind,
    StoreProgram.run, StoreProgram.writes]
  cases present : store.present cache.key state with
  | false => exact ⟨_, rfl, rfl, .missing present⟩
  | true =>
    simp only [if_true, StoreProgram.run, StoreProgram.writes]
    cases given : store.read cache.key state with
    | error cause => exact ⟨_, rfl, rfl, .unreadable present given⟩
    | ok bytes =>
      simp only []
      cases decoded : Artifact.decode? bytes with
      | none => exact ⟨_, rfl, rfl, .undecodable present given decoded⟩
      | some artifact => exact ⟨_, rfl, rfl, .found present given decoded⟩

/-- The blob under the key of the cache is there and can be read, and it is an artifact with the
count and the fingerprint of the extensions. -/
def Hits (store : Store σ) (state : σ) (cache : TagCache) (set : ExtensionSet)
    (artifact : Artifact) : Prop :=
  store.present cache.key state = true ∧ ∃ bytes, store.read cache.key state = .ok bytes ∧
    Artifact.decode? bytes = some artifact ∧
    artifact.extensionCount = UInt64.ofNat set.size ∧ artifact.fingerprint = set.fingerprint

/-- A fresh artifact is found just when the blob is one. -/
theorem Loads.freshFrom_eq_some {outcome : Except CacheError (Option Artifact)}
    (loads : Loads store state cache outcome) :
    freshFrom set outcome = some artifact ↔ Hits store state cache set artifact := by
  constructor
  · intro picked
    obtain ⟨rfl, fresh⟩ := eq_of_freshFrom picked
    cases loads with
    | found present given decoded =>
      exact ⟨present, _, given, decoded, Artifact.isFreshFor_iff.mp fresh⟩
  · rintro ⟨present, bytes, given, decoded, fresh⟩
    have loaded := run_load_of_decode present given decoded
    cases loads with
    | missing absent => exact absurd present (Bool.eq_false_iff.mp absent)
    | unreadable _ refused => cases given.symm.trans refused
    | undecodable _ given' foreign =>
      obtain rfl := Except.ok.inj (given.symm.trans given')
      cases decoded.symm.trans foreign
    | found _ given' decoded' =>
      obtain rfl := Except.ok.inj (given.symm.trans given')
      obtain rfl := Option.some.inj (decoded.symm.trans decoded')
      exact if_pos (Artifact.isFreshFor_iff.mpr fresh)

/-! ## Loading or collecting -/

section

variable (now : Moment)

theorem loadOrBuild_eq (cache : TagCache) (set : ExtensionSet) :
    cache.loadOrBuild now set = cache.load.bind fun outcome =>
      match freshFrom set outcome with
      | some artifact => .done artifact.tags
      | none => (cache.save (Artifact.build now cache.generator set)).bind fun _ =>
        .done set.attributeTags := rfl

/-- **A hit** answers with the stored tags and leaves the store alone. -/
theorem run_loadOrBuild_of_hits (hits : Hits store state cache set artifact) :
    (cache.loadOrBuild now set).run store state = (artifact.tags, state) ∧
      (cache.loadOrBuild now set).writes store state = [] := by
  obtain ⟨outcome, ran, writes, loads⟩ := run_load store state cache
  have fresh : freshFrom set outcome = some artifact := loads.freshFrom_eq_some.mpr hits
  rw [loadOrBuild_eq, StoreProgram.run_bind, StoreProgram.writes_bind, ran, writes, fresh]
  exact ⟨rfl, rfl⟩

/-- **A miss** answers with the collected tags and attempts one write, on which the answer does not
depend. -/
theorem run_loadOrBuild_of_misses (misses : ∀ artifact, ¬ Hits store state cache set artifact) :
    let built := Artifact.build now cache.generator set
    (cache.loadOrBuild now set).run store state =
        (set.attributeTags, (store.write cache.key built.encode state).2) ∧
      (cache.loadOrBuild now set).writes store state = [(cache.key, built.encode)] := by
  intro built
  obtain ⟨outcome, ran, writes, loads⟩ := run_load store state cache
  have stale : freshFrom set outcome = none :=
    Option.eq_none_iff_forall_ne_some.mpr fun artifact fresh =>
      misses artifact (loads.freshFrom_eq_some.mp fresh)
  rw [loadOrBuild_eq, StoreProgram.run_bind, StoreProgram.writes_bind, ran, writes, stale]
  exact ⟨rfl, rfl⟩

end

/-! ## A store in memory -/

theorem hits_memoryStore {memory : Memory} : Hits memoryStore memory cache set artifact ↔
    ∃ bytes, memory.blob? cache.key = some bytes ∧ memory.refusals.reads = false ∧
      Artifact.decode? bytes = some artifact ∧
      artifact.extensionCount = UInt64.ofNat set.size ∧ artifact.fingerprint = set.fingerprint := by
  unfold Hits
  simp only [memoryStore]
  cases memory.blob? cache.key with
  | none => simp
  | some blob => cases memory.refusals.reads <;> simp

/-- **The store is written exactly on a miss.** Whatever bytes a store in memory holds and whatever
it refuses: when the blob under the key of the cache is there, can be read and is an artifact with
the count and the fingerprint of the extensions, a call answers with the stored tags and changes
nothing. Otherwise it answers with the collected tags after exactly one attempt to write, under this
key. If the write is refused the store is as before; if not, nothing changes under any other key.
From then on, while the store can be read, the artifact is loaded with the tags that were answered,
and another call answers with them and writes nothing, given that the artifact is read back from the
bytes that it is stored as. -/
theorem loadOrBuild_writes_on_miss (cache : TagCache) (now : Moment) (set : ExtensionSet)
    (memory : Memory) :
    let call := cache.loadOrBuild now set
    let built := Artifact.build now cache.generator set
    (∀ artifact, Hits memoryStore memory cache set artifact →
      call.run memoryStore memory = (artifact.tags, memory) ∧ call.writes memoryStore memory = []) ∧
    ((∀ artifact, ¬ Hits memoryStore memory cache set artifact) →
      ∃ after, call.run memoryStore memory = (set.attributeTags, after) ∧
        call.writes memoryStore memory = [(cache.key, built.encode)] ∧
        (memory.refusals.writes = true → after = memory) ∧
        (memory.refusals.writes = false →
          (∀ key, key ≠ cache.key → after.blob? key = memory.blob? key) ∧
          after.refusals = memory.refusals ∧ after.writeCount = memory.writeCount + 1 ∧
          (built.Readable → ∀ refusals : Refusals, refusals.reads = false →
            let later := { after with refusals := refusals }
            (∃ artifact, cache.load.run memoryStore later = (.ok (some artifact), later) ∧
              artifact.generator = cache.generator ∧
              artifact.extensionCount = UInt64.ofNat set.size ∧
              artifact.fingerprint = set.fingerprint ∧ artifact.tags = set.attributeTags) ∧
            ∀ now',
              (cache.loadOrBuild now' set).run memoryStore later = (set.attributeTags, later) ∧
              (cache.loadOrBuild now' set).writes memoryStore later = []))) := by
  intro call built
  refine ⟨fun artifact hits => run_loadOrBuild_of_hits now hits, fun misses => ?_⟩
  obtain ⟨ran, writes⟩ := run_loadOrBuild_of_misses now misses
  refine ⟨_, ran, writes, fun refused => ?_, fun taken => ?_⟩
  · simp only [memoryStore, refused, if_true]
  · have written : (memoryStore.write cache.key built.encode memory).2 =
        { memory.insert cache.key built.encode with writeCount := memory.writeCount + 1 } := by
      simp only [memoryStore, taken, Bool.false_eq_true, if_false]
    rw [written]
    refine ⟨fun key other => Table.get?_insert_of_ne _ _ other, rfl, rfl,
      fun readable refusals reads => ?_⟩
    intro later
    have blob : later.blob? cache.key = some built.encode := Table.get?_insert_self _ _ _
    have hits : Hits memoryStore later cache set built :=
      hits_memoryStore.mpr ⟨_, blob, reads, readable, rfl, rfl⟩
    have again (now' : Moment) := run_loadOrBuild_of_hits now' hits
    obtain ⟨present, bytes, given, decoded, -⟩ := hits
    exact ⟨⟨built, run_load_of_decode present given decoded, rfl, rfl, rfl, rfl⟩, again⟩

/-- The artifact of another extension is found stale and replaced, and from then on it is a hit. -/
theorem loadOrBuild_writes_on_miss_swapped :
    let built := Artifact.build sampleMoment "g" swappedSet
    (∀ artifact, ¬ Hits memoryStore sampleMemory sampleCache swappedSet artifact) ∧ built.Readable ∧
      ∃ after, (sampleCache.loadOrBuild sampleMoment swappedSet).run memoryStore sampleMemory =
          (swappedSet.attributeTags, after) ∧
        (sampleCache.loadOrBuild sampleMoment swappedSet).writes memoryStore sampleMemory =
          [("tags.json", built.encode)] ∧
        (sampleCache.loadOrBuild sampleMoment swappedSet).run memoryStore after =
          (swappedSet.attributeTags, after) ∧
        (sampleCache.loadOrBuild sampleMoment swappedSet).writes memoryStore after = [] := by
  intro built
  have readable : built.Readable := readable_swappedCollection
  have misses : ∀ artifact, ¬ Hits memoryStore sampleMemory sampleCache swappedSet artifact := by
    intro artifact hits
    obtain ⟨bytes, blob, -, decoded, -, print⟩ := hits_memoryStore.mp hits
    obtain rfl : firstCollection.artifact.encode = bytes :=
      Option.some.inj ((Table.get?_insert_self _ _ _).symm.trans blob)
    obtain rfl := Option.some.inj (readable_firstCollection.symm.trans decoded)
    rw [artifact_firstCollection, fingerprint_swappedSet] at print
    exact absurd print (by decide)
  obtain ⟨after, ran, writes, -, taken⟩ :=
    (loadOrBuild_writes_on_miss sampleCache sampleMoment swappedSet sampleMemory).2 misses
  obtain ⟨-, refusals, -, stored⟩ := taken rfl
  obtain ⟨-, again⟩ := stored readable {} rfl
  have same : { after with refusals := {} } = after := by
    rw [show ({} : Refusals) = after.refusals from refusals.symm]
  rw [same] at again
  exact ⟨misses, readable, after, ran, writes, again sampleMoment⟩

end TagCache

end Templating
