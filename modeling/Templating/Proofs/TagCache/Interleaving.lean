import Templating.TagCache.Store

/-!
# Store programs call by call

`StoreProgram.step` makes a single call of a program, so that the calls of several programs on one
store can be interleaved. `Store.failing` lets a call fail with any cause.

`StoreProgram.Keeps` is what a program owes to the others on its store and what it promises for
itself: it writes good bytes only and, as long as the bytes that it reads are good, is done within a
number of calls with an answer that it promised, whatever the other answers of the store are.

* `Keeps.bind` composes two such programs.
* `Keeps.step`: one call keeps the bytes in memory good and uses up one of the calls.
* `Keeps.run`: so a program that makes its calls with nothing between them keeps its promise.
-/

namespace Templating

/-! ## Single steps -/

/-- The store on which every call fails that can, with this cause if there is one. -/
def Store.failing {σ : Type} (fault : Option IoError) (store : Store σ) : Store σ :=
  match fault with
  | none => store
  | some cause =>
    { store with
      read := fun _ _ => .error cause
      write := fun _ _ state => (.error cause, state)
      remove := fun _ state => (.error cause, state) }

namespace StoreProgram

variable {α β σ : Type}

/-- Makes the next call of a program on a store, if there is one. -/
def step (store : Store σ) : StoreProgram α → σ → StoreProgram α × σ
  | .done answer, state => (.done answer, state)
  | .present key next, state => (next (store.present key state), state)
  | .read key next, state => (next (store.read key state), state)
  | .write key bytes next, state =>
    let (answer, changed) := store.write key bytes state
    (next answer, changed)
  | .remove key next, state =>
    let (answer, changed) := store.remove key state
    (next answer, changed)

/-- What is left of a program behind its first call runs to the same end as the program. -/
theorem run_step (store : Store σ) (program : StoreProgram α) (state : σ) :
    (program.step store state).1.run store (program.step store state).2 =
      program.run store state := by
  cases program <;> rfl

/-! ## What a program owes and promises -/

/-- The program is done within `calls` calls with an answer that satisfies `promise`, and writes
good bytes only, when the bytes that it reads are good. -/
inductive Keeps (good : ByteArray → Prop) (promise : α → Prop) : Nat → StoreProgram α → Prop
  | done {calls : Nat} {answer : α} (kept : promise answer) :
      Keeps good promise calls (.done answer)
  | present {calls : Nat} {key : String} {next : Bool → StoreProgram α}
      (rest : ∀ answer, Keeps good promise calls (next answer)) :
      Keeps good promise (calls + 1) (.present key next)
  | read {calls : Nat} {key : String} {next : Except IoError ByteArray → StoreProgram α}
      (rest : ∀ bytes, good bytes → Keeps good promise calls (next (.ok bytes)))
      (failed : ∀ cause, Keeps good promise calls (next (.error cause))) :
      Keeps good promise (calls + 1) (.read key next)
  | write {calls : Nat} {key : String} {bytes : ByteArray}
      {next : Except IoError Unit → StoreProgram α} (owed : good bytes)
      (rest : ∀ answer, Keeps good promise calls (next answer)) :
      Keeps good promise (calls + 1) (.write key bytes next)
  | remove {calls : Nat} {key : String} {next : Except IoError Unit → StoreProgram α}
      (rest : ∀ answer, Keeps good promise calls (next answer)) :
      Keeps good promise (calls + 1) (.remove key next)

namespace Keeps

variable {good : ByteArray → Prop} {promise : α → Prop} {promise' : β → Prop} {calls more : Nat}
  {program : StoreProgram α}

/-- A program that has no call left is done. -/
theorem exists_done (keeps : Keeps good promise 0 program) :
    ∃ answer, program = .done answer ∧ promise answer := by
  cases keeps with
  | done kept => exact ⟨_, rfl, kept⟩

theorem of_done {answer : α} (keeps : Keeps good promise calls (.done answer)) :
    promise answer := by
  cases keeps with
  | done kept => exact kept

/-- What is done within some calls is done within more. -/
theorem add (keeps : Keeps good promise calls program) (more : Nat) :
    Keeps good promise (more + calls) program := by
  induction keeps with
  | done kept => exact .done kept
  | present _ rest => exact .present rest
  | read _ _ rest failed => exact .read rest failed
  | write owed _ rest => exact .write owed rest
  | remove _ rest => exact .remove rest

/-- A program that goes on with what the first one promised. -/
theorem bind {f : α → StoreProgram β} (keeps : Keeps good promise calls program)
    (goes : ∀ answer, promise answer → Keeps good promise' more (f answer)) :
    Keeps good promise' (more + calls) (program.bind f) := by
  induction keeps with
  | @done calls _ kept => exact Nat.add_comm more calls ▸ (goes _ kept).add calls
  | present _ rest => exact .present rest
  | read _ _ rest failed => exact .read rest failed
  | write owed _ rest => exact .write owed rest
  | remove _ rest => exact .remove rest

theorem map {f : α → β} (keeps : Keeps good promise calls program)
    (goes : ∀ answer, promise answer → promise' (f answer)) :
    Keeps good promise' calls (program.bind fun answer => .done (f answer)) := by
  rw [← Nat.zero_add calls]
  exact keeps.bind fun answer kept => .done (goes answer kept)

end Keeps

end StoreProgram

/-! ## Bytes in memory -/

namespace Memory

variable {good : ByteArray → Prop} {memory : Memory}

/-- Whatever is in memory is good. -/
def Holds (good : ByteArray → Prop) (memory : Memory) : Prop :=
  ∀ key bytes, memory.blob? key = some bytes → good bytes

theorem Holds.insert (holds : memory.Holds good) (key : String) {bytes : ByteArray}
    (owed : good bytes) : (memory.insert key bytes).Holds good := by
  intro other found stored
  by_cases same : other = key
  · subst same
    rw [blob?, Memory.insert, Table.get?_insert_self] at stored
    exact Option.some.inj stored ▸ owed
  · rw [blob?, Memory.insert, Table.get?_insert_of_ne _ _ same] at stored
    exact holds other found stored

theorem Holds.erase (holds : memory.Holds good) (key : String) : (memory.erase key).Holds good := by
  intro other found stored
  by_cases same : other = key
  · subst same
    rw [blob?, Memory.erase, Table.get?_erase_self] at stored
    cases stored
  · rw [blob?, Memory.erase, Table.get?_erase_of_ne _ same] at stored
    exact holds other found stored

/-- What is read is in memory. -/
theorem Holds.read (holds : memory.Holds good) {fault : Option IoError} {key : String}
    {bytes : ByteArray} (answer : (memoryStore.failing fault).read key memory = .ok bytes) :
    good bytes := by
  cases fault with
  | some cause => cases answer
  | none =>
    simp only [Store.failing, memoryStore] at answer
    split at answer
    · cases answer
    · split at answer
      · rename_i found stored
        cases answer
        exact holds key _ stored
      · cases answer

theorem Holds.write (holds : memory.Holds good) (fault : Option IoError) (key : String)
    {bytes : ByteArray} (owed : good bytes) :
    ((memoryStore.failing fault).write key bytes memory).2.Holds good := by
  cases fault with
  | some cause => exact holds
  | none =>
    simp only [Store.failing, memoryStore]
    split
    · exact holds
    · exact holds.insert key owed

theorem Holds.remove (holds : memory.Holds good) (fault : Option IoError) (key : String) :
    ((memoryStore.failing fault).remove key memory).2.Holds good := by
  cases fault with
  | some cause => exact holds
  | none =>
    simp only [Store.failing, memoryStore]
    split
    · exact holds
    · exact holds.erase key

end Memory

/-- One call of a program keeps what is in memory good, and one call less is left to it. -/
theorem StoreProgram.Keeps.step {α : Type} {good : ByteArray → Prop} {promise : α → Prop}
    {calls : Nat} {program : StoreProgram α} {memory : Memory}
    (keeps : Keeps good promise calls program) (holds : memory.Holds good)
    (fault : Option IoError) :
    Keeps good promise (calls - 1) (program.step (memoryStore.failing fault) memory).1 ∧
      (program.step (memoryStore.failing fault) memory).2.Holds good := by
  cases keeps with
  | done kept => exact ⟨.done kept, holds⟩
  | present rest => exact ⟨rest _, holds⟩
  | @read calls key next rest failed =>
    refine ⟨?_, holds⟩
    cases answer : (memoryStore.failing fault).read key memory with
    | error cause =>
      rw [StoreProgram.step, answer]
      exact failed cause
    | ok bytes =>
      rw [StoreProgram.step, answer]
      exact rest bytes (holds.read answer)
  | write owed rest => exact ⟨rest _, holds.write fault _ owed⟩
  | remove rest => exact ⟨rest _, holds.remove fault _⟩

/-- **A program that runs as a whole** answers as it promised and keeps what is in memory good. -/
theorem StoreProgram.Keeps.run {α : Type} {good : ByteArray → Prop} {promise : α → Prop}
    {calls : Nat} {program : StoreProgram α} {memory : Memory}
    (keeps : Keeps good promise calls program) (holds : memory.Holds good) :
    promise (program.run memoryStore memory).1 ∧
      (program.run memoryStore memory).2.Holds good := by
  induction calls generalizing program memory with
  | zero =>
    obtain ⟨answer, rfl, kept⟩ := keeps.exists_done
    exact ⟨kept, holds⟩
  | succ calls ih =>
    obtain ⟨left, changed⟩ := keeps.step holds none
    rw [← run_step]
    exact ih left changed

end Templating
