import Templating.IoError
import Templating.Table

/-!
# Stores

A store keeps bytes under keys. What a cache does with a store is a `StoreProgram`: a sequence of
single calls, each of which depends on the answers to those before it. `run` lets a program make
its calls one after the other on a `Store`, which says how its state `σ` answers them; as the
calls are separate, programs can also be interleaved.

`memoryStore` keeps its bytes in memory and can be told to refuse calls.
-/

namespace Templating

/-- Calls on a store that end in an answer. -/
inductive StoreProgram (α : Type) where
  | done (answer : α)
  | present (key : String) (next : Bool → StoreProgram α)
  | read (key : String) (next : Except IoError ByteArray → StoreProgram α)
  | write (key : String) (bytes : ByteArray) (next : Except IoError Unit → StoreProgram α)
  | remove (key : String) (next : Except IoError Unit → StoreProgram α)

/-- How a state answers the calls on a store, and where a key is kept. -/
structure Store (σ : Type) where
  path : String → String
  present : String → σ → Bool
  read : String → σ → Except IoError ByteArray
  write : String → ByteArray → σ → Except IoError Unit × σ
  remove : String → σ → Except IoError Unit × σ

namespace StoreProgram

variable {α β σ : Type}

/-- Goes on with a program that depends on the answer. -/
def bind : StoreProgram α → (α → StoreProgram β) → StoreProgram β
  | .done answer, f => f answer
  | .present key next, f => .present key fun answer => (next answer).bind f
  | .read key next, f => .read key fun answer => (next answer).bind f
  | .write key bytes next, f => .write key bytes fun answer => (next answer).bind f
  | .remove key next, f => .remove key fun answer => (next answer).bind f

instance : Monad StoreProgram where
  pure := .done
  bind := bind

/-- Makes the calls of a program on a store. -/
def run (store : Store σ) : StoreProgram α → σ → α × σ
  | .done answer, state => (answer, state)
  | .present key next, state => (next (store.present key state)).run store state
  | .read key next, state => (next (store.read key state)).run store state
  | .write key bytes next, state =>
    let (answer, changed) := store.write key bytes state
    (next answer).run store changed
  | .remove key next, state =>
    let (answer, changed) := store.remove key state
    (next answer).run store changed

/-- A program made of two is run one after the other. -/
theorem run_bind (store : Store σ) (program : StoreProgram α) (f : α → StoreProgram β)
    (state : σ) :
    (program.bind f).run store state =
      (f (program.run store state).1).run store (program.run store state).2 := by
  induction program generalizing state with
  | done answer => rfl
  | present key next ih => exact ih _ _
  | read key next ih => exact ih _ _
  | write key bytes next ih => exact ih _ _
  | remove key next ih => exact ih _ _

/-! ## Single calls -/

def askPresent (key : String) : StoreProgram Bool := .present key .done

def askRead (key : String) : StoreProgram (Except IoError ByteArray) := .read key .done

def askWrite (key : String) (bytes : ByteArray) : StoreProgram (Except IoError Unit) :=
  .write key bytes .done

def askRemove (key : String) : StoreProgram (Except IoError Unit) := .remove key .done

end StoreProgram

/-! ## Bytes in memory -/

/-- Which calls a store in memory refuses. -/
structure Refusals where
  reads : Bool := false
  writes : Bool := false
  removes : Bool := false
  deriving DecidableEq, Repr

/-- Bytes under keys, with the calls that are refused and a count of the writes that were not. -/
structure Memory where
  blobs : Table String ByteArray := {}
  refusals : Refusals := {}
  writeCount : Nat := 0

namespace Memory

/-- The bytes under a key. -/
def blob? (memory : Memory) (key : String) : Option ByteArray :=
  memory.blobs.get? key

/-- Forgets a key. -/
def erase (memory : Memory) (key : String) : Memory :=
  { memory with blobs := memory.blobs.erase key }

/-- Keeps bytes under a key in place of those that were there. -/
def insert (memory : Memory) (key : String) (bytes : ByteArray) : Memory :=
  { memory with blobs := memory.blobs.insert key bytes }

/-- The keys in ascending order. -/
def keys (memory : Memory) : List String :=
  memory.blobs.keys.mergeSort fun first second => !(second < first)

end Memory

/-- The error of a call that a store in memory refuses. -/
def denied : IoError := .other "denied"

/-- The store that keeps its bytes in memory. -/
def memoryStore : Store Memory where
  path key := "memory/" ++ key
  present key memory := (memory.blob? key).isSome
  read key memory :=
    if memory.refusals.reads then .error denied
    else match memory.blob? key with
      | some bytes => .ok bytes
      | none => .error .notFound
  write key bytes memory :=
    if memory.refusals.writes then (.error denied, memory)
    else (.ok (), { memory.insert key bytes with writeCount := memory.writeCount + 1 })
  remove key memory :=
    if memory.refusals.removes then (.error denied, memory)
    else (.ok (), memory.erase key)

end Templating
