import Mathlib.Data.List.Forall2
import Templating.Proofs.Calendar
import Templating.Proofs.Json.Reading
import Templating.Proofs.TagCache.Coherence

/-!
# Saved artifacts are loaded back

Whatever texts and tags an artifact holds, the object that it is stored as is read back as the
artifact, as long as it was made in the years 0 to 9999. A cache that saves it on a store which
gives back what it took therefore loads it unchanged.

* `readJson_encode`: the stored bytes are read as an object of five members.
* `readable_of_year`: the members make up the artifact.
* `load_save`: saving and loading.
-/

namespace Templating

open Templating.Text

namespace Artifact

/-! ## The fields -/

theorem written_moment {moment : Moment}
    (four : 0 ≤ moment.date.year ∧ moment.date.year ≤ 9999) :
    Json.Written ('"' :: moment.render ++ ['"'])
      (.string (some (String.ofList moment.render))) := by
  have plain : ∀ c ∈ moment.render, Json.quoteChar c = [c] := by
    intro c member
    rcases Moment.mem_render four member with digit | mark
    · rw [Char.isDigit_iff_toNat] at digit
      have low : 48 ≤ c.toNat := digit.1
      have high : c.toNat ≤ 57 := digit.2
      refine Json.quoteChar_of_plain ?_ ?_ (by omega)
      · rintro rfl
        exact absurd low (by decide)
      · rintro rfl
        exact absurd high (by decide)
    · simp only [List.mem_cons, List.not_mem_nil, or_false] at mark
      rcases mark with rfl | rfl | rfl | rfl | rfl <;> rfl
  rw [← Json.quote_of_plain plain]
  exact Json.written_quote _

theorem written_tags (tags : List String) :
    Json.Written (renderTags tags) (.array (tags.map fun tag => .string (some tag))) := by
  unfold renderTags
  cases tags with
  | nil => exact Json.written_empty
  | cons tag tags =>
    have each : List.Forall₂ Json.Written ((tag :: tags).map Json.quote)
        ((tag :: tags).map fun tag => .string (some tag)) := by
      rw [List.forall₂_map_left_iff, List.forall₂_map_right_iff, List.forall₂_same]
      exact fun tag _ => Json.written_quote tag
    exact Json.written_lines each (List.cons_ne_nil _ _)

/-- The members of the object that an artifact is stored as. -/
def members (artifact : Artifact) : List (Option String × Json.Value) :=
  [(some "generator", .string (some artifact.generator)),
    (some "generated_at", .string (some (String.ofList artifact.generatedAt.render))),
    (some "extension_count", .number (some artifact.extensionCount.toNat)),
    (some "fingerprint", .string (some artifact.fingerprint)),
    (some "tags", .array (artifact.tags.map fun tag => .string (some tag)))]

theorem texts?_map (texts : List String) :
    (Json.Value.array (texts.map fun text => .string (some text))).texts? = some texts := by
  change (texts.map fun text => Json.Value.string (some text)).mapM Json.Value.text? = some texts
  induction texts with
  | nil => rfl
  | cons text texts ih => rw [List.map_cons, List.mapM_cons, ih]; rfl

/-- Each field is found once among the members. -/
theorem fieldValues?_members (artifact : Artifact) :
    fieldValues? (.object artifact.members) = some (artifact.members.map (·.2)) := by
  have names : artifact.members.all (·.1.isSome) = true := rfl
  simp only [fieldValues?, names, if_true]
  rfl

/-- The members of an artifact make it up. -/
theorem ofFields?_members {artifact : Artifact}
    (four : 0 ≤ artifact.generatedAt.date.year ∧ artifact.generatedAt.date.year ≤ 9999) :
    ofFields? (artifact.members.map (·.2)) = some artifact := by
  have count : (Json.Value.number (some artifact.extensionCount.toNat)).countBelow? UInt64.size =
      some artifact.extensionCount.toNat :=
    if_pos artifact.extensionCount.toNat_lt_size
  unfold members
  simp only [List.map_cons, List.map_nil, ofFields?, count, texts?_map, Json.Value.text?,
    Option.bind_eq_bind, Option.bind_some, String.toList_ofList, readMoment_render _ four,
    UInt64.ofNat_toNat]
  rfl

/-! ## The object -/

/-- The fields of an artifact as they are written. -/
def fields (artifact : Artifact) : List (String × List Char) :=
  [("generator", Json.quote artifact.generator),
    ("generated_at", '"' :: artifact.generatedAt.render ++ ['"']),
    ("extension_count", Nat.toDigits 10 artifact.extensionCount.toNat),
    ("fingerprint", Json.quote artifact.fingerprint), ("tags", renderTags artifact.tags)]

theorem written_fields {artifact : Artifact}
    (four : 0 ≤ artifact.generatedAt.date.year ∧ artifact.generatedAt.date.year ≤ 9999) :
    List.Forall₂ Json.WrittenField artifact.fields artifact.members :=
  .cons ⟨rfl, Json.written_quote _⟩ <| .cons ⟨rfl, written_moment four⟩ <|
    .cons ⟨rfl, Json.written_toDigits _⟩ <| .cons ⟨rfl, Json.written_quote _⟩ <|
      .cons ⟨rfl, written_tags _⟩ .nil

theorem toList_render (artifact : Artifact) : artifact.render.toList =
    '\x7b' :: (Json.fieldLines artifact.fields ++ "\n\x7d".toList) := by
  rw [render, String.toList_ofList]
  simp [fields, Json.fieldLines, Json.fieldLine, renderField, List.intercalate_cons_cons,
    List.intercalate_singleton]

/-- **The bytes of an artifact are read as its members.** -/
theorem readJson_encode {artifact : Artifact}
    (four : 0 ≤ artifact.generatedAt.date.year ∧ artifact.generatedAt.date.year ≤ 9999) :
    Json.readJson artifact.encode = some (.object artifact.members) := by
  have text : Json.symbols artifact.encode = some '\x7b' ::
      ((Json.fieldLines artifact.fields).map some ++ ("\n\x7d".toList.map some ++ [])) := by
    rw [encode, Json.symbols_toUTF8, toList_render]
    simp
  have enough : (Json.fieldLines artifact.fields).length <
      2 * (Json.symbols artifact.encode).length + 1 := by
    rw [text, List.length_cons, List.length_append, List.length_map]
    omega
  have read := Json.readValue_fieldLines (written_fields four) (List.cons_ne_nil _ _) _ [] enough
  rw [← text] at read
  unfold Json.readJson
  simp only [read]
  rfl

/-- **An artifact is read back from the bytes that it is stored as.** -/
theorem readable_of_year {artifact : Artifact}
    (four : 0 ≤ artifact.generatedAt.date.year ∧ artifact.generatedAt.date.year ≤ 9999) :
    artifact.Readable := by
  rw [Readable, decode?, readJson_encode four, Option.bind_eq_bind, Option.bind_some,
    fieldValues?_members, Option.bind_eq_bind, Option.bind_some, ofFields?_members four]

end Artifact

/-! ## Saving and loading -/

/-- The store takes bytes under a key and gives back these bytes, without a call that fails. -/
structure Store.GivesBack {σ : Type} (store : Store σ) (key : String) (bytes : ByteArray)
    (state : σ) : Prop where
  taken : (store.write key bytes state).1 = .ok ()
  found : store.present key (store.write key bytes state).2 = true
  given : store.read key (store.write key bytes state).2 = .ok bytes

namespace TagCache

variable {σ : Type}

theorem run_save (store : Store σ) (state : σ) (cache : TagCache) (artifact : Artifact) :
    (cache.save artifact).run store state =
      ((store.write cache.key artifact.encode state).1.mapError (.unwritable cache.key),
        (store.write cache.key artifact.encode state).2) :=
  rfl

theorem run_load_of_decode {store : Store σ} {state : σ} {cache : TagCache} {bytes : ByteArray}
    {artifact : Artifact} (found : store.present cache.key state = true)
    (given : store.read cache.key state = .ok bytes)
    (decoded : Artifact.decode? bytes = some artifact) :
    cache.load.run store state = (.ok (some artifact), state) := by
  unfold load
  simp only [Bind.bind, StoreProgram.askPresent, StoreProgram.askRead, StoreProgram.bind,
    StoreProgram.run, found, given, decoded, if_true]
  rfl

/-- **A saved artifact is loaded back.** Whatever texts, tags and count the artifact holds,
and whenever it was made in the years 0 to 9999: if the store gives back the bytes that were
last written under the key of the cache, then saving the artifact succeeds, and loading
gives the artifact. -/
theorem load_save (store : Store σ) (state : σ) (cache : TagCache) (artifact : Artifact)
    (four : 0 ≤ artifact.generatedAt.date.year ∧ artifact.generatedAt.date.year ≤ 9999)
    (givesBack : store.GivesBack cache.key artifact.encode state) :
    let saved := (cache.save artifact).run store state
    saved.1 = .ok () ∧ (cache.load.run store saved.2).1 = .ok (some artifact) := by
  have decoded : Artifact.decode? artifact.encode = some artifact := Artifact.readable_of_year four
  rw [run_save]
  refine ⟨?_, ?_⟩
  · simp only [givesBack.taken]
    rfl
  · simp only [run_load_of_decode givesBack.found givesBack.given decoded]

end TagCache

/-! ## A store in memory -/

/-- A store in memory gives back what it takes when it refuses neither writes nor reads. -/
theorem memoryStore_givesBack (key : String) (bytes : ByteArray) {memory : Memory}
    (writes : memory.refusals.writes = false) (reads : memory.refusals.reads = false) :
    memoryStore.GivesBack key bytes memory := by
  have kept : (memory.insert key bytes).blob? key = some bytes := Table.get?_insert_self _ _ _
  have written : memoryStore.write key bytes memory =
      (.ok (), { memory.insert key bytes with writeCount := memory.writeCount + 1 }) := by
    simp only [memoryStore, writes, Bool.false_eq_true, if_false]
  refine ⟨?_, ?_, ?_⟩
  · rw [written]
  · rw [written]
    exact Option.isSome_iff_exists.mpr ⟨bytes, kept⟩
  · rw [written]
    simp only [memoryStore, Memory.blob?, Memory.insert, Table.get?_insert_self, reads,
      Bool.false_eq_true, if_false]

/-- Quotes, escapes, control characters, a character outside the first plane and empty texts. -/
def oddArtifact : Artifact where
  generator := "\"a\\b/\x08\x0c\x7f\""
  generatedAt := { sampleMoment with nanos := 123456789, nanos_range := by decide }
  extensionCount := 18446744073709551615
  fingerprint := ""
  tags := ["", "\x00\x1f\t\r\n", "😀é\u2028", "n:if"]

theorem load_save_oddArtifact :
    let saved := (sampleCache.save oddArtifact).run memoryStore {}
    saved.1 = .ok () ∧ (sampleCache.load.run memoryStore saved.2).1 = .ok (some oddArtifact) :=
  TagCache.load_save memoryStore {} sampleCache oddArtifact (by decide)
    (memoryStore_givesBack _ _ rfl rfl)

end Templating
