/-!
# Texts in disguise

A disguise writes some characters of a text as themselves and some pieces of it as marks. A text can
be written in many ways when a piece is also made of characters that are written as themselves.
-/

namespace Templating.Source

/-- Which characters are written as themselves, and which marks are written for which pieces. -/
structure Disguise where
  plain : Char → Prop
  mark : List Char → List Char → Prop

/-- The first text is the second one in disguise. -/
inductive Disguise.Writes (disguise : Disguise) : List Char → List Char → Prop
  | nil : disguise.Writes [] []
  | keep {c : Char} {written text : List Char} (plain : disguise.plain c)
      (behind : disguise.Writes written text) : disguise.Writes (c :: written) (c :: text)
  | mark {sign piece written text : List Char} (mark : disguise.mark sign piece)
      (behind : disguise.Writes written text) :
      disguise.Writes (sign ++ written) (piece ++ text)

/-- The disguise read the other way. -/
def Disguise.swap (disguise : Disguise) : Disguise :=
  ⟨disguise.plain, fun sign piece => disguise.mark piece sign⟩

namespace Disguise.Writes

variable {disguise : Disguise} {written text front : List Char}

theorem swap (writes : disguise.Writes written text) : disguise.swap.Writes text written := by
  induction writes with
  | nil => exact .nil
  | keep plain _ ih => exact .keep plain ih
  | mark mark _ ih => exact .mark mark ih

theorem append {written' text' : List Char} (first : disguise.Writes written text)
    (second : disguise.Writes written' text') :
    disguise.Writes (written ++ written') (text ++ text') := by
  induction first with
  | nil => exact second
  | keep plain _ ih => exact .keep plain ih
  | mark mark _ ih =>
    rw [List.append_assoc, List.append_assoc]
    exact .mark mark ih

theorem of_plain (plain : ∀ c ∈ front, disguise.plain c) : disguise.Writes front front := by
  induction front with
  | nil => exact .nil
  | cons c front ih =>
    exact .keep (plain c List.mem_cons_self)
      (ih fun d member => plain d (List.mem_cons_of_mem c member))

end Disguise.Writes

end Templating.Source
