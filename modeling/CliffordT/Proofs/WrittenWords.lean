import CliffordT.Proofs.JsonText
import CliffordT.Proofs.LoadedRecords

/-!
# Reading back the words of a table

The words of all slots are written as a list of strings.  As JSON the list is read as it was written, and as YAML if that
format returns the list that it was given (`Artifact.strings?_wordsText`).  No string of a word over the alphabet is the
one that stands for an empty slot (`Word.OverGates.text_ne`).
-/

namespace CliffordT

/-! ### Lists of strings -/

/-- The value as a string. -/
def Json.string? : Json → Option String
  | .string s => some s
  | _ => none

/-- The value as a list of strings. -/
def Json.strings? : Json → Option (List String)
  | .array items => items.mapM Json.string?
  | _ => none

/-- A node as a string.  Nothing but a scalar that is not null is one. -/
def Yaml.stringOf (node : Yaml.Node) : Yaml.Visit String := do
  match (← node.plainScalar?).bind Yaml.Scalar.text? with
  | some t => return t.text
  | none => do
    Yaml.noteMisfit
    return ""

/-- A document as a list of strings. -/
def Yaml.stringsOf (doc : Yaml.Document) : Yaml.Visit (List String) :=
  match doc.root with
  | .sequence _ items => items.mapM Yaml.stringOf
  | _ => do
    Yaml.noteMisfit
    return []

/-- The list of strings that a text is. -/
def Format.strings? (text : String) : Format → Option (List String)
  | .json => (Json.read text).toOption.bind Json.strings?
  | .yaml => (Yaml.readValue Yaml.stringsOf [] text).toOption

/-- A list of strings as YAML is read as it was given. -/
def Yaml.Returns (ss : List String) : Prop :=
  Format.yaml.strings? (Yaml.sequence (ss.map (.scalar true))).render = some ss

private theorem Json.strings?_strings (ss : List String) : (Json.array (ss.map .string)).strings? = some ss := by
  show (ss.map Json.string).mapM Json.string? = some ss
  induction ss with
  | nil => rfl
  | cons s ss ih =>
    rw [List.map_cons, List.mapM_cons, ih]
    rfl

namespace Artifact

/-- The words of all slots are read from their text. -/
theorem strings?_wordsText (full : List Word) {format : Format}
    (h : format = .yaml → Yaml.Returns (full.map Word.text)) :
    format.strings? (wordsText full format) = some (full.map Word.text) := by
  cases format with
  | json =>
    have hmap : (full.map fun w => Json.string w.text) = (full.map Word.text).map .string := by
      rw [List.map_map]
      rfl
    show (Json.read (Json.array (full.map fun w => Json.string w.text)).render).toOption.bind Json.strings? = _
    rw [hmap, Json.read_render_strings]
    exact Json.strings?_strings _
  | yaml =>
    have hreturns := h rfl
    rw [Yaml.Returns, List.map_map] at hreturns
    exact hreturns

end Artifact

/-! ### The string of a word -/

namespace Word

variable {w : Word}

theorem overGates_of_replay {m : Matrix} (h : replay w = .ok m) : OverGates w := by
  rcases overGates_or_exists_foreign w with hw | ⟨u, b, v, rfl, hu, hb⟩
  · exact hw
  · rw [replay_foreign hu hb] at h
    cases h

/-- The character of a gate is read from its byte alone. -/
private theorem leadingChar?_byte (g : Gate) (w : Word) :
    ∃ c, c ≠ 'N' ∧ Text.leadingChar? (g.byte :: w) = some (c, 1) := by
  have hone : ∃ c, c ≠ 'N' ∧ (String.fromUTF8? ⟨#[g.byte]⟩).map String.toList = some [c] := by
    cases g
    · exact ⟨'H', by decide +kernel⟩
    · exact ⟨'T', by decide +kernel⟩
    · exact ⟨'t', by decide +kernel⟩
    · exact ⟨'S', by decide +kernel⟩
    · exact ⟨'s', by decide +kernel⟩
    · exact ⟨'Z', by decide +kernel⟩
    · exact ⟨'X', by decide +kernel⟩
  obtain ⟨c, hc, hone⟩ := hone
  refine ⟨c, hc, ?_⟩
  simp [Text.leadingChar?, List.findSome?, hone]

/-- The string of a word over the alphabet is not the one of an empty slot. -/
theorem OverGates.text_ne (h : OverGates w) : w.text ≠ "NOT_FOUND" := by
  intro htext
  unfold Word.text Text.ofBytes at htext
  split at htext
  · rename_i s hs
    have hbytes : s.toUTF8 = ⟨w.toArray⟩ := by
      unfold String.fromUTF8? at hs
      split at hs <;> cases hs
      rfl
    rw [htext] at hbytes
    have hw : "NOT_FOUND".toUTF8.data.toList = w := congrArg (·.data.toList) hbytes
    rw [← hw] at h
    exact absurd h (by decide +kernel)
  · rename_i hs
    cases w with
    | nil => exact absurd hs (by decide +kernel)
    | cons b w =>
      obtain ⟨g, hg⟩ := Option.isSome_iff_exists.1 (h b List.mem_cons_self)
      obtain ⟨c, hc, hleading⟩ := leadingChar?_byte g w
      rw [Gate.byte_of_ofByte? hg] at hleading
      rw [Text.parts, Text.partsAfter, hleading] at htext
      have hchars := congrArg String.toList htext
      rw [String.toList_ofList] at hchars
      exact hc (List.cons.inj (hchars.trans (by decide +kernel : "NOT_FOUND".toList = 'N' :: "OT_FOUND".toList))).1

end Word

end CliffordT
