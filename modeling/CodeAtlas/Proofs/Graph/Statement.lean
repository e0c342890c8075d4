import Mathlib.Data.List.Nodup
import CodeAtlas.Graph.Memory

/-!
# Statements are recognized by their text

Each statement of the program is found again from its text: the texts have no blanks at their ends, and
no two of them are equal.

## Main results

* `CodeAtlas.Text.trim_eq_self` — a text without blanks at its ends is not changed by trimming.
* `CodeAtlas.Graph.Statement.text_injective` — the texts are different.
* `CodeAtlas.Graph.Statement.ofText?_text` — a text gives back its statement.
-/

namespace CodeAtlas

namespace Text

/-- The text begins with a character that is no blank. -/
def BeginsTight (s : String) : Prop := ∃ c r, s.toList = c :: r ∧ isBlank c = false

/-- The text ends with a character that is no blank. -/
def EndsTight (s : String) : Prop := ∃ r c, s.toList = r ++ [c] ∧ isBlank c = false

/-- Trimming does not change a text without blanks at its ends. -/
theorem trim_eq_self {s : String} (hb : BeginsTight s) (he : EndsTight s) : trim s = s := by
  obtain ⟨c, r, hcr, hc⟩ := hb
  obtain ⟨q, d, hqd, hd⟩ := he
  have hbegin : s.toList.dropWhile isBlank = s.toList := by
    rw [hcr, List.dropWhile_cons_of_neg (by simp [hc])]
  rw [trim, trimChars, trimEndChars, hbegin, hqd, List.reverse_append, List.reverse_singleton,
    List.singleton_append, List.dropWhile_cons_of_neg (by simp [hd]), List.reverse_cons,
    List.reverse_reverse, ← hqd, String.ofList_toList]

/-- A text begins as its first part does. -/
lemma BeginsTight.append {s : String} (h : BeginsTight s) (t : String) : BeginsTight (s ++ t) := by
  obtain ⟨c, r, hcr, hc⟩ := h
  exact ⟨c, r ++ t.toList, by rw [String.toList_append, hcr, List.cons_append], hc⟩

/-- A text ends as its last part does. -/
lemma EndsTight.append {t : String} (h : EndsTight t) (s : String) : EndsTight (s ++ t) := by
  obtain ⟨r, c, hrc, hc⟩ := h
  exact ⟨s.toList ++ r, c, by rw [String.toList_append, hrc, List.append_assoc], hc⟩

/-- A text that is spelled out begins with its first character. -/
lemma beginsTight_ofList {c : Char} {r : List Char} (hc : isBlank c = false) :
    BeginsTight (String.ofList (c :: r)) :=
  ⟨c, r, String.toList_ofList, hc⟩

/-- A text that is spelled out ends with its last character. -/
lemma endsTight_ofList {cs : List Char} (h : cs.reverse.head?.map isBlank = some false) :
    EndsTight (String.ofList cs) := by
  obtain ⟨c, hc, hblank⟩ := Option.map_eq_some_iff.mp h
  obtain ⟨r, hr⟩ := List.head?_eq_some_iff.mp hc
  refine ⟨r.reverse, c, ?_, hblank⟩
  rw [String.toList_ofList, ← List.reverse_cons, ← hr, List.reverse_reverse]

end Text

namespace Graph.Statement

open CodeAtlas.Text

/-- No text begins with a blank. -/
lemma beginsTight_text (s : Statement) : BeginsTight s.text := by
  cases s with
  | upsertEntity | countViolations =>
    exact ((beginsTight_ofList (by decide)).append _).append _
  | entityUids => exact (beginsTight_ofList (by decide)).append _
  | _ => exact beginsTight_ofList (by decide)

/-- No text ends with a blank. -/
lemma endsTight_text (s : Statement) : EndsTight s.text := by
  cases s with
  | upsertEntity | countViolations | entityUids =>
    exact (endsTight_ofList (by decide +kernel)).append _
  | _ => exact endsTight_ofList (by decide +kernel)

/-- The texts of the statements have different lengths, hence are different. -/
theorem text_injective {s t : Statement} (h : s.text = t.text) : s = t := by
  have hnodup : (all.map fun x => x.text.utf8ByteSize).Nodup := by decide +kernel
  have hmem : ∀ x : Statement, x ∈ all := by
    intro x
    cases x <;> decide
  exact List.inj_on_of_nodup_map hnodup (hmem s) (hmem t) (congrArg String.utf8ByteSize h)

/-- **A text gives back its statement.** -/
theorem ofText?_text (s : Statement) : ofText? s.text = some s := by
  have hmem : s ∈ all := by cases s <;> decide
  rw [ofText?, trim_eq_self s.beginsTight_text s.endsTight_text]
  cases hfind : all.find? fun x => x.text = s.text with
  | none => exact absurd (decide_eq_true rfl) (List.find?_eq_none.mp hfind s hmem)
  | some t =>
    have htext := List.find?_some hfind
    rw [text_injective (of_decide_eq_true htext)]

/-- What is recognized is a statement with that text, apart from surrounding blanks. -/
theorem recognize_text (s : Statement) : Memory.recognize s.text = .ok s := by
  rw [Memory.recognize, ofText?_text]

end Graph.Statement

end CodeAtlas
