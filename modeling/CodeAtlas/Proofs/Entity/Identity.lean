import Mathlib.Data.List.Basic
import CodeAtlas.Entity.Basic

/-!
# The identity of an entity tells its file

An identity ends with two numerals and a label, each behind a colon.  None of these three contains a
colon, so they can be taken off from the end, and what remains is the path, whatever characters the path
has.

## Main results

* `CodeAtlas.Entity.append_colon_inj` — a text without colons can be told from what stands before it.
* `CodeAtlas.Entity.uid_inj` — equal identities come from equal paths, lines and kinds.
* `CodeAtlas.Entity.uid_eq_uid_iff` — identities say path, lines and kind, and nothing else.
-/

namespace CodeAtlas.Entity

/-- Lists agree before and after the last occurrence of an item. -/
private lemma append_cons_inj {c : Char} {xs ys a b : List Char} (ha : c ∉ a) (hb : c ∉ b)
    (h : xs ++ c :: a = ys ++ c :: b) : xs = ys ∧ a = b := by
  rcases List.append_eq_append_iff.mp h with ⟨m, hys, hm⟩ | ⟨m, hxs, hm⟩
  · cases m with
    | nil => exact ⟨by simpa using hys.symm, by simpa using hm⟩
    | cons d m =>
      -- the colon of the right side would stand inside `a`
      refine absurd ?_ ha
      rw [List.cons_append, List.cons.injEq] at hm
      simp [hm.2]
  · cases m with
    | nil => exact ⟨by simpa using hxs, by simpa using hm.symm⟩
    | cons d m =>
      refine absurd ?_ hb
      rw [List.cons_append, List.cons.injEq] at hm
      simp [hm.2]

/-- A text without colons can be told from what stands before the colon in front of it. -/
theorem append_colon_inj {p q a b : String} (ha : ':' ∉ a.toList) (hb : ':' ∉ b.toList)
    (h : p ++ ":" ++ a = q ++ ":" ++ b) : p = q ∧ a = b := by
  have hlist : p.toList ++ ':' :: a.toList = q.toList ++ ':' :: b.toList := by
    have := congrArg String.toList h
    simpa using this
  obtain ⟨hp, hab⟩ := append_cons_inj ha hb hlist
  exact ⟨String.toList_inj.mp hp, String.toList_inj.mp hab⟩

/-- A numeral has no colon. -/
lemma colon_notMem_numeral (n : Nat) : ':' ∉ (toString n).toList := by
  intro h
  rw [Nat.toString_eq_repr, Nat.repr_eq_ofList_toDigits, String.toList_ofList] at h
  have hdigit := Nat.isDigit_of_mem_toDigits (by decide) (by decide) h
  exact absurd hdigit (by decide)

/-- Different numbers have different numerals. -/
lemma numeral_inj {m n : Nat} (h : toString m = toString n) : m = n := by
  rw [Nat.toString_eq_repr, Nat.toString_eq_repr, Nat.repr_eq_ofList_toDigits,
    Nat.repr_eq_ofList_toDigits] at h
  rw [← Nat.ofDigitChars_ten_toDigits (n := m), String.ofList_injective h,
    Nat.ofDigitChars_ten_toDigits]

/-- The label of a kind has no colon. -/
lemma Kind.colon_notMem_label (k : Kind) : ':' ∉ k.label.toList := by
  cases k <;> decide

/-- Different kinds have different labels. -/
lemma Kind.label_inj {k l : Kind} (h : k.label = l.label) : k = l := by
  revert h
  cases k <;> cases l <;> decide

/-- **Equal identities come from equal paths, lines and kinds.**

**Proof sketch.** Take the label off, then the last line, then the first line; each is free of colons
(`append_colon_inj`). -/
theorem uid_inj {e d : Entity} {p q : String} (h : e.uid p = d.uid q) :
    p = q ∧ e.startLine = d.startLine ∧ e.endLine = d.endLine ∧ e.kind = d.kind := by
  obtain ⟨h, hkind⟩ := append_colon_inj e.kind.colon_notMem_label d.kind.colon_notMem_label h
  obtain ⟨h, hend⟩ :=
    append_colon_inj (colon_notMem_numeral e.endLine) (colon_notMem_numeral d.endLine) h
  obtain ⟨hpath, hstart⟩ :=
    append_colon_inj (colon_notMem_numeral e.startLine) (colon_notMem_numeral d.startLine) h
  exact ⟨hpath, numeral_inj hstart, numeral_inj hend, Kind.label_inj hkind⟩

/-- **Identities are equal exactly when the paths, the lines and the kinds are**, whatever characters the
paths are made of.  The name, the language and the texts of an entity do not count. -/
theorem uid_eq_uid_iff (e d : Entity) (p q : String) :
    e.uid p = d.uid q ↔
      p = q ∧ e.startLine = d.startLine ∧ e.endLine = d.endLine ∧ e.kind = d.kind := by
  constructor
  · exact uid_inj
  · rintro ⟨rfl, hstart, hend, hkind⟩
    unfold uid
    rw [hstart, hend, hkind]

end CodeAtlas.Entity
