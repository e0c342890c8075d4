import Mathlib.Data.String.Basic
import CodeAtlas.Text.Utf8

/-!
# The order of texts is the order of their bytes

Texts are compared by their characters.  In UTF-8 a greater character has a greater first byte that
differs, so that comparing the bytes of two texts comes to the same.

## Main results

* `CodeAtlas.Text.Utf8.encode_eq_flatMap` — the bytes of a text are those of its characters.
* `CodeAtlas.Text.Utf8.encodeChar_append_lt` — a smaller character begins a smaller sequence of bytes.
* `CodeAtlas.Text.Utf8.encode_lt_encode_iff` — texts are ordered as their bytes are.
-/

namespace CodeAtlas.Text.Utf8

/-- The loop that lists an array of bytes appends what is left of the array. -/
private lemma toList_loop (b : ByteArray) (i : Nat) (r : List UInt8) :
    ByteArray.toList.loop b i r = r.reverse ++ b.data.toList.drop i := by
  fun_induction ByteArray.toList.loop b i r with
  | case1 i r hi ih =>
    have hi' : i < b.data.toList.length := hi
    rw [ih, List.drop_eq_getElem_cons hi', List.reverse_cons, List.append_assoc]
    simp [ByteArray.get!, getElem!_pos b.data i hi]
  | case2 i r hi =>
    have hi' : b.data.toList.length ≤ i := not_lt.mp hi
    rw [List.drop_eq_nil_of_le hi', List.append_nil]

/-- The bytes of a text are those of its characters, in order. -/
theorem encode_eq_flatMap (s : String) : encode s = s.toList.flatMap String.utf8EncodeChar := by
  have h : s.toUTF8 = (s.toList.flatMap String.utf8EncodeChar).toByteArray := by
    rw [String.toUTF8_eq_toByteArray, ← String.utf8Encode_toList, List.utf8Encode]
  rw [encode, ByteArray.toList, toList_loop, h, List.toList_data_toByteArray]
  rfl

/-- The bytes of two texts in sequence. -/
lemma encode_append (s t : String) : encode (s ++ t) = encode s ++ encode t := by
  rw [encode_eq_flatMap, encode_eq_flatMap, encode_eq_flatMap, String.toList_append,
    List.flatMap_append]

/-- Bytes are compared as the numbers they are made of. -/
private lemma ofNat_lt_ofNat {a b : Nat} (hb : b < 256) (h : a < b) :
    UInt8.ofNat a < UInt8.ofNat b := by
  rw [UInt8.lt_iff_toNat_lt, UInt8.toNat_ofNat', UInt8.toNat_ofNat']
  omega

/-- **A smaller character begins a smaller sequence of bytes**, whatever follows.

**Proof sketch.** If the encodings differ in length, their lead bytes decide.  If they have the same
length, the bytes are the digits of the characters in base 64, behind a constant, and so the first digit
that differs decides. -/
theorem encodeChar_append_lt {c d : Char} (h : c < d) (x y : List UInt8) :
    String.utf8EncodeChar c ++ x < String.utf8EncodeChar d ++ y := by
  have hlt : c.val.toNat < d.val.toNat := h
  have hd : d.val.toNat < 0x110000 := by
    rcases d.valid with hv | hv
    · exact lt_trans hv (by decide)
    · exact hv.2
  unfold String.utf8EncodeChar
  dsimp only
  generalize c.val.toNat = v at *
  generalize d.val.toNat = w at *
  have lead : ∀ {a b : Nat} {p q : List UInt8}, b < 256 → a < b →
      UInt8.ofNat a :: p < UInt8.ofNat b :: q := fun hb hab =>
    List.cons_lt_cons_iff.mpr (Or.inl (ofNat_lt_ofNat hb hab))
  have next : ∀ {a b : Nat} {p q : List UInt8}, a = b → p < q →
      UInt8.ofNat a :: p < UInt8.ofNat b :: q := fun hab hpq =>
    List.cons_lt_cons_iff.mpr (Or.inr ⟨by rw [hab], hpq⟩)
  split_ifs <;> try omega
  all_goals simp only [List.cons_append, List.nil_append]
  -- one byte each, and one byte against more
  · exact lead (by omega) hlt
  · exact lead (by omega) (by omega)
  · exact lead (by omega) (by omega)
  · exact lead (by omega) (by omega)
  -- two bytes
  · by_cases h1 : v / 64 = w / 64
    · exact next (by omega) (lead (by omega) (by omega))
    · exact lead (by omega) (by omega)
  · exact lead (by omega) (by omega)
  · exact lead (by omega) (by omega)
  -- three bytes
  · by_cases h2 : v / 4096 = w / 4096
    · by_cases h1 : v / 64 = w / 64
      · exact next (by omega) (next (by omega) (lead (by omega) (by omega)))
      · exact next (by omega) (lead (by omega) (by omega))
    · exact lead (by omega) (by omega)
  · exact lead (by omega) (by omega)
  -- four bytes
  · by_cases h3 : v / 262144 = w / 262144
    · by_cases h2 : v / 4096 = w / 4096
      · by_cases h1 : v / 64 = w / 64
        · exact next (by omega) (next (by omega) (next (by omega) (lead (by omega) (by omega))))
        · exact next (by omega) (next (by omega) (lead (by omega) (by omega)))
      · exact next (by omega) (lead (by omega) (by omega))
    · exact lead (by omega) (by omega)

/-- A common beginning does not matter for the order. -/
private lemma append_lt_append_iff (p x y : List UInt8) : p ++ x < p ++ y ↔ x < y := by
  induction p with
  | nil => rfl
  | cons a p ih => simp [ih]

/-- Lists of characters are ordered as their bytes are.

**Proof sketch.** Induction on both lists.  Equal first characters have equal bytes and cancel; different
ones decide both comparisons alike. -/
private lemma flatMap_lt_flatMap_iff (cs ds : List Char) :
    cs.flatMap String.utf8EncodeChar < ds.flatMap String.utf8EncodeChar ↔ cs < ds := by
  induction cs generalizing ds with
  | nil =>
    cases ds with
    | nil => simp
    | cons d ds =>
      obtain ⟨b, bs, hb⟩ := List.exists_cons_of_ne_nil (String.utf8EncodeChar_ne_nil (c := d))
      simp [List.flatMap_cons, hb]
  | cons c cs ih =>
    cases ds with
    | nil => simp
    | cons d ds =>
      rw [List.flatMap_cons, List.flatMap_cons]
      rcases lt_trichotomy c d with h | rfl | h
      · exact iff_of_true (encodeChar_append_lt h _ _) (List.cons_lt_cons_iff.mpr (Or.inl h))
      · rw [append_lt_append_iff, ih, List.cons_lt_cons_iff]
        simp
      · refine iff_of_false (List.lt_asymm (encodeChar_append_lt h _ _)) ?_
        exact List.lt_asymm (List.cons_lt_cons_iff.mpr (Or.inl h))

/-- **Texts are ordered as their bytes are.** -/
theorem encode_lt_encode_iff (s t : String) : encode s < encode t ↔ s < t := by
  rw [encode_eq_flatMap, encode_eq_flatMap, flatMap_lt_flatMap_iff, String.lt_iff_toList_lt]

end CodeAtlas.Text.Utf8
