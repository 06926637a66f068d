import Mathlib.Data.List.Basic

/-!
# The bytes of a text

A text is stored as the bytes of its characters, one after the other. No character begins with all
the bytes of another one, so what can be said of the beginning of a text can be said of its first
bytes (`isPrefix_of_bytes`): a text can be cut wherever the bytes of another one end.
-/

namespace Relock.Text

/-- The bytes of some characters, one after the other. -/
def bytes (cs : List Char) : List UInt8 :=
  cs.flatMap String.utf8EncodeChar

/-- They are the bytes that the text is stored as. -/
theorem bytes_toList (text : String) : bytes text.toList = text.toUTF8.data.toList := by
  have hencode : text.toList.utf8Encode = text.toByteArray := String.utf8Encode_toList
  show bytes text.toList = text.toByteArray.data.toList
  rw [← hencode]
  exact List.toList_data_toByteArray.symm

@[simp] theorem bytes_nil : bytes [] = [] := rfl

@[simp] theorem bytes_append (front back : List Char) :
    bytes (front ++ back) = bytes front ++ bytes back :=
  List.flatMap_append

/-- Bytes that begin with a character are decoded to that one. -/
theorem eq_of_utf8EncodeChar_append {c d : Char} {rest rest' : List UInt8}
    (h : String.utf8EncodeChar c ++ rest = String.utf8EncodeChar d ++ rest') : c = d := by
  have hdecode : ∀ (e : Char) (after : List UInt8),
      (String.utf8EncodeChar e ++ after).toByteArray.utf8DecodeChar? 0 = some e := by
    intro e after
    rw [List.toByteArray_append]
    exact ByteArray.utf8DecodeChar?_utf8EncodeChar_append
  have hc := hdecode c rest
  rw [h, hdecode d rest'] at hc
  exact (Option.some.inj hc).symm

/-- A text begins with the characters whose bytes it begins with. -/
theorem isPrefix_of_bytes {front cs : List Char} (h : bytes front <+: bytes cs) : front <+: cs := by
  induction front generalizing cs with
  | nil => exact List.nil_prefix
  | cons c front ih =>
      obtain ⟨rest, hrest⟩ := h
      rw [bytes, List.flatMap_cons, List.append_assoc] at hrest
      cases cs with
      | nil =>
          have hempty : String.utf8EncodeChar c = [] := (List.append_eq_nil_iff.mp hrest).1
          exact absurd hempty String.utf8EncodeChar_ne_nil
      | cons d cs =>
          obtain rfl := eq_of_utf8EncodeChar_append hrest
          rw [List.cons_prefix_cons]
          exact ⟨rfl, ih ⟨rest, List.append_cancel_left hrest⟩⟩

/-- Only the empty text has no bytes. -/
theorem bytes_eq_nil_iff {cs : List Char} : bytes cs = [] ↔ cs = [] := by
  constructor
  · intro h
    have hprefix : cs <+: [] := isPrefix_of_bytes (h ▸ List.prefix_rfl)
    exact List.prefix_nil.mp hprefix
  · rintro rfl
    rfl

end Relock.Text
