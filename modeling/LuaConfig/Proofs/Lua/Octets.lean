/-
The octets of texts.

`encoded` gives the octets of characters.  Those of ASCII are the characters themselves
(`encoded_ascii`), all others are beyond ASCII (`le_of_mem_encodeChar`), and a string that comes
from a text is shown as that text (`text_ofString`).
-/
import LuaConfig.Lua.Numeral
import Mathlib

namespace LuaConfig.Lua.Octets

/-- The octets of characters. -/
def encoded (text : List Char) : List UInt8 := text.flatMap String.utf8EncodeChar

@[simp] theorem encoded_nil : encoded [] = [] := rfl

theorem encoded_cons (c : Char) (text : List Char) :
    encoded (c :: text) = String.utf8EncodeChar c ++ encoded text := List.flatMap_cons

theorem encoded_append (a b : List Char) : encoded (a ++ b) = encoded a ++ encoded b :=
  List.flatMap_append

/-! ### Lists of octets -/

theorem toList_loop (s : ByteArray) (i : Nat) (done : List UInt8) :
    ByteArray.toList.loop s i done = done.reverse ++ s.data.toList.drop i := by
  induction hn : s.size - i generalizing i done with
  | zero =>
    rw [ByteArray.toList.loop, if_neg (by omega), List.drop_eq_nil_of_le, List.append_nil]
    simp only [Array.length_toList, ByteArray.size_data]
    omega
  | succ n ih =>
    have hi : i < s.data.toList.length := by
      simp only [Array.length_toList, ByteArray.size_data]
      omega
    have hget : s.get! i = s.data.toList[i] := by
      show s.data[i]! = _
      rw [getElem!_pos s.data i (by simpa using hi), Array.getElem_toList]
    rw [ByteArray.toList.loop, if_pos (by omega), ih _ _ (by omega), List.drop_eq_getElem_cons hi,
      List.reverse_cons, hget, List.append_assoc]
    rfl

theorem toList_eq (s : ByteArray) : s.toList = s.data.toList := by
  rw [ByteArray.toList, toList_loop, List.reverse_nil, List.nil_append, List.drop_zero]

theorem toList_ofList (octets : List UInt8) : (ofList octets).toList = octets := by
  rw [toList_eq, ofList, List.toList_data_toByteArray]

theorem toList_inj {s t : Octets} (h : s.toList = t.toList) : s = t := by
  rw [toList_eq, toList_eq, Array.toList_inj] at h
  exact ByteArray.ext h

theorem ofList_toList (s : Octets) : ofList s.toList = s := toList_inj (toList_ofList _)

theorem toList_append (s t : Octets) : (s ++ t).toList = s.toList ++ t.toList := by
  rw [toList_eq, toList_eq, toList_eq, ByteArray.toList_data_append]

theorem toList_push (s : Octets) (b : UInt8) : (s.push b).toList = s.toList ++ [b] := by
  rw [toList_eq, toList_eq]
  exact Array.toList_push

theorem toList_empty : ByteArray.empty.toList = [] := ByteArray.toList_empty

/-! ### Strings and texts -/

theorem toList_ofString (s : String) : (ofString s).toList = encoded s.toList := by
  rw [toList_eq, ofString, String.toUTF8_eq_toByteArray, ← String.utf8Encode_toList,
    List.utf8Encode, List.toList_data_toByteArray]
  rfl

theorem ofList_encoded (text : List Char) :
    ofList (encoded text) = ofString (String.ofList text) := by
  apply toList_inj
  rw [toList_ofList, toList_ofString, String.toList_ofList]

theorem fromUTF8_ofString (s : String) : String.fromUTF8? (ofString s) = some s := by
  have hvalid : s.toByteArray.IsValidUTF8 := s.isValidUTF8
  rw [ofString, String.toUTF8_eq_toByteArray, String.fromUTF8?, dif_pos hvalid]
  rfl

theorem eq_ofString_of_fromUTF8 {s : Octets} {text : String} (h : String.fromUTF8? s = some text) :
    s = ofString text := by
  unfold String.fromUTF8? at h
  split at h
  · cases h
    rfl
  · cases h

/-- A string that comes from a text is shown as it. -/
theorem text_ofString (s : String) : (ofString s).text = s := by
  rw [text, Text.decodeLossy, fromUTF8_ofString]

theorem ofString_inj {s t : String} (h : ofString s = ofString t) : s = t := by
  rw [← text_ofString s, h, text_ofString]

/-! ### ASCII -/

theorem encodeChar_ascii {c : Char} (h : c.toNat < 128) :
    String.utf8EncodeChar c = [UInt8.ofNat c.toNat] := by
  have hc : c.val.toNat ≤ 127 := Nat.lt_succ_iff.mp h
  unfold String.utf8EncodeChar
  simp only [hc, if_true]
  rfl

theorem encoded_cons_ascii {c : Char} (h : c.toNat < 128) (text : List Char) :
    encoded (c :: text) = UInt8.ofNat c.toNat :: encoded text := by
  rw [encoded_cons, encodeChar_ascii h]
  rfl

theorem encoded_ascii {text : List Char} (h : ∀ c ∈ text, c.toNat < 128) :
    encoded text = text.map fun c => UInt8.ofNat c.toNat := by
  induction text with
  | nil => rfl
  | cons c text ih =>
    rw [encoded_cons_ascii (h c (by simp)), ih fun d hd => h d (by simp [hd])]
    rfl

theorem chars_encoded {text : List Char} (h : ∀ c ∈ text, c.toNat < 128) :
    Numeral.chars (encoded text) = text := by
  rw [encoded_ascii h, Numeral.chars, List.map_map]
  conv_rhs => rw [← List.map_id text]
  refine List.map_congr_left fun c hc => ?_
  have hlt := h c hc
  simp only [Function.comp_apply, UInt8.toNat_ofNat', id_eq]
  rw [Nat.mod_eq_of_lt (by omega), Char.ofNat_toNat]

/-- A string of ASCII octets is the text of its characters. -/
theorem eq_ofString_of_ascii {s : Octets} (h : ∀ c ∈ Numeral.chars s.toList, c.toNat < 128) :
    s = ofString (String.ofList (Numeral.chars s.toList)) := by
  have hencoded : encoded (Numeral.chars s.toList) = s.toList := by
    rw [encoded_ascii h, Numeral.chars, List.map_map]
    conv_rhs => rw [← List.map_id s.toList]
    refine List.map_congr_left fun b _ => ?_
    have hvalid : b.toNat.isValidChar := Or.inl (by have := b.toNat_lt; omega)
    simp [Char.toNat_ofNat, hvalid]
  rw [← ofList_encoded, hencoded, ofList_toList]

/-- The octets of a character beyond ASCII are beyond ASCII. -/
theorem le_of_mem_encodeChar {c : Char} (h : 128 ≤ c.toNat) {b : UInt8}
    (hb : b ∈ String.utf8EncodeChar c) : 128 ≤ b.toNat := by
  have hc : ¬ c.val.toNat ≤ 127 := by
    have : 128 ≤ c.val.toNat := h
    omega
  unfold String.utf8EncodeChar at hb
  simp only [hc, if_false] at hb
  split_ifs at hb
  all_goals
    simp only [List.mem_cons, List.not_mem_nil, or_false] at hb
    rcases hb with rfl | rfl | rfl | rfl
  all_goals simp only [UInt8.toNat_ofNat']; omega

end LuaConfig.Lua.Octets
