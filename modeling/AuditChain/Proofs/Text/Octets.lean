import AuditChain.Text.Hex
import AuditChain.Text.Utf8
import Mathlib.Data.List.Basic

/-!
# Texts and octets

A text is told by its UTF-8 octets, and a string of octets by its hexadecimal text.

## Main results

* `utf8_injective`, `length_utf8_ofList_le` — the octets of a text tell it; there are four for a
  character at most.
* `hex_injective` — octets are told by their hexadecimal text.
-/

namespace AuditChain.Text

/-! ### UTF-8 -/

/-- The octets of an array from one place on, after those that have been gathered. -/
theorem toList_loop_eq (bytes : ByteArray) (i : Nat) (gathered : List UInt8) :
    ByteArray.toList.loop bytes i gathered = gathered.reverse ++ bytes.data.toList.drop i := by
  -- the loop takes one octet a turn until the end of the array
  induction hn : bytes.size - i generalizing i gathered with
  | zero =>
    have hend : bytes.size ≤ i := by omega
    have hdrop : bytes.data.toList.drop i = [] := List.drop_of_length_le hend
    rw [ByteArray.toList.loop, if_neg (Nat.not_lt.mpr hend), hdrop, List.append_nil]
  | succ n ih =>
    have hlt : i < bytes.size := by omega
    have hlength : i < bytes.data.toList.length := hlt
    have hget : bytes.get! i = bytes.data.toList[i] := by
      show bytes.data[i]! = _
      rw [getElem!_pos bytes.data i hlt, Array.getElem_toList]
    rw [ByteArray.toList.loop, if_pos hlt, ih (i + 1) _ (by omega), hget, List.reverse_cons,
      List.append_assoc, List.singleton_append, List.getElem_cons_drop]

theorem utf8_eq (s : String) : utf8 s = s.toByteArray.data.toList :=
  toList_loop_eq s.toByteArray 0 []

/-- A text is told by its octets. -/
theorem utf8_injective {s t : String} (h : utf8 s = utf8 t) : s = t := by
  rw [utf8_eq, utf8_eq, Array.toList_inj] at h
  exact String.toByteArray_inj.mp (ByteArray.ext h)

/-- The octets of a text are those of its characters. -/
theorem utf8_ofList (cs : List Char) :
    utf8 (String.ofList cs) = cs.flatMap String.utf8EncodeChar := by
  rw [utf8_eq, String.toByteArray_ofList, List.utf8Encode, List.toList_data_toByteArray]

/-- A character takes four octets at most. -/
theorem length_utf8_ofList_le (cs : List Char) :
    (utf8 (String.ofList cs)).length ≤ 4 * cs.length := by
  rw [utf8_ofList]
  induction cs with
  | nil => exact Nat.le_refl 0
  | cons c cs ih =>
    have hc := c.utf8Size_le_four
    rw [List.flatMap_cons, List.length_append, String.length_utf8EncodeChar, List.length_cons]
    omega

/-! ### Hexadecimal text -/

/-- A digit tells its value. -/
theorem hexDigit_injective {m n : Nat} (h : hexDigit m = hexDigit n) : m % 16 = n % 16 := by
  have hall : ∀ m < 16, ∀ n < 16, Nat.digitChar m = Nat.digitChar n → m = n := by decide
  exact hall _ (Nat.mod_lt m (by decide)) _ (Nat.mod_lt n (by decide)) h

/-- Two digits tell an octet. -/
theorem hexOctet_injective {a b : UInt8} (h : hexOctet a = hexOctet b) : a = b := by
  obtain ⟨hhigh, hlow⟩ : hexDigit (a.toNat / 16) = hexDigit (b.toNat / 16) ∧
      hexDigit a.toNat = hexDigit b.toNat := by simpa [hexOctet] using h
  have hhigh := hexDigit_injective hhigh
  have hlow := hexDigit_injective hlow
  have ha := a.toNat_lt
  have hb := b.toNat_lt
  rw [← UInt8.toNat_inj]
  omega

/-- Octets are told by their hexadecimal text. -/
theorem hex_injective {xs ys : List UInt8} (h : hex xs = hex ys) : xs = ys := by
  have hchars : xs.flatMap hexOctet = ys.flatMap hexOctet := String.ofList_injective h
  clear h
  induction xs generalizing ys with
  | nil =>
    cases ys with
    | nil => rfl
    | cons y ys => simp [hexOctet] at hchars
  | cons x xs ih =>
    cases ys with
    | nil => simp [hexOctet] at hchars
    | cons y ys =>
      rw [List.flatMap_cons, List.flatMap_cons] at hchars
      obtain ⟨hoctet, hrest⟩ := List.append_inj hchars rfl
      rw [hexOctet_injective hoctet, ih hrest]

end AuditChain.Text
