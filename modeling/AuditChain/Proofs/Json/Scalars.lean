import AuditChain.Json.Quoted
import AuditChain.Proofs.Text.Digits

/-!
# Strings and integers written and read

A string is read back whatever it holds: the reader undoes the escape of each character, and only
the quotation mark that closes the string stands there without a backslash.  An integer of 64 bits
is read back as long as what follows it does not go on with the number.

## Main results

* `readQuotedFrom_quotedChar` — reading one written character.
* `readQuoted_quoted` — **every text is read back from its string**.
* `readNumber_natural` — **every word of 64 bits is read back from its digits**.
-/

namespace AuditChain.Json

open Text

/-! ### Strings -/

/-- The four hexadecimal digits of a control character denote it. -/
theorem fourHex?_control {n : Nat} (h : n < 32) :
    fourHex? '0' '0' (hexDigit (n / 16)) (hexDigit n) = some n := by
  have hall : ∀ m < 32, fourHex? '0' '0' (hexDigit (m / 16)) (hexDigit m) = some m := by decide
  exact hall n h

/-- A control character is half of no pair. -/
theorem not_surrogate_control {n : Nat} (h : n < 32) : isLow n = false ∧ isHigh n = false := by
  simp only [isLow, isHigh, Bool.and_eq_false_iff, decide_eq_false_iff_not]
  omega

/-- A character that is written as it is is read as it is. -/
theorem readQuotedFrom_plain {c : Char} (hquote : c ≠ '"') (hslash : c ≠ '\\') (hspace : ¬c < ' ')
    (acc s : List Char) : readQuotedFrom acc (c :: s) = readQuotedFrom (c :: acc) s := by
  rw [readQuotedFrom.eq_def acc (c :: s)]
  split
  · contradiction
  · rename_i heq
    exact absurd (List.cons.inj heq).1 hquote
  · rename_i heq
    exact absurd (List.cons.inj heq).1 hslash
  · rename_i heq
    obtain ⟨rfl, rfl⟩ := List.cons.inj heq
    rw [if_neg hspace]

/-- A control character is read from its number. -/
theorem readQuotedFrom_control {c : Char} (h : c < ' ') (acc s : List Char) :
    readQuotedFrom acc ('\\' :: 'u' :: '0' :: '0' :: hexDigit (c.toNat / 16) :: hexDigit c.toNat
      :: s) = readQuotedFrom (c :: acc) s := by
  have hlt : c.toNat < 32 := h
  obtain ⟨hlow, hhigh⟩ := not_surrogate_control hlt
  rw [readQuotedFrom.eq_def acc ('\\' :: _)]
  simp only [fourHex?_control hlt, hlow, hhigh, Bool.false_eq_true, if_false, Char.ofNat_toNat]

/-- **One character as it is written is read as this character.** -/
theorem readQuotedFrom_quotedChar (c : Char) (acc s : List Char) :
    readQuotedFrom acc (quotedChar c ++ s) = readQuotedFrom (c :: acc) s := by
  unfold quotedChar
  -- the escapes of one letter, one by one; then the control characters that have none
  split
  · subst c; rfl
  split
  · subst c; rfl
  split
  · subst c; rfl
  split
  · subst c; rfl
  split
  · subst c; rfl
  split
  · subst c; rfl
  split
  · subst c; rfl
  split
  · exact readQuotedFrom_control ‹_› acc s
  · exact readQuotedFrom_plain ‹_› ‹_› ‹_› acc s

/-- Characters as they are written are read as these characters, up to the quotation mark. -/
theorem readQuotedFrom_flatMap (cs acc rest : List Char) :
    readQuotedFrom acc (cs.flatMap quotedChar ++ '"' :: rest) =
      .ok (String.ofList (acc.reverse ++ cs), rest) := by
  induction cs generalizing acc with
  | nil =>
    rw [List.flatMap_nil, List.nil_append, List.append_nil]
    rfl
  | cons c cs ih =>
    rw [List.flatMap_cons, List.append_assoc, readQuotedFrom_quotedChar, ih, List.reverse_cons,
      List.append_assoc, List.singleton_append]

theorem quoted_append (s : String) (rest : List Char) :
    quoted s ++ rest = '"' :: (s.toList.flatMap quotedChar ++ '"' :: rest) := by
  simp [quoted]

/-- **Every text is read back from its string.** -/
theorem readQuoted_quoted (s : String) (rest : List Char) :
    readQuoted (s.toList.flatMap quotedChar ++ '"' :: rest) = .ok (s, rest) := by
  rw [readQuoted, readQuotedFrom_flatMap, List.reverse_nil, List.nil_append, String.ofList_toList]

/-! ### Integers -/

/-- No number goes on with what stands there. -/
def EndsNumber (rest : List Char) : Prop :=
  ∀ c ∈ rest.head?, isDigit c = false ∧ c ≠ '.' ∧ c ≠ 'e' ∧ c ≠ 'E'

theorem digitRun_of_ends {rest : List Char} (h : EndsNumber rest) : digitRun rest = (0, rest) := by
  cases rest with
  | nil => rfl
  | cons c rest =>
    have hc : ¬isDigit c = true := by
      rw [(h c rfl).1]
      exact Bool.false_ne_true
    rw [digitRun, List.takeWhile_cons_of_neg hc, List.dropWhile_cons_of_neg hc, List.length_nil]

/-- Digits only make a significand greater. -/
theorem le_foldl_digits (digits : List Char) (n : Nat) :
    n ≤ digits.foldl (fun n c => 10 * n + digitValue c) n := by
  induction digits generalizing n with
  | nil => exact Nat.le_refl n
  | cons c digits ih =>
    have hstep : n ≤ 10 * n + digitValue c := by omega
    exact Nat.le_trans hstep (ih _)

/-- A run of digits that fits is gathered as a whole. -/
theorem gather_digits {digits rest : List Char} {n : Nat}
    (hdigits : ∀ c ∈ digits, isDigit c = true)
    (hfits : digits.foldl (fun n c => 10 * n + digitValue c) n ≤ maxSignificand)
    (hends : EndsNumber rest) :
    gather n (digits ++ rest) = (digits.foldl (fun n c => 10 * n + digitValue c) n, rest) := by
  induction digits generalizing n with
  | nil =>
    cases rest with
    | nil => rfl
    | cons c rest =>
      have hc := (hends c rfl).1
      rw [List.nil_append, gather, hc]
      rfl
  | cons c digits ih =>
    have hc := hdigits c List.mem_cons_self
    have hnow : 10 * n + digitValue c ≤ maxSignificand := Nat.le_trans (le_foldl_digits _ _) hfits
    rw [List.cons_append, gather, if_pos hc]
    simp only [if_pos hnow]
    exact ih (fun d hd => hdigits d (List.mem_cons_of_mem c hd)) hfits

/-- Only zero begins with the digit zero. -/
theorem eq_zero_of_head_natural {n : Nat} {s : List Char} (h : natural n = '0' :: s) : n = 0 := by
  have hdigit : ∀ m < 10, Nat.digitChar m = '0' → m = 0 := by decide
  induction n using Nat.strongRecOn generalizing s with
  | ind n ih =>
    rw [natural, Nat.toDigits_eq_if (by decide)] at h
    split at h
    · exact hdigit n ‹_› (List.cons.inj h).1
    · -- the digits before the last one are those of a smaller number
      obtain ⟨c, digits, hhead⟩ := List.exists_cons_of_ne_nil (natural_ne_nil (n / 10))
      have hhead' : Nat.toDigits 10 (n / 10) = c :: digits := hhead
      rw [hhead', List.cons_append] at h
      rw [(List.cons.inj h).1] at hhead
      have hzero := ih (n / 10) (by omega) hhead
      omega

/-- A number has no zero in front of its digits. -/
theorem no_leading_zero {n : Nat} {c : Char} {digits rest : List Char}
    (h : natural n = c :: digits) (hends : EndsNumber rest) :
    ¬(c = '0' ∧ ((digits ++ rest).head?.map isDigit).getD false = true) := by
  rintro ⟨rfl, hnext⟩
  have hzero := eq_zero_of_head_natural h
  subst n
  obtain rfl : digits = [] := by
    have hsingle : natural 0 = ['0'] := rfl
    rw [hsingle] at h
    exact (List.cons.inj h).2.symm
  cases rest with
  | nil => exact Bool.false_ne_true hnext
  | cons d rest => exact absurd hnext (by simp [(hends d rfl).1])

/-- **Every word of 64 bits is read back from its digits**, before anything that does not go on
with the number. -/
theorem readNumber_natural (n : UInt64) {rest : List Char} (hends : EndsNumber rest) :
    readNumber (natural n.toNat ++ rest) = .ok (.natural n, rest) := by
  obtain ⟨c, digits, hhead, hc⟩ := exists_natural_eq_cons n.toNat
  have hdigits : ∀ d ∈ natural n.toNat, isDigit d = true := fun d hd => isDigit_of_mem_natural hd
  have hvalue : valueOf (natural n.toNat) = n.toNat := valueOf_natural n.toNat
  have hfits : valueOf (natural n.toNat) ≤ maxSignificand := by
    rw [hvalue]
    exact Nat.le_of_lt_succ n.toNat_lt
  have hgather : gather 0 (c :: (digits ++ rest)) = (n.toNat, rest) := by
    rw [← List.cons_append, ← hhead, gather_digits hdigits hfits hends]
    exact congrArg (·, rest) hvalue
  have hunsigned : readUnsigned false (c :: (digits ++ rest)) = .ok (.natural n, rest) := by
    rw [readUnsigned, if_neg (by simp [hc]), if_neg (no_leading_zero hhead hends)]
    simp only [hgather, digitRun_of_ends hends]
    -- what follows is neither point nor exponent
    split
    · exact absurd rfl (hends '.' rfl).2.1
    · exact absurd rfl (hends 'e' rfl).2.2.1
    · exact absurd rfl (hends 'E' rfl).2.2.2
    · rw [if_pos trivial, integer, Bool.not_false, if_pos rfl, UInt64.ofNat_toNat]
  have hsign : c ≠ '-' := by
    rintro rfl
    exact absurd hc (by decide)
  rw [hhead, List.cons_append, readNumber, hunsigned]
  rintro s heq
  exact hsign (List.cons.inj heq).1

end AuditChain.Json
