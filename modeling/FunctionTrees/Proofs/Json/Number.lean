import FunctionTrees.Proofs.Json.Reading

/-!
# Written integers are read back

* `run_digits` : digits are read up to the first character that is none;
* `appendDigits_eq` : they make a number of at most 64 bits together;
* `run_wholeDigits` : a number is read to the end, as it does not begin with a zero that is not its all;
* `run_unsignedNumber`, `takes_number` : a written integer of 64 bits is taken for itself.
-/

set_option autoImplicit false

namespace FunctionTrees.Json

/-! ## Digits -/

/-- What digits make of a number in front of them. -/
def appendAll (value : Nat) (digits : List Nat) : Nat := digits.foldl (fun value digit => value * 10 + digit) value

theorem le_appendAll (value : Nat) (digits : List Nat) : value ≤ appendAll value digits := by
  induction digits generalizing value with
  | nil => exact Nat.le_refl value
  | cons digit digits ih =>
    have hmore : value * 10 + digit ≤ appendAll value (digit :: digits) := ih (value * 10 + digit)
    omega

/-- Digits that make a number of at most 64 bits are all appended. -/
theorem appendDigits_eq {value : Nat} {digits : List Nat} (h : appendAll value digits < UInt64.size) :
    appendDigits value digits = (appendAll value digits, digits.length) := by
  induction digits generalizing value with
  | nil => rfl
  | cons digit digits ih =>
    have hhead : value * 10 + digit < UInt64.size := Nat.lt_of_le_of_lt (le_appendAll _ digits) h
    rw [appendDigits, if_pos hhead, ih h]
    rfl

namespace Reader

theorem isDigit_of_mem_toDigits {n : Nat} {c : Char} (h : c ∈ Nat.toDigits 10 n) : isDigit c = true := by
  have hdigit := Nat.isDigit_of_mem_toDigits (by decide) (Nat.le_refl 10) h
  simp only [Char.isDigit, Bool.and_eq_true, decide_eq_true_eq] at hdigit
  exact decide_eq_true hdigit

theorem exists_digit_toDigits (n : Nat) : ∃ c rest, Nat.toDigits 10 n = c :: rest ∧ isDigit c = true := by
  cases hdigits : Nat.toDigits 10 n with
  | nil => exact absurd hdigits Nat.toDigits_ne_nil
  | cons c rest => exact ⟨c, rest, rfl, isDigit_of_mem_toDigits (hdigits ▸ List.mem_cons_self)⟩

theorem appendAll_toDigits (n : Nat) : appendAll 0 ((Nat.toDigits 10 n).map digitValue) = n := by
  have h := Nat.ofDigitChars_toDigits (b := 10) (n := n) (by decide) (Nat.le_refl 10)
  rw [Nat.ofDigitChars] at h
  rw [appendAll, List.foldl_map]
  simp only [Nat.mul_comm _ 10]
  exact h

/-- Only zero begins with a zero. -/
theorem head_toDigits {n : Nat} (h : n ≠ 0) : ∃ c rest, Nat.toDigits 10 n = c :: rest ∧ c ≠ '0' := by
  induction n using Nat.strongRecOn with
  | _ n ih =>
    rw [Nat.toDigits_eq_if (by decide)]
    split
    next hlt =>
      have hdigit : ∀ n < 10, n ≠ 0 → Nat.digitChar n ≠ '0' := by decide
      exact ⟨n.digitChar, [], rfl, hdigit n hlt h⟩
    next hge =>
      obtain ⟨c, rest, hhead, hc⟩ := ih (n / 10) (by omega) (by omega)
      exact ⟨c, rest ++ [(n % 10).digitChar], by rw [hhead]; rfl, hc⟩

/-! ## Parts of a number -/

variable {rest : List Char}

theorem run_digits {chars : List Char} (h : ∀ c ∈ chars, isDigit c = true)
    (hrest : ∀ c ∈ rest.head?, isDigit c = false) :
    digits.run (chars ++ rest) = .done (chars.map digitValue) rest := by
  have hnone : rest.takeWhile isDigit = [] ∧ rest.dropWhile isDigit = rest := by
    cases rest with
    | nil => exact ⟨rfl, rfl⟩
    | cons c rest =>
      have hc : ¬ isDigit c = true := by simp [hrest c rfl]
      exact ⟨List.takeWhile_cons_of_neg hc, List.dropWhile_cons_of_neg hc⟩
  simp only [digits, List.takeWhile_append_of_pos h, List.dropWhile_append_of_pos h, hnone, List.append_nil]

theorem run_pass?_none {choices : List Char} (h : ∀ c ∈ rest.head?, c ∉ choices) :
    (pass? choices).run rest = .done none rest := by
  rw [pass?, run_bind_peek]
  cases rest with
  | nil => rfl
  | cons c rest =>
    have hc : c ∉ choices := h c rfl
    simp [hc]

theorem run_wholeDigits (n : Nat) (hrest : Bounded rest) :
    wholeDigits.run (Nat.toDigits 10 n ++ rest) = .done ((Nat.toDigits 10 n).map digitValue) rest := by
  rw [wholeDigits, run_bind_peek]
  by_cases hzero : n = 0
  · -- behind a leading zero no further digit may come, and none does
    subst hzero
    show (pass >>= fun _ => peek >>= _ : Reader (List Nat)).run ('0' :: rest) = _
    rw [run_bind_pass, run_bind_peek, List.tail_cons]
    cases rest with
    | nil => rfl
    | cons c rest =>
      simp only [List.head?_cons, (hrest.not_part rfl).1]
      rfl
  · obtain ⟨c, more, hdigits, hc⟩ := head_toDigits hzero
    have hdigit : isDigit c = true := isDigit_of_mem_toDigits (hdigits ▸ List.mem_cons_self)
    have hrun := run_digits (fun c => isDigit_of_mem_toDigits (n := n)) fun c hc => (hrest.not_part hc).1
    rw [hdigits] at hrun ⊢
    simp only [List.cons_append, List.head?_cons, if_neg hc, hdigit, if_true]
    exact hrun

theorem run_fractionDigits_none (hrest : Bounded rest) : fractionDigits.run rest = .done none rest := by
  have hnone : (pass? ['.']).run rest = .done none rest :=
    run_pass?_none fun c hc => by simp [(hrest.not_part hc).2]
  rw [fractionDigits, run_bind_done hnone]
  rfl

theorem run_exponent_none (hrest : Bounded rest) (zero : Bool) : (exponent zero).run rest = .done none rest := by
  have hnone : (pass? ['e', 'E']).run rest = .done none rest :=
    run_pass?_none fun c hc => by simp [(hrest.not_part hc).2]
  rw [exponent, run_bind_done hnone]
  rfl

/-! ## Integers -/

/-- What a number without fraction and exponent is after its sign. -/
def ofSize (negative : Bool) (size : Nat) : Number :=
  if ¬ negative then .integer size
  else if size = 0 ∨ UInt64.size / 2 < size then .float (signed true (sizeOf size))
  else .integer (-size)

theorem run_unsignedNumber (negative : Bool) {n : Nat} (h : n < UInt64.size) (hrest : Bounded rest) :
    (unsignedNumber negative).run (Nat.toDigits 10 n ++ rest) = .done (ofSize negative n) rest := by
  have hwhole := run_wholeDigits n hrest
  have happend : appendDigits 0 ((Nat.toDigits 10 n).map digitValue) = (n, (Nat.toDigits 10 n).length) := by
    rw [appendDigits_eq (by rwa [appendAll_toDigits]), appendAll_toDigits, List.length_map]
  rw [unsignedNumber, run_bind_done hwhole]
  simp only [happend]
  rw [run_bind_done (run_fractionDigits_none hrest)]
  simp only [Option.getD_none, appendDigits]
  rw [run_bind_done (run_exponent_none hrest _)]
  simp only [Option.isNone_none, List.length_map, and_self, if_true, ofSize]
  split
  · rfl
  · split <;> rfl

/-- The integers that a number can be without being a float. -/
def Whole (value : Int) : Prop := -(UInt64.size / 2 : Nat) ≤ value ∧ value < UInt64.size

theorem writeInt_ofNat (n : Nat) : Format.writeInt n = Nat.toDigits 10 n := by
  rw [Format.writeInt, Int.toString_eq_repr, Int.repr_eq_if, if_pos (Int.natCast_nonneg n), Int.toNat_natCast,
    Nat.toList_repr]

theorem writeInt_negSucc (n : Nat) : Format.writeInt (Int.negSucc n) = '-' :: Nat.toDigits 10 (n + 1) := by
  have hneg : ¬ 0 ≤ Int.negSucc n := by simp
  have hsize : (-Int.negSucc n).toNat = n + 1 := rfl
  rw [Format.writeInt, Int.toString_eq_repr, Int.repr_eq_if, if_neg hneg, hsize, String.toList_append, Nat.toList_repr]
  rfl

theorem exists_head_writeInt (value : Int) :
    ∃ c rest, Format.writeInt value = c :: rest ∧ (c = '-' ∨ isDigit c = true) := by
  cases value with
  | ofNat n =>
    show ∃ c rest, Format.writeInt (n : Int) = _ ∧ _
    rw [writeInt_ofNat]
    obtain ⟨c, rest, hdigits, hdigit⟩ := exists_digit_toDigits n
    exact ⟨c, rest, hdigits, .inr hdigit⟩
  | negSucc n =>
    rw [writeInt_negSucc]
    exact ⟨'-', _, rfl, .inl rfl⟩

/-- A written integer is taken for itself. -/
theorem takes_number {value : Int} (h : Whole value) : number.Takes (Format.writeInt value) (.integer value) := by
  intro rest hrest
  obtain ⟨hleast, hlt⟩ := h
  cases value with
  | ofNat n =>
    have hplain : (pass? ['-']).run (Nat.toDigits 10 n ++ rest) = .done none (Nat.toDigits 10 n ++ rest) := by
      obtain ⟨c, more, hdigits, hdigit⟩ := exists_digit_toDigits n
      rw [hdigits]
      apply run_pass?_none
      rintro c ⟨⟩ hmem
      rw [List.mem_singleton.1 hmem] at hdigit
      exact absurd hdigit (by decide)
    show number.run (Format.writeInt (n : Int) ++ rest) = _
    rw [writeInt_ofNat, number, run_bind_done hplain]
    exact run_unsignedNumber false (Int.ofNat_lt.1 hlt) hrest
  | negSucc n =>
    have hminus : (pass? ['-']).run ('-' :: Nat.toDigits 10 (n + 1) ++ rest) =
        .done (some '-') (Nat.toDigits 10 (n + 1) ++ rest) := rfl
    -- only minus zero and what is below the 64 bits would be made a float
    have hsize : n + 1 ≤ UInt64.size / 2 := by omega
    rw [writeInt_negSucc, number, run_bind_done hminus]
    have hrun := run_unsignedNumber true (n := n + 1) (Nat.lt_of_le_of_lt hsize (by decide)) hrest
    have hsigned : ofSize true (n + 1) = .integer (Int.negSucc n) := by
      rw [ofSize, if_neg (by simp), if_neg (by omega)]
      rfl
    rw [hsigned] at hrun
    exact hrun

end Reader

end FunctionTrees.Json
