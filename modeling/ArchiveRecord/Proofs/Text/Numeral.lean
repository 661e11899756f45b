/- # Proofs.Text.Numeral -- numbers are read from their digits

`number?` goes over the digits from the highest on, while `numeral` and `natural`
are made of all digits but the last and then the last. One lemma about a digit at
the end joins them, and each form is read back by an induction on what it is made
of. Numerals of one width sort as texts, by the same induction.
-/
import ArchiveRecord.Text.Numeral
import Mathlib.Data.String.Basic
import Mathlib.Tactic.IntervalCases

namespace ArchiveRecord.Text

variable {base : Nat}

/-- A digit is read as its value. -/
theorem digitValue?_digitChar {d : Nat} (h : d < base) (hbase : base ≤ 16) :
    digitValue? base (Nat.digitChar d) = some d := by
  have hd : d < 16 := Nat.lt_of_lt_of_le h hbase
  interval_cases d <;> simp [digitValue?, Nat.digitChar] <;> omega

/-- A digit at the end counts once, and what stands before it `base` times. -/
theorem number?_concat (digits : List Char) {c : Char} {n d : Nat}
    (hdigits : number? base digits = some n) (hc : digitValue? base c = some d) :
    number? base (digits ++ [c]) = some (n * base + d) := by
  unfold number? at hdigits ⊢
  rw [List.foldlM_append, hdigits]
  simp [hc]

/-- **A numeral is read as the number**, as far as its width goes. -/
theorem number?_numeral (hpos : 0 < base) (hbase : base ≤ 16) (width n : Nat) :
    number? base (numeral base width n) = some (n % base ^ width) := by
  induction width generalizing n with
  | zero => rw [Nat.pow_zero, Nat.mod_one]; rfl
  | succ width ih =>
      have hdigit := digitValue?_digitChar (Nat.mod_lt n hpos) hbase
      have hmod : n % base ^ (width + 1) = n / base % base ^ width * base + n % base := by
        rw [Nat.pow_succ', Nat.mod_mul, Nat.mul_comm base, Nat.add_comm]
      rw [numeral, number?_concat _ (ih (n / base)) hdigit, hmod]

/-! ## Numerals in order -/

theorem digitChar_lt : ∀ d < 16, ∀ low < d, Nat.digitChar low < Nat.digitChar d := by
  decide

/-- Of two texts of one length, the smaller stays so whatever is put behind them. -/
theorem lex_append {front later : List Char} (h : List.Lex (· < ·) front later)
    (hlength : front.length = later.length) (rest more : List Char) :
    List.Lex (· < ·) (front ++ rest) (later ++ more) := by
  induction h with
  | nil => cases hlength
  | rel hlt => exact .rel hlt
  | cons _ ih => exact .cons (ih (Nat.succ.inj hlength))

/-- **Numerals of one width sort as texts** like their numbers. -/
theorem numeral_lt (hbase : base ≤ 16) {width m n : Nat} (h : m < n) (hn : n < base ^ width) :
    List.Lex (· < ·) (numeral base width m) (numeral base width n) := by
  induction width generalizing m n with
  | zero => simp at hn; omega
  | succ width ih =>
      have hpos : 0 < base := Nat.pos_of_ne_zero fun hzero => by simp [hzero] at hn
      have hquotient : n / base < base ^ width := Nat.div_lt_of_lt_mul (by rwa [← Nat.pow_succ'])
      rw [numeral, numeral]
      -- The last digit decides only where all digits in front of it are the same.
      rcases Nat.lt_or_eq_of_le (Nat.div_le_div_right h.le) with hlt | heq
      · exact lex_append (ih hlt hquotient) (by simp) _ _
      · rw [heq]
        refine List.Lex.append_left _ (.rel (digitChar_lt _ ?_ _ ?_)) _
        · exact Nat.lt_of_lt_of_le (Nat.mod_lt n hpos) hbase
        · have hm := Nat.div_add_mod m base
          have hn := Nat.div_add_mod n base
          rw [heq] at hm
          omega

/-! ## Decimal digits without leading zeros -/

/-- **The decimal digits of a number are read as the number.** -/
theorem number?_natural (n : Nat) : number? 10 (natural n) = some n := by
  have hdigit (d : Nat) (h : d < 10) : digitValue? 10 (Nat.digitChar d) = some d :=
    digitValue?_digitChar h (by omega)
  unfold natural
  induction n using Nat.strongRecOn with
  | ind n ih =>
      by_cases h : n < 10
      · have hempty : number? 10 [] = some 0 := rfl
        rw [Nat.toDigits_of_lt_base h, ← List.nil_append [n.digitChar],
          number?_concat _ hempty (hdigit n h), Nat.zero_mul, Nat.zero_add]
      · have hlast := hdigit (n % 10) (Nat.mod_lt n (by omega))
        rw [Nat.toDigits_of_base_le (by omega) (by omega),
          number?_concat _ (ih (n / 10) (by omega)) hlast]
        exact congrArg some (by omega)

theorem isDigit_of_mem_natural {n : Nat} {c : Char} (h : c ∈ natural n) : c.isDigit = true :=
  Nat.isDigit_of_mem_toDigits (by omega) (by omega) h

/-- Only zero starts with a zero. -/
theorem head?_natural_ne_zero {n : Nat} (h : n ≠ 0) : (natural n).head? ≠ some '0' := by
  unfold natural
  induction n using Nat.strongRecOn with
  | ind n ih =>
      by_cases hn : n < 10
      · rw [Nat.toDigits_of_lt_base hn, List.head?_cons]
        intro hzero
        exact h (Nat.digitChar_eq_zero.mp (Option.some.inj hzero))
      · have hhead := ih (n / 10) (by omega) (by omega)
        rw [Nat.toDigits_of_base_le (by omega) (by omega), List.head?_append,
          Option.or_of_isSome (List.isSome_head?.mpr Nat.toDigits_ne_nil)]
        exact hhead

end ArchiveRecord.Text
