import Core6502.Proofs.Arithmetic.Digits
import Core6502.Proofs.Flags.Inert

/-!
# Sums and differences of several bytes

A program adds long numbers digit by digit, from the least significant one on: an LDA of a digit of
the first number and then an ADC of the digit of the second. The carry connects one digit with the
next, so the result is exact, and the last ADC judges the sign of the whole. With SBC in place of
ADC the same holds of the difference, since SBC is an ADC of the complement.
-/

namespace Core6502

open Digits

namespace Registers

variable {v : UInt8} {r : Registers}

theorem a_addWithCarry (v : UInt8) (r : Registers) :
    (r.addWithCarry v).a.toNat + (r.addWithCarry v).status.carry.toNat * 256 =
      r.a.toNat + v.toNat + r.status.carry.toNat := by
  have ha := r.a.toNat_lt
  have hv := v.toNat_lt
  have hc := Bool.toNat_le r.status.carry
  obtain ⟨hresult, hcarry⟩ := holds_addWithCarry v r
  rw [hresult, hcarry]
  by_cases hsum : 256 ≤ r.a.toNat + v.toNat + r.status.carry.toNat
  · rw [decide_eq_true hsum, Bool.toNat_true]
    omega
  · rw [decide_eq_false hsum, Bool.toNat_false]
    omega

/-- V says that the sum of the signed numbers does not fit into a byte. -/
theorem overflow_addWithCarry (v : UInt8) (r : Registers) :
    (r.addWithCarry v).status.overflow = true ↔
      ¬ (-128 ≤ r.a.toInt8.toInt + v.toInt8.toInt + r.status.carry.toNat ∧
        r.a.toInt8.toInt + v.toInt8.toInt + r.status.carry.toNat ≤ 127) := by
  have ha := r.a.toNat_lt
  have hv := v.toNat_lt
  have hc := Bool.toNat_le r.status.carry
  have hresult : (UInt8.ofNat (r.a.toNat + v.toNat + r.status.carry.toNat)).toNat =
      (r.a.toNat + v.toNat + r.status.carry.toNat) % 256 := UInt8.toNat_ofNat'
  show ((Byte.bit r.a 7 !=
      Byte.bit (UInt8.ofNat (r.a.toNat + v.toNat + r.status.carry.toNat)) 7) &&
    (Byte.bit v 7 !=
      Byte.bit (UInt8.ofNat (r.a.toNat + v.toNat + r.status.carry.toNat)) 7)) = true ↔ _
  rw [Byte.bit_seven, Byte.bit_seven, Byte.bit_seven, hresult, toInt_toInt8_eq_ite,
    toInt_toInt8_eq_ite, Bool.and_eq_true, bne_iff_ne, bne_iff_ne, Ne, decide_eq_decide, Ne,
    decide_eq_decide]
  omega

end Registers

/-- The byte that an operation adds to A, together with the carry. -/
def Operation.addend (operation : Operation) (v : UInt8) : UInt8 :=
  if operation = .sbc then ~~~v else v

namespace Machine

/-- The machine is about to execute an operation on the operand `v`, in whatever mode. -/
def Executing (m : Machine) (operation : Operation) (v : UInt8) : Prop :=
  ∃ i, m.instruction? = some i ∧ i.operation = operation ∧ m.operandValue i = v

/-- Whether instruction `k` of a row that a machine finds is an operation on a byte. -/
def performs (m : Machine) (row : List Instruction) (k : Nat) (operation : Operation)
    (v : UInt8) : Bool :=
  row[k]?.any fun i => i.operation == operation && (m.applied (row.take k)).operandValue i == v

/-- A run that combines two numbers of `n` digits: for each digit of the first an LDA of it and
then, in the next step, an operation on the digit of the second. The pair for digit `k` comes after
`start k` steps. What is executed between two pairs, to put a digit away for instance, does not own
the carry. -/
structure Combines (m : Machine) (operation : Operation) (x y : Nat → UInt8) (n : Nat)
    (start : Nat → Nat) : Prop where
  first : start 0 = 0
  loads : ∀ k < n, (m.after (start k)).Executing .lda (x k)
  combines : ∀ k < n, (m.after (start k + 1)).Executing operation (y k)
  ordered : ∀ k, k + 1 < n → start k + 2 ≤ start (k + 1)
  between : ∀ k, k + 1 < n → ∀ j, start k + 2 ≤ j → j < start (k + 1) →
    ∀ other ∈ (m.after j).operation?, other ∉ Place.carry.owners

/-- The digits that a run leaves in A, one after each of its pairs. -/
def digits (m : Machine) (start : Nat → Nat) (k : Nat) : UInt8 :=
  (m.after (start k + 2)).registers.a

/-- The carry into digit `k`. -/
def carryInto (m : Machine) (start : Nat → Nat) : Nat → Bool
  | 0 => m.registers.status.carry
  | k + 1 => (m.after (start k + 2)).registers.status.carry

variable {m : Machine} {operation : Operation} {x y : Nat → UInt8} {v : UInt8} {n k : Nat}
  {start : Nat → Nat}

theorem executing_of_finds {row : List Instruction} (h : m.finds row)
    (hk : m.performs row k operation v) : (m.after k).Executing operation v := by
  obtain ⟨i, hi, hperforms⟩ := (Option.any_eq_true _ _).mp hk
  rw [Bool.and_eq_true, beq_iff_eq, beq_iff_eq] at hperforms
  have hlength : k < row.length := (List.getElem?_eq_some_iff.mp hi).1
  refine ⟨i, instruction?_of_finds h hi, hperforms.1, ?_⟩
  rw [after_of_finds h (Nat.le_of_lt hlength), hperforms.2]

theorem registers_of_executing {use : UInt8 → Registers → Registers}
    (h : m.Executing operation v) (huse : operation.effect = .read use) :
    m.step.2.registers = use v m.registers := by
  obtain ⟨i, hi, rfl, rfl⟩ := h
  have hpulls : i.operation.pulls = 0 := by rw [← Operation.pulls_effect, huse]; rfl
  have hstores : i.operation.storesOperand = false := by
    rw [← Operation.storesOperand_effect, huse]
    rfl
  rw [registers_step hi hpulls, hstores, huse]
  rfl

theorem registers_of_lda (h : m.Executing .lda v) : m.step.2.registers = m.registers.setA v :=
  registers_of_executing h rfl

theorem registers_of_addend (hoperation : operation = .adc ∨ operation = .sbc)
    (h : m.Executing operation v) :
    m.step.2.registers = m.registers.addWithCarry (operation.addend v) := by
  rcases hoperation with rfl | rfl
  · show m.step.2.registers = Registers.addWithCarry v m.registers
    exact registers_of_executing h rfl
  · show m.step.2.registers = Registers.subtractWithCarry v m.registers
    exact registers_of_executing h rfl

theorem carry_after {s t : Nat} (hst : s ≤ t)
    (h : ∀ j, s ≤ j → j < t → ∀ other ∈ (m.after j).operation?, other ∉ Place.carry.owners) :
    (m.after t).registers.status.carry = (m.after s).registers.status.carry := by
  induction t, hst using Nat.le_induction with
  | base => rfl
  | succ t hst ih =>
      have hstep : Place.carry.read (m.after t).step.2.registers =
          Place.carry.read (m.after t).registers :=
        read_step_of_notMem_owners (by decide) (h t hst (Nat.lt_succ_self t))
      rw [after_succ]
      exact hstep.trans (ih fun j hj hjt => h j hj (Nat.lt_succ_of_lt hjt))

namespace Combines

theorem carry_start (h : m.Combines operation x y n start) (hk : k < n) :
    (m.after (start k)).registers.status.carry = m.carryInto start k := by
  cases k with
  | zero =>
      rw [h.first]
      rfl
  | succ k => exact carry_after (h.ordered k hk) (h.between k hk)

/-- A pair is one addition, of the digit of the second number to that of the first. -/
theorem registers_pair (h : m.Combines operation x y n start)
    (hoperation : operation = .adc ∨ operation = .sbc) (hk : k < n) :
    ∃ r : Registers, (m.after (start k + 2)).registers = r.addWithCarry (operation.addend (y k)) ∧
      r.a = x k ∧ r.status.carry = m.carryInto start k := by
  have hload : (m.after (start k + 1)).registers = (m.after (start k)).registers.setA (x k) := by
    rw [after_succ]
    exact registers_of_lda (h.loads k hk)
  refine ⟨(m.after (start k + 1)).registers, ?_, ?_, ?_⟩
  · rw [after_succ]
    exact registers_of_addend hoperation (h.combines k hk)
  · rw [hload]
    rfl
  · rw [hload, ← h.carry_start hk]
    rfl

/-- The digits so far are those of the sum, up to the carry that they leave. -/
theorem value_digits (h : m.Combines operation x y n start)
    (hoperation : operation = .adc ∨ operation = .sbc) :
    ∀ k ≤ n, value (m.digits start) k + (m.carryInto start k).toNat * 256 ^ k =
      value x k + value (fun i => operation.addend (y i)) k + (m.carryInto start 0).toNat := by
  intro k
  induction k with
  | zero =>
      intro _
      simp [value]
  | succ k ih =>
      intro hk
      obtain ⟨r, hpair, ha, hcarry⟩ := h.registers_pair hoperation hk
      have hdigit := Registers.a_addWithCarry (operation.addend (y k)) r
      rw [← hpair, ha, hcarry] at hdigit
      have hlow := ih (Nat.le_of_lt hk)
      rw [value_succ, value_succ, value_succ, pow_succ]
      show value (m.digits start) k + (m.after (start k + 2)).registers.a.toNat * 256 ^ k +
        (m.after (start k + 2)).registers.status.carry.toNat * (256 ^ k * 256) = _
      linear_combination hlow + 256 ^ k * hdigit

/-- The last addition judges the sign of the sum of the whole numbers. -/
theorem overflow_last (h : m.Combines operation x y (n + 1) start)
    (hoperation : operation = .adc ∨ operation = .sbc) :
    (m.after (start n + 2)).registers.status.overflow = true ↔
      ¬ Fits (n + 1) (signedValue x (n + 1) +
        signedValue (fun i => operation.addend (y i)) (n + 1) + (m.carryInto start 0).toNat) := by
  obtain ⟨r, hpair, ha, hcarry⟩ := h.registers_pair hoperation (Nat.lt_succ_self n)
  have hlow : ((value (m.digits start) n : Nat) : Int) + (m.carryInto start n).toNat * 256 ^ n =
      value x n + value (fun i => operation.addend (y i)) n + (m.carryInto start 0).toNat := by
    exact_mod_cast h.value_digits hoperation n (Nat.le_succ n)
  have hsum : signedValue x (n + 1) + signedValue (fun i => operation.addend (y i)) (n + 1) +
      (m.carryInto start 0).toNat = value (m.digits start) n +
        ((x n).toInt8.toInt + (operation.addend (y n)).toInt8.toInt +
          (m.carryInto start n).toNat) * 256 ^ n := by
    rw [signedValue_succ, signedValue_succ]
    linear_combination -hlow
  rw [hsum, fits_succ_iff (value_lt _ n), hpair, Registers.overflow_addWithCarry, ha, hcarry]

theorem describes_last (h : m.Combines operation x y (n + 1) start)
    (hoperation : operation = .adc ∨ operation = .sbc) :
    (m.after (start n + 2)).registers.status.negative = Byte.bit (m.digits start n) 7 ∧
      (m.after (start n + 2)).registers.status.zero = (m.digits start n == 0) := by
  obtain ⟨r, hpair, -, -⟩ := h.registers_pair hoperation (Nat.lt_succ_self n)
  rw [digits, hpair]
  exact ⟨rfl, rfl⟩

end Combines

/-- A run of LDA and ADC over the digits of two numbers computes their sum, and one of LDA and SBC
their difference, with C as the carry or the borrow inverted. V says that the result as a signed
number does not fit, N and Z describe the last digit. -/
theorem long_arithmetic (m : Machine) (x y : Nat → UInt8) (n : Nat) (start : Nat → Nat)
    (hn : 1 ≤ n) :
    let r := m.digits start
    let c := m.registers.status.carry.toNat
    let s := (m.after (start (n - 1) + 2)).registers.status
    (m.Combines .adc x y n start →
      value r n + s.carry.toNat * 256 ^ n = value x n + value y n + c ∧
      (s.overflow = true ↔ ¬ Fits n (signedValue x n + signedValue y n + c)) ∧
      s.negative = Byte.bit (r (n - 1)) 7 ∧ s.zero = (r (n - 1) == 0)) ∧
    (m.Combines .sbc x y n start →
      (value r n : Int) - (1 - s.carry.toNat) * 256 ^ n = value x n - value y n - (1 - c) ∧
      (s.overflow = true ↔ ¬ Fits n (signedValue x n - signedValue y n - (1 - c))) ∧
      s.negative = Byte.bit (r (n - 1)) 7 ∧ s.zero = (r (n - 1) == 0)) := by
  intro r c s
  obtain ⟨n, rfl⟩ := Nat.exists_eq_add_of_le' hn
  refine ⟨fun h => ⟨?_, ?_, h.describes_last (.inl rfl)⟩,
    fun h => ⟨?_, ?_, h.describes_last (.inr rfl)⟩⟩
  · exact h.value_digits (.inl rfl) (n + 1) (Nat.le_refl _)
  · exact h.overflow_last (.inl rfl)
  · have hsum : (value r (n + 1) : Int) + s.carry.toNat * 256 ^ (n + 1) =
        value x (n + 1) + value (fun i => ~~~y i) (n + 1) + c := by
      exact_mod_cast h.value_digits (.inr rfl) (n + 1) (Nat.le_refl _)
    have hcomplement : (value (fun i => ~~~y i) (n + 1) : Int) + value y (n + 1) + 1 =
        256 ^ (n + 1) := by
      exact_mod_cast value_complement y (n + 1)
    linear_combination hsum + hcomplement
  · have hdifference : signedValue x (n + 1) - signedValue y (n + 1) - (1 - c) =
        signedValue x (n + 1) + signedValue (fun i => ~~~y i) (n + 1) + c := by
      linear_combination -signedValue_complement y n
    rw [hdifference]
    exact h.overflow_last (.inr rfl)

/-- Two digits with a carry into the first, while D is set. The first result is put away. -/
theorem long_arithmetic_two_digits :
    let m (opcode : UInt8) : Machine :=
      ({ registers := { status := { carry := true, decimal := true } } } : Machine).load 0
        [0xA9, 0xFF, opcode, 0x7F, 0x85, 0x20, 0xA5, 0x0A, opcode, 0x00, 0x7F]
    let x (k : Nat) : UInt8 := if k = 0 then 0xFF else 0x7F
    let y (k : Nat) : UInt8 := if k = 0 then 0x7F else 0x00
    let start (k : Nat) := 3 * k
    1 ≤ 2 ∧ (m 0x69).Combines .adc x y 2 start ∧ (m 0xE9).Combines .sbc x y 2 start ∧
      value ((m 0x69).digits start) 2 = 0x7FFF + 0x007F + 1 ∧
      ((m 0x69).after 5).registers.status.overflow = true ∧
      value ((m 0xE9).digits start) 2 = 0x7FFF - 0x007F ∧
      ((m 0xE9).after 5).registers.status.overflow = false := by
  intro m x y start
  let row (i : Instruction) : List Instruction :=
    [⟨0xA9, .lda, .immediate, 2⟩, i, ⟨0x85, .sta, .zeroPage, 3⟩, ⟨0xA5, .lda, .zeroPage, 3⟩, i]
  have hcombines (opcode : UInt8) (i : Instruction) (hrow : (m opcode).finds (row i))
      (hloads : ∀ k < 2, (m opcode).performs (row i) (start k) .lda (x k))
      (hsecond : ∀ k < 2, (m opcode).performs (row i) (start k + 1) i.operation (y k)) :
      (m opcode).Combines i.operation x y 2 start := by
    refine ⟨rfl, fun k hk => executing_of_finds hrow (hloads k hk),
      fun k hk => executing_of_finds hrow (hsecond k hk), fun k _ => ?_,
      fun k hk j hj hlt other hother => ?_⟩
    · simp only [start]
      omega
    · obtain ⟨rfl, rfl⟩ : k = 0 ∧ j = 2 := by
        simp only [start] at hj hlt
        omega
      rw [operation?_of_instruction? (instruction?_of_finds hrow rfl)] at hother
      obtain rfl := Option.some.inj hother
      decide
  have hadc := hcombines 0x69 ⟨0x69, .adc, .immediate, 2⟩ (by decide +kernel) (by decide +kernel)
    (by decide +kernel)
  have hsbc := hcombines 0xE9 ⟨0xE9, .sbc, .immediate, 2⟩ (by decide +kernel) (by decide +kernel)
    (by decide +kernel)
  have hx : value x 2 = 0x7FFF := by decide +kernel
  have hy : value y 2 = 0x007F := by decide +kernel
  have hsx : signedValue x 2 = 0x7FFF := by decide +kernel
  have hsy : signedValue y 2 = 0x007F := by decide +kernel
  have hc (opcode : UInt8) : (m opcode).registers.status.carry.toNat = 1 := rfl
  obtain ⟨hsum, hover, -⟩ := (long_arithmetic (m 0x69) x y 2 start (by decide)).1 hadc
  obtain ⟨hdifference, hunder, -⟩ := (long_arithmetic (m 0xE9) x y 2 start (by decide)).2 hsbc
  rw [hc, hx, hy] at hsum hdifference
  rw [hc, hsx, hsy] at hover hunder
  have hlt := value_lt ((m 0xE9).digits start) 2
  have hborrow := Bool.toNat_le ((m 0xE9).after 5).registers.status.carry
  refine ⟨by decide, hadc, hsbc, by omega, hover.mpr ?_, by omega, ?_⟩
  · simp [Fits]
  · rw [Bool.eq_false_iff, Ne, hunder, not_not]
    simp [Fits]

end Machine

end Core6502
