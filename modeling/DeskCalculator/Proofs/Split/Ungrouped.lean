import DeskCalculator.Proofs.Split.Admission
import DeskCalculator.Proofs.Split.Evenly

/-!
Bills without groups. Splitting one by weight is a second way to what splitting it evenly gives: the
people are counted as shares, to which a sum of no weights is added, and the remainder is taken as a
difference from what is collected. The regular share is the same double, and so is the remainder
as long as the products in between are exact.
-/
namespace DeskCalculator.Split

open Number

theorem divisor_nil {people : ℕ} (hsome : 1 ≤ people) (hpeople : people < 2 ^ 32) :
    divisor people [] = (Number.ofNat people : Float) := by
  have hheads : IsWhole (Number.ofNat people) people := .ofNat (by omega)
  have hne : exact (Number.ofNat people) ≠ 0 := by
    rw [hheads.exact_eq]
    exact_mod_cast (by omega : people ≠ 0)
  exact add_zero_eq hheads.isFinite hne

section Whole

variable {total : Float} {n people : ℕ} (htotal : IsWhole total n) (hpos : 1 ≤ n)
  (hn : n ≤ 2 ^ 52) (hsome : 1 ≤ people) (hpeople : people < 2 ^ 32)
include htotal hpos hn hsome hpeople

/-- What is missing after truncation is the remainder of the division. -/
theorem missing_eq :
    total - paidTotal (Number.floor (total / Number.ofNat people)) people [] =
      Number.ofNat (n % people) := by
  have hheads : IsWhole (Number.ofNat people) people := .ofNat (by omega)
  have hshare := truncated_isWhole htotal hpos hn hsome hpeople
  have hsplit := Nat.div_add_mod' n people
  have hcollected := (hshare.mul hheads (by omega)).add (.ofNat (by norm_num : 0 < 2 ^ 53))
    (by omega)
  have hrest : n - (n / people * people + 0) = n % people := by omega
  rw [← hrest]
  exact htotal.sub_eq hcollected hpos (by omega) (by omega)

theorem excess_eq :
    paidTotal (Rounding.upToHundred.apply (total / Number.ofNat people)) people [] - total =
      Rounding.upToHundred.apply (total / Number.ofNat people) * Number.ofNat people - total := by
  obtain ⟨k, hlow, hhigh⟩ := exists_hundreds hpos hsome
  have hhundreds := hundreds_isWhole htotal hpos hn hsome hpeople hlow hhigh
  obtain ⟨-, hpaid⟩ := paid_isWhole hn hsome hpeople hlow hhundreds
  have hne : exact (Rounding.upToHundred.apply (total / Number.ofNat people)
      * Number.ofNat people) ≠ 0 := by
    have hsomething : 0 < 100 * (k + 1) * people := by positivity
    refine hpaid.exact_eq.trans_ne ?_
    exact_mod_cast hsomething.ne'
  exact congrArg (· - total) (add_zero_eq hpaid.isFinite hne)

/-- What is left over by way of the collected amount is the remainder of the even split. -/
theorem leftover_eq_remainder (rounding : Rounding) :
    rounding.leftover total
        (paidTotal (rounding.apply (total / Number.ofNat people)) people []) =
      (evenlySettled total people rounding).remainder := by
  cases rounding with
  | truncate =>
    have hheads : IsWhole (Number.ofNat people) people := .ofNat (by omega)
    have hremainder := htotal.remainder_eq hheads hpos hsome
    exact (missing_eq htotal hpos hn hsome hpeople).trans hremainder.symm
  | upToHundred => exact excess_eq htotal hpos hn hsome hpeople

end Whole

theorem settleByWeight_nil {total : Float} {people : ℕ} (htotal : IsPayable total)
    (hsome : 1 ≤ people) (hpeople : people < 2 ^ 32) (rounding : Rounding) :
    settleByWeight total people [] rounding =
      .ok (.weighted (rounding.apply (total / Number.ofNat people)) people []
        (rounding.leftover total
          (paidTotal (rounding.apply (total / Number.ofNat people)) people []))) := by
  have hsplittable : IsSplittable total people [] := ⟨htotal, hsome, nofun, Nat.zero_le people⟩
  rw [hsplittable.settleByWeight_eq, settled, divisor_nil hsome hpeople]
  rfl

theorem settleEvenly_of_isPayable {total : Float} {people : ℕ} (htotal : IsPayable total)
    (hsome : 1 ≤ people) (rounding : Rounding) :
    settleEvenly total people rounding =
      .ok (.even (rounding.apply (total / Number.ofNat people))
        (evenlySettled total people rounding).remainder) :=
  settleEvenly_eq_ok_iff.mpr ⟨checkBill_of_isPayable htotal hsome, rfl⟩

/-- Both ways refuse what is no bill, and for the same reason. -/
theorem exists_fault {total : Float} {people : ℕ} (h : ¬ (IsPayable total ∧ 1 ≤ people))
    (rounding : Rounding) :
    ∃ fault, settleByWeight total people [] rounding = .error fault ∧
      settleEvenly total people rounding = .error fault := by
  cases hbill : checkBill total people with
  | ok _ =>
    obtain ⟨hfinite, hpositive, hsome⟩ := checkBill_eq_ok_iff.mp hbill
    exact absurd ⟨isPayable_iff.mpr ⟨hfinite, hpositive⟩, hsome⟩ h
  | error fault =>
    refine ⟨fault, ?_, ?_⟩
    · rw [settleByWeight_eq_bind, hbill]
      rfl
    · rw [settleEvenly, hbill]
      rfl

/-- Without groups, splitting by weight succeeds just when splitting evenly does, and refuses for
the same reason. The regular payment is the same double for the same number of people, and for a
whole total of at most `2 ^ 52` so is the remainder: the difference from what is collected, which
under truncation is the remainder of integer division. -/
theorem settleByWeight_nil_agrees_settleEvenly (total : Float) {people : ℕ} (rounding : Rounding)
    (hpeople : people < 2 ^ 32) :
    (¬ (IsPayable total ∧ 1 ≤ people) ∧
        ∃ fault, settleByWeight total people [] rounding = .error fault ∧
          settleEvenly total people rounding = .error fault) ∨
      (IsPayable total ∧ 1 ≤ people ∧
        ∃ pay leftover remainder,
          settleByWeight total people [] rounding = .ok (.weighted pay people [] leftover) ∧
          settleEvenly total people rounding = .ok (.even pay remainder) ∧
          leftover = rounding.leftover total (paidTotal pay people []) ∧
          ∀ n, IsWhole total n → 1 ≤ n → n ≤ 2 ^ 52 →
            leftover = remainder ∧ (rounding = .truncate → IsWhole remainder (n % people))) := by
  by_cases h : IsPayable total ∧ 1 ≤ people
  · obtain ⟨htotal, hsome⟩ := h
    refine .inr ⟨htotal, hsome, _, _, _, settleByWeight_nil htotal hsome hpeople rounding,
      settleEvenly_of_isPayable htotal hsome rounding, rfl, ?_⟩
    intro n hwhole hpos hn
    refine ⟨leftover_eq_remainder hwhole hpos hn hsome hpeople rounding, ?_⟩
    rintro rfl
    exact hwhole.remainder (.ofNat (by omega)) hpos hsome (by omega)
  · exact .inl ⟨h, exists_fault h rounding⟩

/-- A total of `2 ^ 52` split among seven leaves two, whichever way they are found. -/
theorem settleByWeight_nil_agrees_settleEvenly_of_seven :
    ∃ pay remainder,
      settleByWeight (Number.ofNat (2 ^ 52)) 7 [] .truncate
        = .ok (.weighted pay 7 [] remainder) ∧
      settleEvenly (Number.ofNat (2 ^ 52)) 7 .truncate = .ok (.even pay remainder) ∧
      IsWhole remainder 2 := by
  have hwhole : IsWhole (Number.ofNat (2 ^ 52)) (2 ^ 52) := .ofNat (by norm_num)
  have htotal : IsPayable (Number.ofNat (2 ^ 52)) := by
    refine ⟨hwhole.isFinite, ?_⟩
    rw [hwhole.exact_eq]
    norm_num
  rcases settleByWeight_nil_agrees_settleEvenly (Number.ofNat (2 ^ 52)) .truncate
    (by norm_num : 7 < 2 ^ 32) with ⟨hno, -⟩ | ⟨-, -, pay, leftover, remainder, hweight, heven, -,
      hsame⟩
  · exact absurd ⟨htotal, by norm_num⟩ hno
  · obtain ⟨rfl, hrest⟩ := hsame (2 ^ 52) hwhole (by norm_num) le_rfl
    have htwo : 2 ^ 52 % 7 = 2 := by norm_num
    exact ⟨pay, leftover, hweight, heven, htwo ▸ hrest rfl⟩

end DeskCalculator.Split
