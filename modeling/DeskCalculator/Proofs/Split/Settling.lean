import DeskCalculator.Proofs.Outcome
import DeskCalculator.Split.Settlement
import Mathlib

/-!
Which bills are settled, and what the settlement is. Every check that a bill must pass stands here
once, for any kind of amount.
-/
namespace DeskCalculator.Split

variable {α : Type} [Amount α]

/-- What rounding leaves over when `paid` stands for `exact`: money still missing, or money in
excess. -/
def Rounding.leftover (exact paid : α) : Rounding → α
  | truncate => exact - paid
  | upToHundred => paid - exact

def Settlement.pays (s : Settlement α) : List α := s.regularPay :: s.groups.map GroupShare.pay

def headcount (groups : List (Group α)) : Nat := (groups.map Group.count).sum

def divisor (people : Nat) (groups : List (Group α)) : α :=
  Amount.ofNat (people - headcount groups) +
    sum (groups.map fun group => Amount.ofNat group.count * group.ratio)

def settled (total : α) (people : Nat) (groups : List (Group α)) (rounding : Rounding) :
    Settlement α :=
  let regularPay := rounding.apply (total / divisor people groups)
  let groupShares := groups.map (Group.share rounding regularPay)
  .weighted regularPay (people - headcount groups) groupShares
    (rounding.leftover total (paidTotal regularPay (people - headcount groups) groupShares))

def evenlySettled (total : α) (people : Nat) (rounding : Rounding) : Settlement α :=
  let perPerson := rounding.apply (total / Amount.ofNat people)
  .even perPerson (match rounding with
    | .truncate => Amount.remainder total (Amount.ofNat people)
    | .upToHundred => perPerson * Amount.ofNat people - total)

theorem checkBill_eq_ok_iff {total : α} {people : Nat} :
    checkBill total people = .ok () ↔
      Amount.isFinite total = true ∧ Amount.isPositive total = true ∧ 1 ≤ people := by
  rw [checkBill]
  split_ifs with htotal hpeople
  · simp only [false_iff]
    rintro ⟨hfinite, hpositive, -⟩
    simp [hfinite, hpositive] at htotal
  · simp only [false_iff]
    omega
  · simp only [Bool.not_eq_true, Bool.not_eq_false', Bool.and_eq_true] at htotal
    simp only [true_iff]
    exact ⟨htotal.1, htotal.2, by omega⟩

theorem settleEvenly_eq_ok_iff {total : α} {people : Nat} {rounding : Rounding}
    {s : Settlement α} :
    settleEvenly total people rounding = .ok s ↔
      checkBill total people = .ok () ∧ evenlySettled total people rounding = s := by
  rw [settleEvenly, bind_eq_ok_iff]
  constructor
  · rintro ⟨⟨⟩, hbill, hs⟩
    exact ⟨hbill, Except.ok.inj hs⟩
  · rintro ⟨hbill, rfl⟩
    exact ⟨(), hbill, rfl⟩

/-- The checks in their order, and the settlement behind them. -/
theorem settleByWeight_eq_bind (total : α) (people : Nat) (groups : List (Group α))
    (rounding : Rounding) :
    settleByWeight total people groups rounding = checkBill total people >>= fun _ =>
      match groups.find? fun g => !isUsable g.ratio with
      | some g => .error (.ratioUnusable g.ratio)
      | none =>
        if people < headcount groups then .error (.groupsExceedPeople (headcount groups) people)
        else if Amount.isZero (divisor people groups) then .error .nobodyPays
        else .ok (settled total people groups rounding) := by
  have hgrouped : groups.foldr (fun g rest => g.count + rest) 0 = headcount groups := by
    rw [headcount, List.sum_eq_foldr, List.foldr_map]
  rw [settleByWeight]
  simp only [hgrouped]
  rfl

/-- A bill is split by weight when every check is passed. -/
theorem settleByWeight_eq_ok_iff {total : α} {people : Nat} {groups : List (Group α)}
    {rounding : Rounding} {s : Settlement α} :
    settleByWeight total people groups rounding = .ok s ↔
      checkBill total people = .ok () ∧ (∀ g ∈ groups, isUsable g.ratio = true) ∧
        headcount groups ≤ people ∧ Amount.isZero (divisor people groups) = false ∧
        settled total people groups rounding = s := by
  have husable : (∀ g ∈ groups, isUsable g.ratio = true) ↔
      groups.find? (fun g => !isUsable g.ratio) = none := by
    simp [List.find?_eq_none]
  rw [husable, settleByWeight_eq_bind, bind_eq_ok_iff, Unique.exists_iff]
  generalize groups.find? (fun g => !isUsable g.ratio) = unusable
  cases unusable with
  | some g => simp
  | none =>
    dsimp only
    split_ifs with hexceed hzero
    · simp [Nat.not_le.mpr hexceed]
    · simp [hzero]
    · simp [hzero, Nat.le_of_not_lt hexceed]

end DeskCalculator.Split
