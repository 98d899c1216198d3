import DeskCalculator.Proofs.Split.Settling

/-!
Accounts of a bill split by weight, over exact amounts. Two layers of rounding lie between the
total and the money that is paid: the regular share is rounded, and each group's share is rounded
again from the rounded regular share. Either rounding moves an amount in one direction only and by
less than its unit, so what is left over is a sum of gaps that all have the same sign, one for each
share and one more for each member of a group.
-/
namespace DeskCalculator.Split

def Rounding.unit : Rounding → Nat
  | truncate => 1
  | upToHundred => 100

theorem Rounding.apply_truncate (x : Rat) : Rounding.apply x .truncate = (⌊x⌋ : Rat) := rfl

theorem Rounding.apply_upToHundred (x : Rat) :
    Rounding.apply x .upToHundred = (⌈x / 100⌉ : Rat) * 100 := by
  have hceil : ⌈x / 100⌉ = (x / 100).ceil := by
    rw [Rat.ceil_eq_neg_floor_neg]
    rfl
  rw [hceil]
  rfl

theorem Rounding.exists_apply_eq (rounding : Rounding) (x : Rat) (hx : 0 ≤ x) :
    ∃ n : Nat, rounding.apply x = rounding.unit * n := by
  cases rounding with
  | truncate =>
    obtain ⟨n, hn⟩ := Int.eq_ofNat_of_zero_le (Int.floor_nonneg.mpr hx)
    exact ⟨n, by rw [apply_truncate, hn]; simp [unit]⟩
  | upToHundred =>
    have hquot : 0 ≤ x / 100 := by positivity
    obtain ⟨n, hn⟩ := Int.eq_ofNat_of_zero_le (Int.ceil_nonneg hquot)
    exact ⟨n, by rw [apply_upToHundred, hn]; simp [unit, mul_comm]⟩

theorem Rounding.leftover_apply (rounding : Rounding) (x : Rat) :
    0 ≤ rounding.leftover x (rounding.apply x) ∧
      rounding.leftover x (rounding.apply x) < rounding.unit := by
  cases rounding with
  | truncate =>
    rw [apply_truncate]
    have hle := Int.floor_le x
    have hlt := Int.lt_floor_add_one x
    simp only [leftover, unit, Nat.cast_one]
    exact ⟨by linarith, by linarith⟩
  | upToHundred =>
    rw [apply_upToHundred]
    have hle := Int.le_ceil (x / 100)
    have hlt := Int.ceil_lt_add_one (x / 100)
    simp only [leftover, unit, Nat.cast_ofNat]
    exact ⟨by linarith, by linarith⟩

theorem Rounding.leftover_mul (rounding : Rounding) (k exact paid : Rat) :
    k * rounding.leftover exact paid = rounding.leftover (k * exact) (k * paid) := by
  cases rounding <;> exact mul_sub ..

theorem Rounding.leftover_add (rounding : Rounding) (a b c d : Rat) :
    rounding.leftover a b + rounding.leftover c d = rounding.leftover (a + c) (b + d) := by
  cases rounding <;> simp only [leftover] <;> ring

theorem Rounding.leftover_trans (rounding : Rounding) (a b c : Rat) :
    rounding.leftover a b + rounding.leftover b c = rounding.leftover a c := by
  cases rounding <;> simp only [leftover] <;> ring

theorem sum_eq (amounts : List Rat) : sum amounts = amounts.sum := List.sum_eq_foldl.symm

/-- The regular shares that the members of all groups pay. -/
def weight (groups : List (Group Rat)) : Rat := (groups.map fun g => (g.count : Rat) * g.ratio).sum

def groupsPaid (groups : List (GroupShare Rat)) : Rat :=
  (groups.map fun g => g.pay * (g.count : Rat)).sum

def shares (people : Nat) (groups : List (Group Rat)) : Rat :=
  (people - headcount groups : Nat) + weight groups

theorem paidTotal_eq (regularPay : Rat) (regularCount : Nat) (groups : List (GroupShare Rat)) :
    paidTotal regularPay regularCount groups = regularPay * regularCount + groupsPaid groups := by
  rw [paidTotal, sum_eq]
  rfl

theorem divisor_eq (people : Nat) (groups : List (Group Rat)) :
    divisor people groups = shares people groups := by
  rw [divisor, sum_eq]
  rfl

variable {groups : List (Group Rat)} (hratios : ∀ g ∈ groups, 0 < g.ratio)
include hratios

theorem weight_nonneg : 0 ≤ weight groups := by
  refine List.sum_nonneg ?_
  intro amount hmem
  obtain ⟨g, hg, rfl⟩ := List.mem_map.mp hmem
  have := hratios g hg
  positivity

theorem weight_pos (hheads : 0 < headcount groups) : 0 < weight groups := by
  induction groups with
  | nil => exact absurd hheads (by simp [headcount])
  | cons g rest ih =>
    obtain ⟨hg, hrest⟩ := List.forall_mem_cons.mp hratios
    have hcons : weight (g :: rest) = g.count * g.ratio + weight rest := List.sum_cons
    have hnonneg := weight_nonneg hrest
    rw [hcons]
    rcases Nat.eq_zero_or_pos g.count with hzero | hpos
    · have hheads : 0 < headcount rest := by
        simpa [headcount, hzero] using hheads
      have := ih hrest hheads
      positivity
    · have : (0 : Rat) < g.count := by exact_mod_cast hpos
      positivity

theorem shares_pos {people : Nat} (hpeople : 1 ≤ people) : 0 < shares people groups := by
  have hnonneg := weight_nonneg hratios
  rcases Nat.eq_zero_or_pos (headcount groups) with hzero | hpos
  · have : (1 : Rat) ≤ (people - headcount groups : Nat) := by
      exact_mod_cast (by omega : 1 ≤ people - headcount groups)
    rw [shares]
    linarith
  · have := weight_pos hratios hpos
    rw [shares]
    positivity

omit hratios

/-- The second layer: from the rounded regular share, each member of a group leaves over a gap of
its own. -/
theorem groups_leftover (rounding : Rounding) (regularPay : Rat) (groups : List (Group Rat)) :
    let left := rounding.leftover (regularPay * weight groups)
      (groupsPaid (groups.map (Group.share rounding regularPay)))
    0 ≤ left ∧ left ≤ rounding.unit * headcount groups := by
  induction groups with
  | nil => cases rounding <;> simp [Rounding.leftover, weight, groupsPaid, headcount]
  | cons g rest ih =>
    obtain ⟨hnonneg, hle⟩ := ih
    obtain ⟨hgap, hgap'⟩ := rounding.leftover_apply (regularPay * g.ratio)
    have hweight : regularPay * weight (g :: rest) =
        g.count * (regularPay * g.ratio) + regularPay * weight rest := by
      rw [weight, List.map_cons, List.sum_cons, ← weight]
      ring
    have hpaid : groupsPaid ((g :: rest).map (Group.share rounding regularPay)) =
        g.count * rounding.apply (regularPay * g.ratio) +
          groupsPaid (rest.map (Group.share rounding regularPay)) := by
      rw [groupsPaid, List.map_cons, List.map_cons, List.sum_cons, ← groupsPaid, mul_comm]
      rfl
    have hheads : (headcount (g :: rest) : Rat) = g.count + headcount rest := by
      rw [headcount, List.map_cons, List.sum_cons, ← headcount, Nat.cast_add]
    have hcount : (0 : Rat) ≤ g.count := by positivity
    have hmul := mul_le_mul_of_nonneg_left hgap'.le hcount
    dsimp only
    rw [hweight, hpaid, ← rounding.leftover_add, ← rounding.leftover_mul, hheads]
    exact ⟨by positivity, by linarith⟩

include hratios in
/-- Both layers together: less than a unit for each share and for each member of a group. -/
theorem paid_leftover (rounding : Rounding) (total : Rat) {people : Nat} (hpeople : 1 ≤ people) :
    let regularPay := rounding.apply (total / shares people groups)
    let left := rounding.leftover total (paidTotal regularPay (people - headcount groups)
      (groups.map (Group.share rounding regularPay)))
    0 ≤ left ∧ left < rounding.unit * (shares people groups + headcount groups) := by
  intro regularPay left
  have hshares := shares_pos hratios hpeople
  obtain ⟨hgap, hgap'⟩ := rounding.leftover_apply (total / shares people groups)
  obtain ⟨hnonneg, hle⟩ := groups_leftover rounding regularPay groups
  -- Between the total and the money paid stands what would be paid if only the regular share were
  -- rounded.
  have hregular : rounding.leftover total (shares people groups * regularPay) =
      shares people groups * rounding.leftover (total / shares people groups) regularPay := by
    rw [rounding.leftover_mul, mul_div_cancel₀ _ hshares.ne']
  have hgroups : rounding.leftover (shares people groups * regularPay)
      (paidTotal regularPay (people - headcount groups)
        (groups.map (Group.share rounding regularPay))) =
      rounding.leftover (regularPay * weight groups)
        (groupsPaid (groups.map (Group.share rounding regularPay))) := by
    rw [paidTotal_eq]
    cases rounding <;> simp only [Rounding.leftover, shares] <;> ring
  have hleft : left = shares people groups *
        rounding.leftover (total / shares people groups) regularPay +
      rounding.leftover (regularPay * weight groups)
        (groupsPaid (groups.map (Group.share rounding regularPay))) := by
    rw [← hregular, ← hgroups, rounding.leftover_trans]
  have hmul := mul_lt_mul_of_pos_left hgap' hshares
  rw [hleft]
  exact ⟨by positivity, by linarith⟩

/-- The accounts of a settlement. Payments are natural multiples of the unit of the rounding, and
payments and remainder make up the total: what truncation leaves over is missing, and what rounding
up leaves over has been collected. `bound` counts the units that may be left over. -/
structure Settlement.Balances (s : Settlement Rat) (rounding : Rounding) (total : Rat)
    (people : Nat) (bound : Rat) : Prop where
  payable : ∀ pay ∈ s.pays, ∃ n : Nat, pay = rounding.unit * n
  balanced : match rounding with
    | .truncate => s.collected people + s.remainder = total
    | .upToHundred => s.collected people - s.remainder = total
  remainder_nonneg : 0 ≤ s.remainder
  remainder_lt : s.remainder < rounding.unit * bound

include hratios in
theorem settleByWeight_eq_settled (rounding : Rounding) {total : Rat} {people : Nat}
    (htotal : 0 < total) (hpeople : 1 ≤ people) (hheads : headcount groups ≤ people) :
    settleByWeight total people groups rounding = .ok (settled total people groups rounding) := by
  rw [settleByWeight_eq_ok_iff, checkBill_eq_ok_iff, divisor_eq]
  refine ⟨⟨rfl, decide_eq_true htotal, hpeople⟩, ?_, hheads, ?_, rfl⟩
  · intro g hg
    exact decide_eq_true (hratios g hg)
  · exact beq_false_of_ne (shares_pos hratios hpeople).ne'

/-- A bill that is split by weight is settled, for the groups it names; the remainder has the sign
that its rounding promises and is less than a unit for each share and each member of a group. -/
theorem settleByWeight_balances (total : Rat) (people : Nat) (groups : List (Group Rat))
    (rounding : Rounding) (htotal : 0 < total) (hpeople : 1 ≤ people)
    (hratios : ∀ g ∈ groups, 0 < g.ratio) (hheads : headcount groups ≤ people) :
    ∃ s, settleByWeight total people groups rounding = .ok s ∧
      s.groups.map GroupShare.toGroup = groups ∧
      s.Balances rounding total people (shares people groups + headcount groups) := by
  refine ⟨_, settleByWeight_eq_settled hratios rounding htotal hpeople hheads, ?_, ?_⟩
  · simp [settled, Settlement.groups, Group.share, Function.comp_def]
  · obtain ⟨hnonneg, hlt⟩ := paid_leftover hratios rounding total hpeople
    have hregular : 0 ≤ total / shares people groups :=
      div_nonneg htotal.le (shares_pos hratios hpeople).le
    simp only [settled, divisor_eq]
    refine ⟨?_, ?_, hnonneg, hlt⟩
    · intro pay hpay
      obtain ⟨n, hn⟩ := rounding.exists_apply_eq _ hregular
      rcases List.mem_cons.mp hpay with rfl | hpay
      · exact ⟨n, hn⟩
      · simp only [Settlement.groups, List.map_map, List.mem_map] at hpay
        obtain ⟨g, hg, rfl⟩ := hpay
        have hshare : 0 ≤ rounding.apply (total / shares people groups) * g.ratio := by
          have := hratios g hg
          rw [hn]
          positivity
        exact rounding.exists_apply_eq _ hshare
    · cases rounding with
      | truncate => exact add_sub_cancel _ _
      | upToHundred => exact sub_sub_cancel _ _

/-- A bill of a thousand for five people, three of them in two groups with ratios of their own. -/
theorem settleByWeight_balances_of_two_groups :
    let groups : List (Group Rat) := [⟨1, 3 / 2⟩, ⟨2, 1 / 3⟩]
    (0 : Rat) < 1000 ∧ 1 ≤ 5 ∧ (∀ g ∈ groups, 0 < g.ratio) ∧ headcount groups ≤ 5 ∧
      ∃ s, settleByWeight (1000 : Rat) 5 groups .truncate = .ok s ∧
        s.groups.map GroupShare.toGroup = groups ∧
        s.Balances .truncate 1000 5 (shares 5 groups + headcount groups) := by
  intro groups
  have hratios : ∀ g ∈ groups, 0 < g.ratio := by decide +kernel
  have hheads : headcount groups ≤ 5 := by decide
  exact ⟨by norm_num, by norm_num, hratios, hheads,
    settleByWeight_balances 1000 5 groups .truncate (by norm_num) (by norm_num) hratios hheads⟩

end DeskCalculator.Split
