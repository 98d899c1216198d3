import DeskCalculator.Proofs.Number.Integral
import DeskCalculator.Proofs.Split.Settling
import DeskCalculator.Split.Display

/-!
Bills in doubles, where an amount can leave the range of doubles on its way. No check stands behind
the arithmetic, so a settlement may name payments that nobody can make. What is collected tells:
no step of a settlement is undone by a later one, and from a finite collected amount one reads off
that every payment and the remainder are finite.
-/
namespace DeskCalculator.Split

open Number

def NotBelowZero (x : Float) : Prop := x.isFinite = true → 0 ≤ exact x

namespace NotBelowZero

variable {x y : Float}

theorem ofNat (n : Nat) : NotBelowZero (Number.ofNat n) :=
  fun h => (isRounded_ofNat n).nonneg h (Nat.cast_nonneg n)

theorem add (hx : NotBelowZero x) (hy : NotBelowZero y) : NotBelowZero (x + y) := by
  intro h
  obtain ⟨hx', hy'⟩ := isFinite_of_add h
  exact (isRounded_add hx' hy').nonneg h (add_nonneg (hx hx') (hy hy'))

theorem mul (hx : NotBelowZero x) (hy : NotBelowZero y) : NotBelowZero (x * y) := by
  intro h
  obtain ⟨hx', hy'⟩ := isFinite_of_mul h
  exact (isRounded_mul hx' hy').nonneg h (mul_nonneg (hx hx') (hy hy'))

theorem div (hx : NotBelowZero x) (hy : NotBelowZero y) : NotBelowZero (x / y) := by
  intro h
  obtain ⟨hx', ⟨hy', hne⟩ | hzero⟩ := isFinite_of_div h
  · exact (isRounded_div hx' hy' hne).nonneg h (div_nonneg (hx hx') (hy hy'))
  · exact hzero.ge

theorem floor (hx : NotBelowZero x) : NotBelowZero (Number.floor x) := by
  intro h
  rw [Number.floor, isFinite_integral] at h
  exact exact_integral_nonneg (by simp) h (hx h)

theorem ceil (hx : NotBelowZero x) : NotBelowZero (Number.ceil x) := by
  intro h
  rw [Number.ceil, isFinite_integral] at h
  exact exact_integral_nonneg (by simp) h (hx h)

theorem apply (rounding : Rounding) (hx : NotBelowZero x) : NotBelowZero (rounding.apply x) := by
  cases rounding with
  | truncate => exact hx.floor
  | upToHundred => exact (hx.div (ofNat 100)).ceil.mul (ofNat 100)

theorem sum {amounts : List Float} (h : ∀ x ∈ amounts, NotBelowZero x) :
    NotBelowZero (Split.sum amounts) := by
  have hfold : ∀ {start : Float}, NotBelowZero start →
      NotBelowZero (amounts.foldl (· + ·) start) := by
    induction amounts with
    | nil => exact id
    | cons x rest ih =>
      obtain ⟨hx, hrest⟩ := List.forall_mem_cons.mp h
      intro start hstart
      exact ih hrest (hstart.add hx)
  exact hfold (ofNat 0)

theorem paidTotal {regularPay : Float} (regularCount : Nat) {groups : List (GroupShare Float)}
    (hregular : NotBelowZero regularPay) (hgroups : ∀ g ∈ groups, NotBelowZero g.pay) :
    NotBelowZero (Split.paidTotal regularPay regularCount groups) := by
  apply (hregular.mul (ofNat regularCount)).add
  apply sum
  intro amount hamount
  obtain ⟨g, hg, rfl⟩ := List.mem_map.mp hamount
  exact (hgroups g hg).mul (ofNat g.count)

theorem of_isPositive (hfinite : x.isFinite = true) (hx : Amount.isPositive x = true) :
    NotBelowZero x := by
  have hlt := (lt_iff (by decide +kernel) hfinite).mp (of_decide_eq_true hx)
  intro _
  rw [← exact_zero]
  exact hlt.le

theorem of_isUsable (hx : isUsable x = true) : NotBelowZero x := by
  obtain ⟨hfinite, hpositive⟩ := Bool.and_eq_true_iff.mp hx
  exact of_isPositive hfinite hpositive

theorem divisor {people : Nat} {groups : List (Group Float)}
    (hratios : ∀ g ∈ groups, isUsable g.ratio = true) :
    NotBelowZero (Split.divisor people groups) := by
  apply (ofNat _).add
  apply sum
  intro amount hamount
  obtain ⟨g, hg, rfl⟩ := List.mem_map.mp hamount
  exact (ofNat g.count).mul (of_isUsable (hratios g hg))

end NotBelowZero

theorem isFinite_sub {x y : Float} (hx : x.isFinite = true) (hy : y.isFinite = true)
    (hx' : 0 ≤ exact x) (hy' : 0 ≤ exact y) : (x - y).isFinite = true := by
  apply (isRounded_sub hx hy).isFinite
  have hupper := (le_abs_self _).trans (abs_exact_le_greatest hx)
  have hlower := (le_abs_self _).trans (abs_exact_le_greatest hy)
  exact abs_le.mpr ⟨by linarith, by linarith⟩

/-- A running sum is finite to the end only if it was so all along. -/
theorem isFinite_of_foldl {amounts : List Float} {start : Float}
    (h : (amounts.foldl (· + ·) start).isFinite = true) :
    start.isFinite = true ∧ ∀ x ∈ amounts, x.isFinite = true := by
  induction amounts generalizing start with
  | nil => exact ⟨h, by simp⟩
  | cons x rest ih =>
    obtain ⟨hsum, hrest⟩ := ih h
    obtain ⟨hstart, hx⟩ := isFinite_of_add hsum
    exact ⟨hstart, List.forall_mem_cons.mpr ⟨hx, hrest⟩⟩

theorem isFinite_of_sum {amounts : List Float} (h : (sum amounts).isFinite = true) :
    ∀ x ∈ amounts, x.isFinite = true :=
  (isFinite_of_foldl h).2

theorem isFinite_of_paidTotal {regularPay : Float} {regularCount : Nat}
    {groups : List (GroupShare Float)}
    (h : (paidTotal regularPay regularCount groups).isFinite = true) :
    regularPay.isFinite = true ∧ ∀ g ∈ groups, g.pay.isFinite = true := by
  obtain ⟨hregular, hgroups⟩ := isFinite_of_add h
  refine ⟨(isFinite_of_mul hregular).1, ?_⟩
  intro g hg
  have hmem := List.mem_map_of_mem (f := fun g => g.pay * Amount.ofNat g.count) hg
  exact (isFinite_of_mul (isFinite_of_sum hgroups _ hmem)).1

structure Settlement.IsFinite (s : Settlement Float) (people : Nat) : Prop where
  pays : ∀ pay ∈ s.pays, pay.isFinite = true
  remainder : s.remainder.isFinite = true
  collected : (s.collected people).isFinite = true

theorem isFinite_evenlySettled {total : Float} {people : Nat} {rounding : Rounding}
    (hbill : checkBill total people = .ok ())
    (h : ((evenlySettled total people rounding).collected people).isFinite = true) :
    (evenlySettled total people rounding).IsFinite people := by
  obtain ⟨hfinite, hpositive, hpeople⟩ := checkBill_eq_ok_iff.mp hbill
  have htotal := NotBelowZero.of_isPositive hfinite hpositive
  obtain ⟨hpay, hheads⟩ := isFinite_of_mul h
  refine ⟨?_, ?_, h⟩
  · intro pay hmem
    rwa [List.mem_singleton.mp hmem]
  · cases rounding with
    | truncate =>
      have hdivisor := one_le_exact_ofNat hpeople hheads
      exact isFinite_remainder hfinite hheads (zero_lt_one.trans_le hdivisor).ne'
    | upToHundred =>
      have hcollected := ((htotal.div (.ofNat people)).apply .upToHundred).mul (.ofNat people)
      exact isFinite_sub h hfinite (hcollected h) (htotal hfinite)

/-- If the collected amount is finite, then so is every other amount. -/
theorem isFinite_settled {total : Float} {people : Nat} {groups : List (Group Float)}
    {rounding : Rounding} (hbill : checkBill total people = .ok ())
    (hratios : ∀ g ∈ groups, isUsable g.ratio = true)
    (h : ((settled total people groups rounding).collected people).isFinite = true) :
    (settled total people groups rounding).IsFinite people := by
  obtain ⟨hfinite, hpositive, hpeople⟩ := checkBill_eq_ok_iff.mp hbill
  have htotal := NotBelowZero.of_isPositive hfinite hpositive
  obtain ⟨hregular, hgroups⟩ := isFinite_of_paidTotal h
  refine ⟨?_, ?_, h⟩
  · intro pay hmem
    rcases List.mem_cons.mp hmem with rfl | hmem
    · exact hregular
    · obtain ⟨g, hg, rfl⟩ := List.mem_map.mp hmem
      exact hgroups g hg
  · have hdivisor : NotBelowZero (divisor people groups) := .divisor hratios
    have hpay := (htotal.div hdivisor).apply rounding
    have hcollected : NotBelowZero ((settled total people groups rounding).collected people) := by
      refine .paidTotal _ hpay ?_
      intro share hshare
      obtain ⟨g, hg, rfl⟩ := List.mem_map.mp hshare
      exact (hpay.mul (.of_isUsable (hratios g hg))).apply rounding
    cases rounding with
    | truncate => exact isFinite_sub hfinite h (htotal hfinite) (hcollected h)
    | upToHundred => exact isFinite_sub h hfinite (hcollected h) (htotal hfinite)

/-- A bill is refused as invalid or settled, and the settlement has finite amounts throughout just
when what is collected is finite. -/
theorem settle_invalid_or_isFinite_iff (request : Request Float) :
    (∃ fault, request.settle = .error fault ∧ fault.failure.kind = .invalid) ∨
      ∃ s, request.settle = .ok s ∧
        (s.IsFinite request.people ↔ (s.collected request.people).isFinite = true) := by
  rcases hsettle : request.settle with fault | s
  · exact Or.inl ⟨fault, rfl, rfl⟩
  · refine Or.inr ⟨s, rfl, fun hs => hs.collected, fun hcollected => ?_⟩
    rw [Request.settle] at hsettle
    split at hsettle
    · obtain ⟨hbill, rfl⟩ := settleEvenly_eq_ok_iff.mp hsettle
      exact isFinite_evenlySettled hbill hcollected
    · obtain ⟨hbill, hratios, -, -, rfl⟩ := settleByWeight_eq_ok_iff.mp hsettle
      exact isFinite_settled hbill hratios hcollected

/-- One person who pays a tiny share is charged more than any double. -/
theorem settle_infinite_of_tiny_ratio :
    ∃ s, Request.settle (⟨100.0, 1, .truncate, [⟨1, 1e-307⟩]⟩ : Request Float) = .ok s ∧
      s.regularPay.isFinite = false ∧ ¬ s.IsFinite 1 := by
  have hpay : (Request.settle (⟨100.0, 1, .truncate, [⟨1, 1e-307⟩]⟩ : Request Float)).toOption.map
      (fun s => s.regularPay.isFinite) = some false := by decide +kernel
  obtain ⟨s, hsettle, hpay⟩ := Option.map_eq_some_iff.mp hpay
  refine ⟨s, toOption_eq_some_iff.mp hsettle, hpay, fun hfinite => ?_⟩
  rw [hfinite.pays _ List.mem_cons_self] at hpay
  exact nomatch hpay

end DeskCalculator.Split
