import DeskCalculator.Proofs.Split.Overflow

/-!
Which bills are split by weight. The checks are made in a fixed order, and the first one that fails
names what the bill lacks. Behind them there is always somebody to pay: people outside the groups
count one share each, members of a group count their ratio, and what doubles above zero add up to
is never less than one of them.
-/
namespace DeskCalculator.Split

open Number

structure IsPayable (x : Float) : Prop where
  isFinite : x.isFinite = true
  pos : 0 < exact x

theorem isPayable_iff {x : Float} :
    IsPayable x ↔ Amount.isFinite x = true ∧ Amount.isPositive x = true := by
  have hzero : (0.0 : Float).isFinite = true := by decide +kernel
  constructor
  · intro h
    refine ⟨h.isFinite, decide_eq_true ?_⟩
    rw [lt_iff hzero h.isFinite, exact_zero]
    exact h.pos
  · rintro ⟨hfinite, hpositive⟩
    have hlt := (lt_iff hzero hfinite).mp (of_decide_eq_true hpositive)
    exact ⟨hfinite, by rwa [exact_zero] at hlt⟩

theorem isUsable_iff {ratio : Float} : isUsable ratio = true ↔ IsPayable ratio := by
  rw [isUsable, Bool.and_eq_true, isPayable_iff]

theorem not_isUsable_iff {ratio : Float} : (!isUsable ratio) = true ↔ ¬ IsPayable ratio := by
  rw [Bool.not_eq_true', ← isUsable_iff, Bool.not_eq_true]

structure IsSplittable (total : Float) (people : ℕ) (groups : List (Group Float)) : Prop where
  total_payable : IsPayable total
  somebody : 1 ≤ people
  ratios_payable : ∀ g ∈ groups, IsPayable g.ratio
  members_le : headcount groups ≤ people

/-- The first thing that a bill lacks. Each rule asks for everything that the rules before it
complain about. -/
inductive FirstObstacle (total : Float) (people : ℕ) (groups : List (Group Float)) :
    Fault Float → Prop
  | total (h : ¬ IsPayable total) : FirstObstacle total people groups .totalNotPositive
  | people (htotal : IsPayable total) (h : people = 0) :
      FirstObstacle total people groups .peopleNotPositive
  | ratio (htotal : IsPayable total) (hsome : 1 ≤ people) {before behind : List (Group Float)}
      {g : Group Float} (hgroups : groups = before ++ g :: behind)
      (hbefore : ∀ b ∈ before, IsPayable b.ratio) (h : ¬ IsPayable g.ratio) :
      FirstObstacle total people groups (.ratioUnusable g.ratio)
  | members (htotal : IsPayable total) (hsome : 1 ≤ people)
      (hratios : ∀ g ∈ groups, IsPayable g.ratio) (h : people < headcount groups) :
      FirstObstacle total people groups (.groupsExceedPeople (headcount groups) people)

namespace NotBelowZero

variable {x y : Float}

theorem of_isPayable (h : IsPayable x) : NotBelowZero x := fun _ => h.pos.le

theorem le_add (hx : NotBelowZero x) (hy : NotBelowZero y) (h : (x + y).isFinite = true) :
    exact x ≤ exact (x + y) ∧ exact y ≤ exact (x + y) := by
  obtain ⟨hx', hy'⟩ := isFinite_of_add h
  have hsum := isRounded_add hx' hy'
  have hnonneg := hx hx'
  have hnonneg' := hy hy'
  exact ⟨(isRounded_exact hx').mono hx' hsum h (by linarith),
    (isRounded_exact hy').mono hy' hsum h (by linarith)⟩

/-- A finite running sum is not below its start or any of the amounts. -/
theorem le_foldl {amounts : List Float} (hamounts : ∀ x ∈ amounts, NotBelowZero x) {start : Float}
    (hstart : NotBelowZero start) (h : (amounts.foldl (· + ·) start).isFinite = true) :
    exact start ≤ exact (amounts.foldl (· + ·) start) ∧
      ∀ x ∈ amounts, exact x ≤ exact (amounts.foldl (· + ·) start) := by
  induction amounts generalizing start with
  | nil => exact ⟨le_rfl, by simp⟩
  | cons x rest ih =>
    obtain ⟨hx, hrest⟩ := List.forall_mem_cons.mp hamounts
    obtain ⟨hkept, hall⟩ := ih hrest (hstart.add hx) h
    have hrunning : (rest.foldl (· + ·) (start + x)).isFinite = true := h
    obtain ⟨hleft, hright⟩ := hstart.le_add hx (isFinite_of_foldl hrunning).1
    exact ⟨hleft.trans hkept, List.forall_mem_cons.mpr ⟨hright.trans hkept, hall⟩⟩

end NotBelowZero

/-- A group that has members adds at least the ratio of one of them. -/
theorem ratio_le_weight {g : Group Float} (hg : IsPayable g.ratio) (hcount : 1 ≤ g.count)
    (h : (Number.ofNat g.count * g.ratio).isFinite = true) :
    exact g.ratio ≤ exact (Number.ofNat g.count * g.ratio) := by
  obtain ⟨hmembers, hratio⟩ := isFinite_of_mul h
  have hone := one_le_exact_ofNat hcount hmembers
  refine (isRounded_exact hratio).mono hratio (isRounded_mul hmembers hratio) h ?_
  exact le_mul_of_one_le_left hg.pos.le hone

theorem exists_counted {groups : List (Group Float)} (h : 1 ≤ headcount groups) :
    ∃ g ∈ groups, 1 ≤ g.count := by
  by_contra! hempty
  have hzero : headcount groups = 0 := by
    rw [headcount, List.sum_eq_zero]
    intro count hcount
    obtain ⟨g, hg, rfl⟩ := List.mem_map.mp hcount
    have := hempty g hg
    omega
  omega

/-- Whoever pays, pays for a positive number of shares. -/
theorem divisor_pos {people : ℕ} {groups : List (Group Float)} (hsome : 1 ≤ people)
    (hratios : ∀ g ∈ groups, IsPayable g.ratio)
    (h : (divisor people groups : Float).isFinite = true) :
    0 < exact (divisor people groups) := by
  have hweights : ∀ x ∈ groups.map fun g => Number.ofNat g.count * g.ratio, NotBelowZero x := by
    intro x hx
    obtain ⟨g, hg, rfl⟩ := List.mem_map.mp hx
    exact (NotBelowZero.ofNat g.count).mul (.of_isPayable (hratios g hg))
  obtain ⟨houtside, hinside⟩ := isFinite_of_add h
  obtain ⟨hleft, hright⟩ := (NotBelowZero.ofNat (people - headcount groups)).le_add
    (NotBelowZero.sum hweights) h
  by_cases hall : 1 ≤ people - headcount groups
  · have hone := one_le_exact_ofNat hall houtside
    exact (one_pos.trans_le hone).trans_le hleft
  · obtain ⟨g, hg, hcount⟩ := exists_counted (by omega : 1 ≤ headcount groups)
    have hmem := List.mem_map_of_mem (f := fun g => Number.ofNat g.count * g.ratio) hg
    have hweight := ratio_le_weight (hratios g hg) hcount (isFinite_of_sum hinside _ hmem)
    have hsum := (NotBelowZero.le_foldl hweights (.ofNat 0) hinside).2 _ hmem
    exact (hratios g hg).pos.trans_le (hweight.trans (hsum.trans hright))

section Outcome

variable {total : Float} {people : ℕ} {groups : List (Group Float)} {fault : Fault Float}

theorem checkBill_of_isPayable (htotal : IsPayable total) (hsome : 1 ≤ people) :
    checkBill total people = .ok () := by
  obtain ⟨hfinite, hpositive⟩ := isPayable_iff.mp htotal
  exact checkBill_eq_ok_iff.mpr ⟨hfinite, hpositive, hsome⟩

/-- What can be split is split. -/
theorem IsSplittable.settleByWeight_eq (h : IsSplittable total people groups)
    (rounding : Rounding) :
    settleByWeight total people groups rounding = .ok (settled total people groups rounding) := by
  rw [settleByWeight_eq_ok_iff]
  refine ⟨checkBill_of_isPayable h.total_payable h.somebody, ?_, h.members_le, ?_, rfl⟩
  · intro g hg
    exact isUsable_iff.mpr (h.ratios_payable g hg)
  · rw [Bool.eq_false_iff]
    intro hzero
    obtain ⟨hfinite, hvalue⟩ := (beq_iff (by decide +kernel)).mp hzero
    have hpos := divisor_pos h.somebody h.ratios_payable hfinite
    rw [hvalue, exact_zero] at hpos
    exact lt_irrefl _ hpos

/-- What cannot be split is refused for its first obstacle. -/
theorem FirstObstacle.settleByWeight_eq (h : FirstObstacle total people groups fault)
    (rounding : Rounding) : settleByWeight total people groups rounding = .error fault := by
  rw [settleByWeight_eq_bind]
  cases h with
  | total h =>
    rw [isPayable_iff, ← Bool.and_eq_true, Bool.not_eq_true] at h
    rw [checkBill, h]
    rfl
  | people htotal h =>
    obtain ⟨hfinite, hpositive⟩ := isPayable_iff.mp htotal
    rw [checkBill, hfinite, hpositive, h]
    rfl
  | @ratio htotal hsome before behind g hgroups hbefore h =>
    have hfound : groups.find? (fun g => !isUsable g.ratio) = some g := by
      refine List.find?_eq_some_iff_append.mpr
        ⟨not_isUsable_iff.mpr h, before, behind, hgroups, ?_⟩
      intro b hb
      simpa [isUsable_iff] using hbefore b hb
    rw [checkBill_of_isPayable htotal hsome, hfound]
    rfl
  | members htotal hsome hratios h =>
    have hnone : groups.find? (fun g => !isUsable g.ratio) = none := by
      simpa [List.find?_eq_none, isUsable_iff] using hratios
    rw [checkBill_of_isPayable htotal hsome, hnone]
    exact if_pos h

/-- A bill has everything it needs, or something is the first that it lacks. -/
theorem isSplittable_or_obstacle (total : Float) (people : ℕ) (groups : List (Group Float)) :
    IsSplittable total people groups ∨ ∃ fault, FirstObstacle total people groups fault := by
  by_cases htotal : IsPayable total
  · by_cases hsome : 1 ≤ people
    · by_cases hratios : ∀ g ∈ groups, IsPayable g.ratio
      · by_cases hmembers : headcount groups ≤ people
        · exact .inl ⟨htotal, hsome, hratios, hmembers⟩
        · exact .inr ⟨_, .members htotal hsome hratios (by omega)⟩
      · obtain ⟨g, hfound⟩ : ∃ g, groups.find? (fun g => !isUsable g.ratio) = some g := by
          rw [← Option.isSome_iff_exists, List.find?_isSome]
          simpa only [not_isUsable_iff, not_forall, exists_prop] using hratios
        obtain ⟨hg, before, behind, hgroups, hbefore⟩ := List.find?_eq_some_iff_append.mp hfound
        refine .inr ⟨_, .ratio htotal hsome hgroups ?_ (not_isUsable_iff.mp hg)⟩
        intro b hb
        simpa [isUsable_iff] using hbefore b hb
    · exact .inr ⟨_, .people htotal (by omega)⟩
  · exact .inr ⟨_, .total htotal⟩

end Outcome

/-- Fewer than `2 ^ 32` counts below `2 ^ 32` add up to a number of 64 bits. -/
theorem headcount_lt {groups : List (Group Float)} (hlength : groups.length < 2 ^ 32)
    (hcounts : ∀ g ∈ groups, g.count < 2 ^ 32) : headcount groups < 2 ^ 64 := by
  have hle : headcount groups ≤ groups.length * 2 ^ 32 := by
    have hsum := List.sum_le_card_nsmul (groups.map Group.count) (2 ^ 32) ?_
    · simpa [headcount] using hsum
    · intro count hcount
      obtain ⟨g, hg, rfl⟩ := List.mem_map.mp hcount
      exact (hcounts g hg).le
  omega

/-- A bill is split by weight if and only if its total and all ratios can be paid, there are people,
and the groups have no more members than there are people; the members are added up without loss
in 64 bits. Otherwise the first of these that fails, and among ratios the first in the list, is what
the bill is refused for: that nobody pays is never the reason. The settlement covers everybody and
names the groups as they were given. -/
theorem settleByWeight_or_first_obstacle (total : Float) (people : ℕ) (groups : List (Group Float))
    (rounding : Rounding) (hlength : groups.length < 2 ^ 32)
    (hcounts : ∀ g ∈ groups, g.count < 2 ^ 32) :
    headcount groups < 2 ^ 64 ∧
      ((∃ s, settleByWeight total people groups rounding = .ok s) ↔
        IsSplittable total people groups) ∧
      (∀ fault, settleByWeight total people groups rounding = .error fault ↔
        FirstObstacle total people groups fault) ∧
      (∀ fault, settleByWeight total people groups rounding = .error fault →
        fault.failure.kind = .invalid ∧ fault ≠ .nobodyPays) ∧
      ∀ s, settleByWeight total people groups rounding = .ok s →
        ∃ regularPay regularCount shares remainder,
          s = .weighted regularPay regularCount shares remainder ∧
          regularCount + headcount groups = people ∧ shares.map GroupShare.toGroup = groups := by
  refine ⟨headcount_lt hlength hcounts, ?_⟩
  rcases isSplittable_or_obstacle total people groups with hsplittable | ⟨first, hfirst⟩
  · have hsettled := hsplittable.settleByWeight_eq rounding
    have hnone : ∀ fault, ¬ settleByWeight total people groups rounding = .error fault := by
      intro fault hfault
      exact nomatch hsettled.symm.trans hfault
    refine ⟨⟨fun _ => hsplittable, fun _ => ⟨_, hsettled⟩⟩, ?_, ?_, ?_⟩
    · intro fault
      refine ⟨fun hfault => absurd hfault (hnone fault), fun hfault => ?_⟩
      exact hfault.settleByWeight_eq rounding
    · intro fault hfault
      exact absurd hfault (hnone fault)
    · intro s hs
      obtain rfl := Except.ok.inj (hsettled.symm.trans hs)
      refine ⟨_, _, _, _, rfl, Nat.sub_add_cancel hsplittable.members_le, ?_⟩
      simp [Group.share, Function.comp_def]
  · have hrefused := hfirst.settleByWeight_eq rounding
    have hunsettled : ∀ s, ¬ settleByWeight total people groups rounding = .ok s := by
      intro s hs
      exact nomatch hrefused.symm.trans hs
    have honly : ∀ fault, settleByWeight total people groups rounding = .error fault →
        fault = first := by
      intro fault hfault
      exact Except.error.inj (hfault.symm.trans hrefused)
    refine ⟨?_, ?_, ?_, fun s hs => absurd hs (hunsettled s)⟩
    · refine ⟨fun ⟨s, hs⟩ => absurd hs (hunsettled s), fun hsplittable => ?_⟩
      exact ⟨_, hsplittable.settleByWeight_eq rounding⟩
    · intro fault
      refine ⟨fun hfault => ?_, fun hfault => hfault.settleByWeight_eq rounding⟩
      rwa [honly fault hfault]
    · intro fault hfault
      rw [honly fault hfault]
      refine ⟨rfl, ?_⟩
      rintro rfl
      exact nomatch hfirst

/-- A group whose ratio is zero is named, not the negative ratio behind it and not the members that
are too many. -/
theorem settleByWeight_or_first_obstacle_of_three_faults :
    let groups : List (Group Float) := [⟨3, 1.5⟩, ⟨1, 0.0⟩, ⟨9, -2.0⟩]
    groups.length < 2 ^ 32 ∧ (∀ g ∈ groups, g.count < 2 ^ 32) ∧
      settleByWeight 1000.0 4 groups .truncate = .error (.ratioUnusable 0.0) := by
  intro groups
  have hlength : groups.length < 2 ^ 32 := by decide
  have hcounts : ∀ g ∈ groups, g.count < 2 ^ 32 := by simp [groups]
  have htotal : IsPayable 1000.0 := isPayable_iff.mpr ⟨by decide +kernel, by decide +kernel⟩
  have hfirst : IsPayable 1.5 := isPayable_iff.mpr ⟨by decide +kernel, by decide +kernel⟩
  have hzero : ¬ IsPayable 0.0 := fun h => h.pos.ne exact_zero.symm
  obtain ⟨-, -, hrefused, -⟩ :=
    settleByWeight_or_first_obstacle 1000.0 4 groups .truncate hlength hcounts
  have hsplit : groups = [⟨3, 1.5⟩] ++ ⟨1, 0.0⟩ :: [⟨9, -2.0⟩] := rfl
  refine ⟨hlength, hcounts, (hrefused _).mpr ?_⟩
  refine .ratio htotal (by omega) hsplit ?_ hzero
  simpa using hfirst

end DeskCalculator.Split
