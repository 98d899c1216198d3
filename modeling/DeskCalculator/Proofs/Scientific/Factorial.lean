import DeskCalculator.Proofs.Number.Infinity
import DeskCalculator.Scientific.Builtin

/-!
The factorial as a loop without a bound of its own. A counter goes up from two while it is at most
the argument, and the product takes in every counter. A double may be so large that the counter never
passes it; then the product becomes infinite, with the factor 171 at the latest, and the loop is
left. Up to there the product is finite, grows with the argument, and depends on its floor only.
-/
namespace DeskCalculator.Scientific.Factorial

open Builtin (factors factorialOf)
open Number

/-- How often the loop is run through and the product that it leaves behind, from a product and a
counter on. -/
inductive Loop (n : Float) : (product counter : Float) → (passes : ℕ) → (result : Float) → Prop
  | passed {product counter : Float} (h : ¬counter ≤ n) : Loop n product counter 0 product
  | overflown {product counter : Float} (h : counter ≤ n)
      (hproduct : (product * counter).isInf = true) :
      Loop n product counter 1 (product * counter)
  | again {product counter result : Float} {passes : ℕ} (h : counter ≤ n)
      (hproduct : (product * counter).isInf = false)
      (hrest : Loop n (product * counter) (counter + 1.0) passes result) :
      Loop n product counter (passes + 1) result

/-- The loop has one outcome only. -/
theorem Loop.unique {n product counter result result' : Float} {passes passes' : ℕ}
    (h : Loop n product counter passes result) (h' : Loop n product counter passes' result') :
    passes' = passes ∧ result' = result := by
  induction h generalizing passes' with
  | passed h =>
    cases h' with
    | passed _ => exact ⟨rfl, rfl⟩
    | overflown hle _ => exact absurd hle h
    | again hle _ _ => exact absurd hle h
  | overflown hle hproduct =>
    cases h' with
    | passed h => exact absurd hle h
    | overflown _ _ => exact ⟨rfl, rfl⟩
    | again _ hfinite _ => exact nomatch hproduct.symm.trans hfinite
  | again hle hproduct _ ih =>
    cases h' with
    | passed h => exact absurd hle h
    | overflown _ hinfinite => exact nomatch hproduct.symm.trans hinfinite
    | again _ _ hrest =>
      obtain ⟨rfl, rfl⟩ := ih hrest
      exact ⟨rfl, rfl⟩

def counters (first count : ℕ) : List Float := (List.range' first count).map ofNat

theorem counters_succ (first count : ℕ) :
    counters first (count + 1) = ofNat first :: counters (first + 1) count := by
  rw [counters, List.range'_succ, List.map_cons]
  rfl

theorem map_ofNat_factors : factors.map ofNat = counters 2 170 := by
  have hfactors : factors = List.range' 2 170 := by
    rw [factors, List.range'_eq_map_range]
    exact List.map_congr_left fun k _ => Nat.add_comm k 2
  rw [hfactors, counters]

theorem exists_isWhole_of_mem_counters {first count : ℕ} (hfirst : 1 ≤ first)
    (hbound : first + count ≤ 2 ^ 53) {c : Float} (h : c ∈ counters first count) :
    ∃ m, 1 ≤ m ∧ IsWhole c m := by
  obtain ⟨m, hm, rfl⟩ := List.mem_map.mp h
  obtain ⟨hlow, hhigh⟩ := List.mem_range'_1.mp hm
  exact ⟨m, by omega, .ofNat (by omega)⟩

/-- Below `2 ^ 53` counting is exact. -/
theorem ofNat_add_one {k : ℕ} (h : k + 1 < 2 ^ 53) : ofNat k + 1.0 = ofNat (k + 1) := by
  have hone : IsWhole 1.0 1 := by
    have hsame : (1.0 : Float) = ofNat 1 := rfl
    rw [hsame]
    exact .ofNat (by norm_num)
  have hk : IsWhole (ofNat k) k := .ofNat (by omega)
  have hsum := hk.add hone h
  have hnext : IsWhole (ofNat (k + 1)) (k + 1) := .ofNat h
  apply eq_of_exact_eq hsum.isFinite hnext.isFinite
  · rw [hsum.exact_eq, hnext.exact_eq]
  · rw [hsum.exact_eq]
    positivity

def productFrom (product : Float) (cs : List Float) : Float := cs.foldl (· * ·) product

theorem productFrom_append (product : Float) (cs further : List Float) :
    productFrom product (cs ++ further) = productFrom (productFrom product cs) further :=
  List.foldl_append

section

variable {cs : List Float} (hcs : ∀ c ∈ cs, ∃ m, 1 ≤ m ∧ IsWhole c m)
include hcs

theorem productFrom_infinity : productFrom infinity cs = infinity := by
  induction cs with
  | nil => rfl
  | cons c rest ih =>
    obtain ⟨⟨m, hm, hc⟩, hrest⟩ := List.forall_mem_cons.mp hcs
    rw [productFrom, List.foldl_cons, infinity_mul hc hm]
    exact ih hrest

theorem atLeast_productFrom {q : ℚ} (hq : 0 < q) {product : Float} (h : AtLeast q product) :
    AtLeast q (productFrom product cs) := by
  induction cs generalizing product with
  | nil => exact h
  | cons c rest ih =>
    obtain ⟨⟨m, hm, hc⟩, hrest⟩ := List.forall_mem_cons.mp hcs
    exact ih hrest (h.mul_isWhole hq hc hm)

/-- Further factors make no product smaller. -/
theorem le_productFrom {product : Float} (h : AtLeast 1 product) :
    product ≤ productFrom product cs := by
  rcases h with rfl | ⟨hfinite, hone⟩
  · rw [productFrom_infinity hcs]
    exact infinity_le_iff.mpr rfl
  · have hpos : 0 < exact product := by linarith
    exact (le_iff_atLeast hfinite).mpr (atLeast_productFrom hcs hpos (.of_isFinite hfinite))

end

/-- Counters that overflow the product bound the passes of the loop, whatever its limit is. By
induction on the counters left: each pass takes the first of them, and once the product is infinite,
the others no longer matter. -/
theorem exists_loop (n : Float) {count first : ℕ} (hfirst : 1 ≤ first)
    (hbound : first + count < 2 ^ 53) {product : Float} (hproduct : AtLeast 1 product)
    (hfinite : product.isInf = false)
    (hoverflow : (productFrom product (counters first count)).isInf = true) :
    ∃ passes ≤ count, Loop n product (ofNat first) passes
      (productFrom product ((counters first count).takeWhile (· ≤ n))) := by
  induction count generalizing first product with
  | zero => exact nomatch hfinite.symm.trans hoverflow
  | succ count ih =>
    rw [counters_succ] at hoverflow ⊢
    by_cases hle : ofNat first ≤ n
    · rw [List.takeWhile_cons_of_pos (by simpa using hle)]
      have hwhole : IsWhole (ofNat first) first := .ofNat (by omega)
      have hnext : AtLeast 1 (product * ofNat first) := hproduct.mul_isWhole one_pos hwhole hfirst
      cases hinf : (product * ofNat first).isInf with
      | true =>
        have hinfinite := hnext.eq_infinity_of_isInf hinf
        have hrest : ∀ c ∈ (counters (first + 1) count).takeWhile (· ≤ n),
            ∃ m, 1 ≤ m ∧ IsWhole c m := by
          intro c hc
          exact exists_isWhole_of_mem_counters (by omega) (by omega)
            ((List.takeWhile_sublist _).subset hc)
        have hresult : productFrom product
            (ofNat first :: (counters (first + 1) count).takeWhile (· ≤ n)) =
              product * ofNat first := by
          rw [productFrom, List.foldl_cons, hinfinite]
          exact productFrom_infinity hrest
        rw [hresult]
        exact ⟨1, by omega, .overflown hle hinf⟩
      | false =>
        obtain ⟨passes, hpasses, hloop⟩ :=
          ih (by omega) (by omega) hnext hinf hoverflow
        rw [← ofNat_add_one (by omega)] at hloop
        exact ⟨passes + 1, by omega, .again hle hinf hloop⟩
    · rw [List.takeWhile_cons_of_neg (by simpa using hle)]
      exact ⟨0, by omega, .passed hle⟩

/-- The greatest finite factorial, which is that of 170. -/
def greatestFactorial : Float := 7257415615307994e291

/-- One further factor is too many. -/
theorem greatestFactorial_overflows :
    greatestFactorial.isInf = false ∧ greatestFactorial * ofNat 171 = infinity := by
  decide +kernel

theorem productFrom_counters : productFrom 1.0 (counters 2 169) = greatestFactorial := by
  decide +kernel

theorem counters_concat (first count : ℕ) :
    counters first (count + 1) = counters first count ++ [ofNat (first + count)] := by
  rw [counters, List.range'_concat, List.map_append, Nat.one_mul]
  rfl

theorem productFrom_counters_last : productFrom 1.0 (counters 2 170) = infinity := by
  rw [counters_concat, productFrom_append, productFrom_counters]
  exact greatestFactorial_overflows.2

def factorsUpTo (n : Float) : List Float := (counters 2 170).takeWhile (· ≤ n)

theorem factorsUpTo_prefix_counters (n : Float) : factorsUpTo n <+: counters 2 170 :=
  List.takeWhile_prefix _

theorem le_of_mem_factorsUpTo {n c : Float} (h : c ∈ factorsUpTo n) : c ≤ n := by
  rw [factorsUpTo] at h
  simpa using List.mem_takeWhile_imp h

theorem exists_isWhole_of_mem_factorsUpTo {n c : Float} (h : c ∈ factorsUpTo n) :
    ∃ m, 1 ≤ m ∧ IsWhole c m :=
  exists_isWhole_of_mem_counters (by norm_num) (by norm_num)
    ((factorsUpTo_prefix_counters n).subset h)

theorem factorialOf_eq (n : Float) :
    factorialOf n =
      if n.isNaN = true ∨ n < 0.0 then 0.0 / 0.0 else productFrom 1.0 (factorsUpTo n) := by
  rw [factorialOf, map_ofNat_factors]
  simp only [Bool.or_eq_true, decide_eq_true_eq]
  rfl

theorem atLeast_one : AtLeast 1 1.0 := by
  have hsame : (1.0 : Float) = ofNat 1 := rfl
  have hone : IsWhole (ofNat 1) 1 := .ofNat (by norm_num)
  rw [hsame]
  exact .inr ⟨hone.isFinite, by rw [hone.exact_eq, Nat.cast_one]⟩

theorem le_iff_atLeast_natCast {k : ℕ} (hk : k < 2 ^ 53) {x : Float} :
    ofNat k ≤ x ↔ AtLeast k x := by
  have hwhole : IsWhole (ofNat k) k := .ofNat hk
  rw [le_iff_atLeast hwhole.isFinite, hwhole.exact_eq]

theorem takeWhile_prefix_takeWhile {α : Type} {p q : α → Bool} {xs : List α}
    (h : ∀ x ∈ xs, p x = true → q x = true) : xs.takeWhile p <+: xs.takeWhile q := by
  induction xs with
  | nil => exact List.prefix_refl _
  | cons x rest ih =>
    obtain ⟨hx, hrest⟩ := List.forall_mem_cons.mp h
    by_cases hp : p x = true
    · rw [List.takeWhile_cons_of_pos hp, List.takeWhile_cons_of_pos (hx hp)]
      exact (List.prefix_cons_inj x).mpr (ih hrest)
    · rw [List.takeWhile_cons_of_neg hp]
      exact List.nil_prefix

section

variable {m n : Float}

/-- A larger double has all the factors of a smaller one and perhaps more. -/
theorem factorsUpTo_prefix_factorsUpTo (h : ∀ k : ℕ, AtLeast k m → AtLeast k n) :
    factorsUpTo m <+: factorsUpTo n := by
  apply takeWhile_prefix_takeWhile
  intro c hc hle
  obtain ⟨k, hk, rfl⟩ := List.mem_map.mp hc
  have hbound : k < 2 ^ 53 := by
    have hlast := (List.mem_range'_1.mp hk).2
    omega
  simp only [decide_eq_true_eq, le_iff_atLeast_natCast hbound] at hle ⊢
  exact h k hle

theorem factorsUpTo_floor (n : Float) : factorsUpTo (floor n) = factorsUpTo n := by
  have hbelow := factorsUpTo_prefix_factorsUpTo fun k => (atLeast_floor_iff (x := n) k).mp
  have habove := factorsUpTo_prefix_factorsUpTo fun k => (atLeast_floor_iff (x := n) k).mpr
  exact hbelow.eq_of_length (Nat.le_antisymm hbelow.length_le habove.length_le)

theorem atLeast_productFrom_factorsUpTo (n : Float) :
    AtLeast 1 (productFrom 1.0 (factorsUpTo n)) :=
  atLeast_productFrom (fun _ => exists_isWhole_of_mem_factorsUpTo) one_pos atLeast_one

/-- With a greater argument the product only goes on. -/
theorem productFrom_factorsUpTo_le (hle : m ≤ n) :
    productFrom 1.0 (factorsUpTo m) ≤ productFrom 1.0 (factorsUpTo n) := by
  obtain ⟨further, hfurther⟩ := factorsUpTo_prefix_factorsUpTo fun k hk => AtLeast.trans hk hle
  rw [← hfurther, productFrom_append]
  refine le_productFrom (fun c hc => ?_) (atLeast_productFrom_factorsUpTo m)
  refine exists_isWhole_of_mem_factorsUpTo (n := n) ?_
  rw [← hfurther]
  exact List.mem_append_right _ hc

/-- The product overflows with its last factor, and no earlier. -/
theorem isInf_productFrom_factorsUpTo_iff (n : Float) :
    (productFrom 1.0 (factorsUpTo n)).isInf = true ↔ 171.0 ≤ n := by
  have hliteral : (171.0 : Float) = ofNat 171 := rfl
  have hinf : infinity.isInf = true := rfl
  have hlarge := greatestFactorial_overflows.1
  rw [hliteral]
  constructor
  · intro hproduct
    by_contra hlt
    have hprefix : factorsUpTo n <+: counters 2 169 := by
      have hfactors := factorsUpTo_prefix_counters n
      rw [counters_concat] at hfactors
      rcases List.prefix_concat_iff.mp hfactors with hall | hprefix
      · have hlast : ofNat 171 ∈ factorsUpTo n := by
          rw [hall]
          exact List.mem_concat_self
        exact absurd (le_of_mem_factorsUpTo hlast) hlt
      · exact hprefix
    obtain ⟨further, hfurther⟩ := hprefix
    have hinfinite := (atLeast_productFrom_factorsUpTo n).eq_infinity_of_isInf hproduct
    have hwhole : ∀ c ∈ further, ∃ m, 1 ≤ m ∧ IsWhole c m := by
      intro c hc
      have hcounter : c ∈ counters 2 169 := by
        rw [← hfurther]
        exact List.mem_append_right _ hc
      exact exists_isWhole_of_mem_counters (by norm_num) (by norm_num) hcounter
    have hproducts : productFrom 1.0 (counters 2 169) = infinity := by
      rw [← hfurther, productFrom_append, hinfinite]
      exact productFrom_infinity hwhole
    rw [productFrom_counters] at hproducts
    rw [hproducts] at hlarge
    exact nomatch hinf.symm.trans hlarge
  · intro hle
    have hall : factorsUpTo n = counters 2 170 := by
      rw [factorsUpTo, List.takeWhile_eq_self_iff]
      intro c hc
      obtain ⟨k, hk, rfl⟩ := List.mem_map.mp hc
      have hbound : k < 172 := (List.mem_range'_1.mp hk).2
      have hwhole : IsWhole (ofNat k) k := .ofNat (by omega)
      have hlast := (le_iff_atLeast_natCast (by norm_num)).mp hle
      rw [decide_eq_true_eq, le_iff_atLeast_natCast (by omega)]
      exact hlast.mono (by exact_mod_cast Nat.le_of_lt_succ hbound)
    rw [hall, productFrom_counters_last, hinf]

end

/-- Of what is no number or is negative there is no factorial, whatever the loop makes of it. -/
theorem factorialOf_cases (n : Float) :
    (n.isNaN = true ∨ n < 0.0) ∧ factorialOf n = 0.0 / 0.0 ∧ ¬171.0 ≤ n ∨
      AtLeast 0 n ∧ factorialOf n = productFrom 1.0 (factorsUpTo n) := by
  have hliteral : (171.0 : Float) = ofNat 171 := rfl
  rw [factorialOf_eq]
  by_cases h : n.isNaN = true ∨ n < 0.0
  · refine .inl ⟨h, if_pos h, fun hle => ?_⟩
    rw [hliteral, le_iff_atLeast_natCast (by norm_num)] at hle
    exact (atLeast_zero_iff n).mp (hle.mono (by norm_num)) h
  · exact .inr ⟨(atLeast_zero_iff n).mpr h, if_neg h⟩

theorem factorialOf_floor (n : Float) : factorialOf (floor n) = factorialOf n := by
  have hzero := atLeast_floor_iff (x := n) 0
  rw [Nat.cast_zero, atLeast_zero_iff, atLeast_zero_iff, not_iff_not] at hzero
  rw [factorialOf_eq, factorialOf_eq, factorsUpTo_floor]
  simp only [hzero]

theorem factorialOf_le {m n : Float} (hm : 0.0 ≤ m) (hle : m ≤ n) :
    factorialOf m ≤ factorialOf n := by
  have hzero : (0.0 : Float).isFinite = true := rfl
  have hdomain : AtLeast 0 m := by
    have hbound := (le_iff_atLeast hzero).mp hm
    rwa [exact_zero] at hbound
  rw [factorialOf_eq, factorialOf_eq, if_neg ((atLeast_zero_iff m).mp hdomain),
    if_neg ((atLeast_zero_iff n).mp (hdomain.trans hle))]
  exact productFrom_factorsUpTo_le hle

theorem exists_loop_of_factorsUpTo (n : Float) :
    ∃ passes ≤ 170, Loop n 1.0 2.0 passes (productFrom 1.0 (factorsUpTo n)) := by
  have hliteral : (2.0 : Float) = ofNat 2 := rfl
  have hfinite : (1.0 : Float).isInf = false := rfl
  have hinf : infinity.isInf = true := rfl
  rw [hliteral]
  refine exists_loop n (by norm_num) (by norm_num) atLeast_one hfinite ?_
  rw [productFrom_counters_last]
  exact hinf

/-- On every double the loop ends after at most 170 passes and leaves the factorial behind, where
there is one. The factorial is no number just for what is none or is negative, infinite just from
171 on, and finite otherwise; it is that of the floor, and never falls. -/
theorem loop_ends (n : Float) :
    (∃ passes ≤ 170, ∃ result,
      (∀ passes' result', Loop n 1.0 2.0 passes' result' ↔ passes' = passes ∧ result' = result) ∧
        factorialOf n = if n.isNaN = true ∨ n < 0.0 then 0.0 / 0.0 else result) ∧
      ((factorialOf n).isNaN = true ↔ n.isNaN = true ∨ n < 0.0) ∧
      ((factorialOf n).isInf = true ↔ 171.0 ≤ n) ∧
      ((factorialOf n).isFinite = true ↔ ¬(n.isNaN = true ∨ n < 0.0) ∧ ¬171.0 ≤ n) ∧
      factorialOf (floor n) = factorialOf n ∧
      ∀ m, 0.0 ≤ m → m ≤ n → factorialOf m ≤ factorialOf n := by
  obtain ⟨passes, hpasses, hloop⟩ := exists_loop_of_factorsUpTo n
  refine ⟨⟨passes, hpasses, _, fun passes' result' => ⟨hloop.unique, ?_⟩, factorialOf_eq n⟩, ?_, ?_,
    ?_, factorialOf_floor n, fun m hm hle => factorialOf_le hm hle⟩
  · rintro ⟨rfl, rfl⟩
    exact hloop
  · rcases factorialOf_cases n with ⟨hnone, hresult, -⟩ | ⟨hsome, hresult⟩
    · have hnan : (0.0 / 0.0 : Float).isNaN = true := rfl
      rw [hresult]
      exact ⟨fun _ => hnone, fun _ => hnan⟩
    · rw [hresult, (atLeast_productFrom_factorsUpTo n).isNaN_eq_false]
      exact ⟨nofun, fun hnone => absurd hnone ((atLeast_zero_iff n).mp hsome)⟩
  · rcases factorialOf_cases n with ⟨-, hresult, hsmall⟩ | ⟨-, hresult⟩
    · have hnan : (0.0 / 0.0 : Float).isInf = false := rfl
      rw [hresult, hnan]
      exact ⟨nofun, fun hle => absurd hle hsmall⟩
    · rw [hresult]
      exact isInf_productFrom_factorsUpTo_iff n
  · rcases factorialOf_cases n with ⟨hnone, hresult, -⟩ | ⟨hsome, hresult⟩
    · have hnan : (0.0 / 0.0 : Float).isFinite = false := rfl
      rw [hresult, hnan]
      exact ⟨nofun, fun h => absurd hnone h.1⟩
    · have hinf := (atLeast_productFrom_factorsUpTo n).isInf_eq_not_isFinite
      rw [hresult, ← isInf_productFrom_factorsUpTo_iff, hinf,
        and_iff_right ((atLeast_zero_iff n).mp hsome)]
      simp

/-- A fraction below a double that the counter could never pass. -/
theorem loop_ends_beyond_counter :
    (0.0 : Float) ≤ 3.5 ∧ (3.5 : Float) ≤ 1e300 ∧ factorialOf 3.5 = 6.0 ∧
      (factorialOf 1e300).isInf = true ∧ factorialOf 3.5 ≤ factorialOf 1e300 := by
  have hpositive : (0.0 : Float) ≤ 3.5 := by decide
  have hle : (3.5 : Float) ≤ 1e300 := by decide +kernel
  have hsix : factorialOf 3.5 = 6.0 := rfl
  have hlarge : (171.0 : Float) ≤ 1e300 := by decide +kernel
  obtain ⟨-, -, hinf, -, -, hmono⟩ := loop_ends 1e300
  exact ⟨hpositive, hle, hsix, hinf.mpr hlarge, hmono 3.5 hpositive hle⟩

end DeskCalculator.Scientific.Factorial
