import DeskCalculator.Hex.Evaluation
import DeskCalculator.Proofs.Hex.Recognition
import DeskCalculator.Proofs.Number.Digits
import DeskCalculator.Proofs.Outcome
import DeskCalculator.Proofs.Reading.Scanning

/-!
Evaluation against exact arithmetic. A tree has a value in the integers without bounds, where no
intermediate result is ever lost. Evaluation gives this value if the values of all parts of the tree
fit into 64 bits and none of the divisors is zero, and fails otherwise.
-/
namespace DeskCalculator.Hex

open Reading Number

namespace Tree

/-- The value of a tree in the integers without bounds; division truncates toward zero. -/
def exact : Tree → Int
  | literal digits _ => hexValue digits.toList
  | signed .plus body => body.exact
  | signed .minus body => -body.exact
  | sum .plus left right => left.exact + right.exact
  | sum .minus left right => left.exact - right.exact
  | product .times left right => left.exact * right.exact
  | product .over left right => left.exact.tdiv right.exact

def parts : Tree → List Tree
  | literal digits span => [literal digits span]
  | signed sign body => signed sign body :: body.parts
  | sum sign left right => sum sign left right :: (left.parts ++ right.parts)
  | product scale left right => product scale left right :: (left.parts ++ right.parts)

def Fits (tree : Tree) : Prop :=
  InRange tree.exact ∧ ∀ left right, tree = product .over left right → right.exact ≠ 0

/-- All the values that come up in evaluating a tree fit. -/
def IsSafe (tree : Tree) : Prop := ∀ part ∈ tree.parts, part.Fits

theorem isSafe_literal (digits : String) (span : Span) :
    (literal digits span).IsSafe ↔ (literal digits span).Fits := by
  simp [IsSafe, parts]

theorem isSafe_signed (sign : Expression.Sign) (body : Tree) :
    (signed sign body).IsSafe ↔ body.IsSafe ∧ (signed sign body).Fits := by
  simp only [IsSafe, parts, List.forall_mem_cons]
  exact And.comm

theorem isSafe_sum (sign : Expression.Sign) (left right : Tree) :
    (sum sign left right).IsSafe ↔
      left.IsSafe ∧ right.IsSafe ∧ (sum sign left right).Fits := by
  simp only [IsSafe, parts, List.forall_mem_cons, List.forall_mem_append]
  rw [And.comm, and_assoc]

theorem isSafe_product (scale : Expression.Scale) (left right : Tree) :
    (product scale left right).IsSafe ↔
      left.IsSafe ∧ right.IsSafe ∧ (product scale left right).Fits := by
  simp only [IsSafe, parts, List.forall_mem_cons, List.forall_mem_append]
  rw [And.comm, and_assoc]

theorem IsSafe.inRange {tree : Tree} (h : tree.IsSafe) : InRange tree.exact := by
  cases tree with
  | literal digits span => exact ((isSafe_literal digits span).mp h).1
  | signed sign body => exact ((isSafe_signed sign body).mp h).2.1
  | sum sign left right => exact ((isSafe_sum sign left right).mp h).2.2.1
  | product scale left right => exact ((isSafe_product scale left right).mp h).2.2.1

theorem fits_iff (tree : Tree) (h : ∀ left right, tree ≠ product .over left right) :
    tree.Fits ↔ InRange tree.exact := by
  constructor
  · exact And.left
  · intro hrange
    exact ⟨hrange, fun left right htree => absurd htree (h left right)⟩

/-- A quotient fits when it lies in the range and is no division by zero. -/
theorem fits_quotient (left right : Tree) :
    (product .over left right).Fits ↔
      InRange (left.exact.tdiv right.exact) ∧ right.exact ≠ 0 := by
  constructor
  · intro h
    exact ⟨h.1, h.2 left right rfl⟩
  · intro h
    refine ⟨h.1, fun left' right' heq => ?_⟩
    obtain ⟨rfl, rfl⟩ : left = left' ∧ right = right' := by simpa using heq
    exact h.2

end Tree

theorem checkRange_eq_ok_iff {n v : Int} {fault : Fault} :
    checkRange n fault = .ok v ↔ InRange n ∧ n = v := by
  unfold checkRange
  split
  · next h => simp [h]
  · next h => simp [h]

/-- A calculation that goes on with the value of a tree. -/
theorem value_bind_eq_ok_iff {tree : Tree} {next : Int → Except Fault Int} {v : Int}
    (h : ∀ x, value tree = .ok x ↔ tree.IsSafe ∧ tree.exact = x) :
    value tree >>= next = .ok v ↔ tree.IsSafe ∧ next tree.exact = .ok v := by
  rw [bind_eq_ok_iff]
  constructor
  · intro hbind
    obtain ⟨x, hvalue, hnext⟩ := hbind
    obtain ⟨hsafe, rfl⟩ := (h x).mp hvalue
    exact ⟨hsafe, hnext⟩
  · intro hsafe
    exact ⟨tree.exact, (h _).mpr ⟨hsafe.1, rfl⟩, hsafe.2⟩

/-- Evaluation succeeds on the trees whose values all fit, and gives the exact value. -/
theorem value_eq_ok_iff (tree : Tree) (v : Int) :
    value tree = .ok v ↔ tree.IsSafe ∧ tree.exact = v := by
  induction tree generalizing v with
  | literal digits span =>
    rw [value, checkRange_eq_ok_iff, Tree.isSafe_literal, Tree.fits_iff (.literal _ _) nofun]
    rfl
  | signed sign body ih =>
    rw [value, value_bind_eq_ok_iff ih, Tree.isSafe_signed, and_assoc,
      Tree.fits_iff (.signed _ _) nofun]
    refine and_congr_right fun hsafe => ?_
    cases sign with
    | plus =>
      have hrange : InRange (Tree.signed .plus body).exact := hsafe.inRange
      have hpure : (pure body.exact : Except Fault Int) = .ok v ↔ body.exact = v :=
        ⟨Except.ok.inj, congrArg Except.ok⟩
      exact hpure.trans (and_iff_right hrange).symm
    | minus => exact checkRange_eq_ok_iff
  | sum sign left right ihl ihr =>
    rw [value, value_bind_eq_ok_iff ihl, value_bind_eq_ok_iff ihr, Tree.isSafe_sum, and_assoc,
      and_assoc, Tree.fits_iff (.sum _ _ _) nofun]
    refine and_congr_right fun _ => and_congr_right fun _ => ?_
    cases sign with
    | plus => exact checkRange_eq_ok_iff
    | minus => exact checkRange_eq_ok_iff
  | product scale left right ihl ihr =>
    rw [value, value_bind_eq_ok_iff ihl, value_bind_eq_ok_iff ihr, Tree.isSafe_product, and_assoc,
      and_assoc]
    refine and_congr_right fun _ => and_congr_right fun _ => ?_
    match scale with
    | .times =>
      rw [Tree.fits_iff (.product .times _ _) nofun]
      exact checkRange_eq_ok_iff
    | .over =>
      rw [Tree.fits_quotient]
      by_cases hzero : right.exact = 0
      · simp [hzero]
      · simp only [hzero, if_false, not_false_eq_true, ne_eq, and_true]
        exact checkRange_eq_ok_iff

theorem checkRange_error {n : Int} {fault failed : Fault} (h : checkRange n fault = .error failed) :
    failed = fault := by
  unfold checkRange at h
  split at h
  · exact nomatch h
  · exact (Except.error.inj h).symm

/-- What goes wrong in evaluating a tree is arithmetic. -/
theorem value_error {tree : Tree} {fault : Fault} (h : value tree = .error fault) :
    fault.failure.kind = .arithmetic := by
  induction tree with
  | literal digits span =>
    rw [checkRange_error h]
    rfl
  | signed sign body ih =>
    rcases bind_eq_error_iff.mp h with hbody | ⟨x, -, hsign⟩
    · exact ih hbody
    · cases sign with
      | plus => exact nomatch hsign
      | minus =>
        rw [checkRange_error hsign]
        rfl
  | sum sign left right ihl ihr =>
    rcases bind_eq_error_iff.mp h with hleft | ⟨x, -, hrest⟩
    · exact ihl hleft
    rcases bind_eq_error_iff.mp hrest with hright | ⟨y, -, hsum⟩
    · exact ihr hright
    · cases sign with
      | plus | minus =>
        rw [checkRange_error hsum]
        rfl
  | product scale left right ihl ihr =>
    rcases bind_eq_error_iff.mp h with hleft | ⟨x, -, hrest⟩
    · exact ihl hleft
    rcases bind_eq_error_iff.mp hrest with hright | ⟨y, -, hproduct⟩
    · exact ihr hright
    · match scale with
      | .times =>
        rw [checkRange_error hproduct]
        rfl
      | .over =>
        by_cases hzero : y = 0
        · simp only [hzero, if_true] at hproduct
          obtain rfl := Except.error.inj hproduct
          rfl
        · simp only [hzero, if_false] at hproduct
          rw [checkRange_error hproduct]
          rfl

variable {lexemes : List (Lexeme Token)} {tree : Tree}

theorem IsOperand.exists_literal (h : IsOperand lexemes tree) :
    ∃ lexeme ∈ lexemes, ∃ digits, lexeme.token = .literal digits := by
  induction h with
  | literal digits span => exact ⟨_, List.mem_singleton_self _, digits, rfl⟩
  | signed sign span h ih =>
    obtain ⟨lexeme, hmem, hliteral⟩ := ih
    exact ⟨lexeme, List.mem_cons_of_mem _ hmem, hliteral⟩

theorem IsProduct.exists_literal (h : IsProduct lexemes tree) :
    ∃ lexeme ∈ lexemes, ∃ digits, lexeme.token = .literal digits := by
  induction h with
  | operand h => exact h.exists_literal
  | product scale span ha hb ih =>
    obtain ⟨lexeme, hmem, hliteral⟩ := ih
    exact ⟨lexeme, List.mem_append_left _ hmem, hliteral⟩

theorem IsSum.exists_literal (h : IsSum lexemes tree) :
    ∃ lexeme ∈ lexemes, ∃ digits, lexeme.token = .literal digits := by
  induction h with
  | product h => exact h.exists_literal
  | sum sign span ha hb ih =>
    obtain ⟨lexeme, hmem, hliteral⟩ := ih
    exact ⟨lexeme, List.mem_append_left _ hmem, hliteral⟩

theorem isHexDigit_eq_false_of_isBlank {c : Char} (h : Text.isBlank c = true) :
    isHexDigit c = false := by
  by_contra hdigit
  have hcode := (isHexDigit_iff c).mp (by simpa using hdigit)
  simp only [Text.isBlank, Bool.or_eq_true, Bool.and_eq_true, decide_eq_true_eq, beq_iff_eq] at h
  omega

theorem isHexDigit_of_front? {c : Char} {rest : List Char} {digits : String} {length : ℕ}
    (h : Token.front? (c :: rest) = some (.literal digits, length)) : isHexDigit c = true := by
  by_contra hdigit
  unfold Token.front? at h
  split at h <;> simp_all

theorem isHexDigit_of_frontToken {c : Char} {rest : List Char} {digits : String}
    (h : (frontToken (c :: rest)).1 = Token.literal digits) : isHexDigit c = true := by
  unfold frontToken at h
  split at h
  · next token length hfront =>
    obtain rfl : token = .literal digits := h
    exact isHexDigit_of_front? hfront
  · exact nomatch h

/-- A literal needs a digit, and blanks are none. -/
theorem not_sentence_of_isEmpty {text : String} (h : Text.isEmpty text = true) :
    ¬ Sentence IsSum (scan Token text) := by
  intro hsentence
  obtain ⟨tree, htree⟩ := hsentence
  obtain ⟨lexeme, hmem, digits, hliteral⟩ := htree.exists_literal
  obtain ⟨c, rest, hsuffix, -, htoken⟩ := exists_suffix_of_mem_scanFrom hmem
  have hdigit := isHexDigit_of_frontToken (htoken.symm.trans hliteral)
  have hblank : Text.isBlank c = true :=
    List.all_eq_true.mp h c (hsuffix.subset (List.mem_cons_self ..))
  rw [isHexDigit_eq_false_of_isBlank hblank] at hdigit
  exact nomatch hdigit

theorem evaluate_of_isSum {text : String} {tree : Tree} (h : IsSum (scan Token text) tree) :
    evaluate text = value tree := by
  have hread : Tree.ofText text = .ok tree := (recognizes.read_eq_ok_iff _ _ _).mpr h
  have hblank : ¬ Text.isEmpty text = true := fun hempty => not_sentence_of_isEmpty hempty ⟨tree, h⟩
  rw [evaluate, if_neg hblank, hread]
  rfl

theorem evaluate_of_not_sentence {text : String} (h : ¬ Sentence IsSum (scan Token text)) :
    ∃ fault, evaluate text = .error fault ∧ fault.failure.kind = .malformed := by
  unfold evaluate
  split
  · exact ⟨.empty, rfl, rfl⟩
  · cases hread : Tree.ofText text with
    | ok tree => exact absurd ⟨tree, (recognizes.read_eq_ok_iff _ _ _).mp hread⟩ h
    | error complaint => exact ⟨.unreadable complaint, rfl, rfl⟩

/-- A text is evaluated to its exact value, fails in arithmetic, or is no expression. -/
theorem evaluate_cases (text : String) :
    (∃ tree, IsSum (scan Token text) tree ∧ tree.IsSafe ∧ evaluate text = .ok tree.exact) ∨
    (∃ tree fault, IsSum (scan Token text) tree ∧ ¬ tree.IsSafe ∧
      evaluate text = .error fault ∧ fault.failure.kind = .arithmetic) ∨
    (¬ Sentence IsSum (scan Token text) ∧
      ∃ fault, evaluate text = .error fault ∧ fault.failure.kind = .malformed) := by
  by_cases hsentence : Sentence IsSum (scan Token text)
  · obtain ⟨tree, htree⟩ := hsentence
    have hevaluate := evaluate_of_isSum htree
    by_cases hsafe : tree.IsSafe
    · have hvalue := (value_eq_ok_iff tree _).mpr ⟨hsafe, rfl⟩
      exact .inl ⟨tree, htree, hsafe, hevaluate.trans hvalue⟩
    · cases hvalue : value tree with
      | ok v => exact absurd ((value_eq_ok_iff tree v).mp hvalue).1 hsafe
      | error fault =>
        exact .inr (.inl ⟨tree, fault, htree, hsafe, hevaluate.trans hvalue, value_error hvalue⟩)
  · exact .inr (.inr ⟨hsentence, evaluate_of_not_sentence hsentence⟩)

/-- A text has the exact value of its tree when nothing on the way leaves the range. -/
theorem evaluate_eq_ok_iff (text : String) (v : Int) :
    evaluate text = .ok v ↔
      ∃ tree, IsSum (scan Token text) tree ∧ tree.IsSafe ∧ tree.exact = v := by
  constructor
  · intro h
    rcases evaluate_cases text with
      ⟨tree, htree, hsafe, hok⟩ | ⟨tree, fault, -, -, herror, -⟩ | ⟨-, fault, herror, -⟩
    · exact ⟨tree, htree, hsafe, Except.ok.inj (hok.symm.trans h)⟩
    · exact nomatch herror.symm.trans h
    · exact nomatch herror.symm.trans h
  · intro h
    obtain ⟨tree, htree, hsafe, hexact⟩ := h
    rw [evaluate_of_isSum htree, value_eq_ok_iff]
    exact ⟨hsafe, hexact⟩

/-- Evaluation fails on an expression of which some part has no value in the range. -/
theorem evaluate_arithmetic_iff (text : String) :
    (∃ fault, evaluate text = .error fault ∧ fault.failure.kind = .arithmetic) ↔
      ∃ tree, IsSum (scan Token text) tree ∧ ¬ tree.IsSafe := by
  constructor
  · intro h
    obtain ⟨fault, hfault, hkind⟩ := h
    rcases evaluate_cases text with
      ⟨tree, -, -, hok⟩ | ⟨tree, -, htree, hunsafe, -, -⟩ | ⟨-, other, hother, hmalformed⟩
    · exact nomatch hok.symm.trans hfault
    · exact ⟨tree, htree, hunsafe⟩
    · obtain rfl := Except.error.inj (hother.symm.trans hfault)
      exact nomatch hmalformed.symm.trans hkind
  · intro h
    obtain ⟨tree, htree, hunsafe⟩ := h
    cases hvalue : value tree with
    | ok v => exact absurd ((value_eq_ok_iff tree v).mp hvalue).1 hunsafe
    | error fault => exact ⟨fault, (evaluate_of_isSum htree).trans hvalue, value_error hvalue⟩

theorem evaluate_malformed_iff (text : String) :
    (∃ fault, evaluate text = .error fault ∧ fault.failure.kind = .malformed) ↔
      Text.isEmpty text = true ∨ ¬ Sentence IsSum (scan Token text) := by
  constructor
  · intro h
    obtain ⟨fault, hfault, hkind⟩ := h
    rcases evaluate_cases text with
      ⟨tree, -, -, hok⟩ | ⟨tree, other, -, -, hother, harithmetic⟩ | ⟨hnone, -⟩
    · exact nomatch hok.symm.trans hfault
    · obtain rfl := Except.error.inj (hother.symm.trans hfault)
      exact nomatch harithmetic.symm.trans hkind
    · exact .inr hnone
  · intro h
    have hnone : ¬ Sentence IsSum (scan Token text) := h.elim not_sentence_of_isEmpty id
    exact evaluate_of_not_sentence hnone

/-- Evaluation agrees with exact arithmetic on every text. It gives an integer if and only if the
tokens derive from the grammar, no divisor is zero, and all literals and intermediate values fit
into 64 bits, and then the integer is the exact value. Otherwise the failure is arithmetic if the
tokens derive, and a malformed text if they do not or there are none. -/
theorem evaluate_exact (text : String) :
    (∀ v, evaluate text = .ok v ↔
      ∃ tree, IsSum (scan Token text) tree ∧ tree.IsSafe ∧ tree.exact = v) ∧
    ((∃ fault, evaluate text = .error fault ∧ fault.failure.kind = .arithmetic) ↔
      ∃ tree, IsSum (scan Token text) tree ∧ ¬ tree.IsSafe) ∧
    ((∃ fault, evaluate text = .error fault ∧ fault.failure.kind = .malformed) ↔
      Text.isEmpty text = true ∨ ¬ Sentence IsSum (scan Token text)) :=
  ⟨evaluate_eq_ok_iff text, evaluate_arithmetic_iff text, evaluate_malformed_iff text⟩

end DeskCalculator.Hex
