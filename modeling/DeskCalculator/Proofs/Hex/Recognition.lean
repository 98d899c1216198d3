import DeskCalculator.Hex.Pending
import DeskCalculator.Proofs.Reading.Viability

/-!
The grammar of hexadecimal expressions, with the tree that each derivation gives, and the proof that
the reader recognizes it.

    sum     := product (('+' | '-') product)*
    product := operand (('*' | '/') operand)*
    operand := ('+' | '-')* literal

As for scientific expressions, a derivation leaves work pending that settles to its tree, and all
that is pending accounts for the lexemes that it came from; there are no brackets to keep open.
-/
namespace DeskCalculator.Hex

open Reading
open Expression (Sign Scale)

def Token.ofSign : Sign → Token
  | .plus => .plus
  | .minus => .minus

def Token.ofScale : Scale → Token
  | .times => .star
  | .over => .slash

def Token.IsFixed : Token → Prop
  | literal _ | invalid => False
  | plus | minus | star | slash => True

inductive IsOperand : List (Lexeme Token) → Tree → Prop
  | literal (digits span) : IsOperand [⟨.literal digits, span⟩] (.literal digits span)
  | signed {lexemes tree} (sign span) (h : IsOperand lexemes tree) :
      IsOperand (⟨.ofSign sign, span⟩ :: lexemes) (.signed sign tree)

inductive IsProduct : List (Lexeme Token) → Tree → Prop
  | operand {lexemes tree} (h : IsOperand lexemes tree) : IsProduct lexemes tree
  | product {left right a b} (scale span) (ha : IsProduct left a) (hb : IsOperand right b) :
      IsProduct (left ++ ⟨.ofScale scale, span⟩ :: right) (.product scale a b)

inductive IsSum : List (Lexeme Token) → Tree → Prop
  | product {lexemes tree} (h : IsProduct lexemes tree) : IsSum lexemes tree
  | sum {left right a b} (sign span) (ha : IsSum left a) (hb : IsProduct right b) :
      IsSum (left ++ ⟨.ofSign sign, span⟩ :: right) (.sum sign a b)

variable {lexemes left right : List (Lexeme Token)} {tree : Tree}

namespace Progress

theorem take?_sign_of_none (work : Pending) (sign : Sign) (span : Span) :
    take? ⟨none, work⟩ ⟨.ofSign sign, span⟩ =
      some ⟨none, { work with signs := sign :: work.signs }⟩ := by
  cases sign <;> rfl

theorem take?_sign_of_some (work : Pending) (operand : Tree) (sign : Sign) (span : Span) :
    take? ⟨some operand, work⟩ ⟨.ofSign sign, span⟩ =
      some ⟨none, { sum := some (work.total operand, sign) }⟩ := by
  cases sign <;> rfl

theorem take?_scale_of_some (work : Pending) (operand : Tree) (scale : Scale) (span : Span) :
    take? ⟨some operand, work⟩ ⟨.ofScale scale, span⟩ =
      some ⟨none, { sum := work.sum, product := some (work.term operand, scale) }⟩ := by
  cases scale <;> rfl

end Progress

open Progress

theorem IsOperand.exists_advance (h : IsOperand lexemes tree) (before : Pending) :
    ∃ work operand, work.sum = before.sum ∧ work.product = before.product ∧
      work.factor operand = before.factor tree ∧
      Tree.reader.advance ⟨none, before⟩ lexemes = some ⟨some operand, work⟩ := by
  induction h generalizing before with
  | literal digits span => exact ⟨before, .literal digits span, rfl, rfl, rfl, rfl⟩
  | signed sign span h ih =>
    obtain ⟨work, operand, hsum, hproduct, hfactor, hadvance⟩ :=
      ih { before with signs := sign :: before.signs }
    refine ⟨work, operand, hsum, hproduct, hfactor, ?_⟩
    rw [← hadvance]
    exact Tree.reader.advance_append_cons (Tree.reader.advance_nil _)
      (take?_sign_of_none before sign span) _

theorem IsProduct.exists_advance (h : IsProduct lexemes tree) (sum : Option (Tree × Sign)) :
    ∃ work operand, work.sum = sum ∧ work.term operand = tree ∧
      Tree.reader.advance ⟨none, { sum := sum }⟩ lexemes = some ⟨some operand, work⟩ := by
  induction h with
  | operand h =>
    obtain ⟨work, operand, hsum, hproduct, hfactor, hadvance⟩ := h.exists_advance { sum := sum }
    refine ⟨work, operand, hsum, ?_, hadvance⟩
    simp only [Pending.term, hproduct, hfactor]
    rfl
  | @product _ _ a b scale span ha hb ih =>
    obtain ⟨work, operand, hsum, hterm, hleft⟩ := ih
    obtain ⟨work', operand', hsum', hproduct, hfactor, hright⟩ :=
      hb.exists_advance { sum := sum, product := some (a, scale) }
    refine ⟨work', operand', hsum', ?_, ?_⟩
    · simp only [Pending.term, hproduct, hfactor]
      rfl
    · rw [Tree.reader.advance_append_cons hleft (take?_scale_of_some work operand scale span),
        hsum, hterm]
      exact hright

theorem IsSum.exists_advance (h : IsSum lexemes tree) :
    ∃ last, Tree.reader.advance Tree.reader.start lexemes = some last ∧
      Tree.reader.finish last = some tree := by
  suffices hreach : ∃ work operand, work.total operand = tree ∧
      Tree.reader.advance ⟨none, {}⟩ lexemes = some ⟨some operand, work⟩ by
    obtain ⟨work, operand, rfl, hadvance⟩ := hreach
    exact ⟨_, hadvance, rfl⟩
  induction h with
  | product h =>
    obtain ⟨work, operand, hsum, hterm, hadvance⟩ := h.exists_advance none
    refine ⟨work, operand, ?_, hadvance⟩
    simp only [Pending.total, hsum, hterm]
  | @sum _ _ a b sign span ha hb ih =>
    obtain ⟨work, operand, htotal, hleft⟩ := ih
    obtain ⟨work', operand', hsum, hterm, hright⟩ := hb.exists_advance (some (a, sign))
    refine ⟨work', operand', ?_, ?_⟩
    · simp only [Pending.total, hsum, hterm]
    · rw [Tree.reader.advance_append_cons hleft (take?_sign_of_some work operand sign span), htotal]
      exact hright

inductive SignsAccounts : List Sign → List (Lexeme Token) → Prop
  | nil : SignsAccounts [] []
  | cons {signs lexemes} (sign span) (h : SignsAccounts signs lexemes) :
      SignsAccounts (sign :: signs) (lexemes ++ [⟨.ofSign sign, span⟩])

inductive ProductAccounts : Option (Tree × Scale) → List (Lexeme Token) → Prop
  | none : ProductAccounts none []
  | some {left a} (scale span) (ha : IsProduct left a) :
      ProductAccounts (some (a, scale)) (left ++ [⟨.ofScale scale, span⟩])

inductive SumAccounts : Option (Tree × Sign) → List (Lexeme Token) → Prop
  | none : SumAccounts none []
  | some {left a} (sign span) (ha : IsSum left a) :
      SumAccounts (some (a, sign)) (left ++ [⟨.ofSign sign, span⟩])

inductive Pending.Accounts : Pending → List (Lexeme Token) → Prop
  | parts {work : Pending} {sum product signs} (hsum : SumAccounts work.sum sum)
      (hproduct : ProductAccounts work.product product)
      (hsigns : SignsAccounts work.signs signs) : Accounts work (sum ++ (product ++ signs))

inductive Progress.Accounts : Progress → List (Lexeme Token) → Prop
  | awaiting {work lexemes} (h : Pending.Accounts work lexemes) : Accounts ⟨none, work⟩ lexemes
  | operand {work lexemes} (digits span) (h : Pending.Accounts work lexemes) :
      Accounts ⟨some (.literal digits span), work⟩ (lexemes ++ [⟨.literal digits, span⟩])

theorem SignsAccounts.isOperand {signs : List Sign} (h : SignsAccounts signs left)
    (hright : IsOperand right tree) :
    IsOperand (left ++ right) (signs.foldl (fun body sign => .signed sign body) tree) := by
  induction h generalizing right tree with
  | nil => exact hright
  | cons sign span h ih =>
    rw [List.append_assoc]
    exact ih (.signed sign span hright)

theorem ProductAccounts.isProduct {work : Pending} (h : ProductAccounts work.product left)
    (hright : IsOperand right (work.factor tree)) : IsProduct (left ++ right) (work.term tree) := by
  unfold Pending.term
  generalize work.product = product at h
  cases h with
  | none => exact .operand hright
  | some scale span ha =>
    rw [List.append_assoc]
    exact .product scale span ha hright

theorem SumAccounts.isSum {work : Pending} (h : SumAccounts work.sum left)
    (hright : IsProduct right (work.term tree)) : IsSum (left ++ right) (work.total tree) := by
  unfold Pending.total
  generalize work.sum = sum at h
  cases h with
  | none => exact .product hright
  | some sign span ha =>
    rw [List.append_assoc]
    exact .sum sign span ha hright

namespace Pending.Accounts

variable {work : Pending}

theorem empty : Pending.Accounts {} [] := @parts {} [] [] [] .none .none .nil

theorem sign (h : work.Accounts left) (sign : Sign) (span : Span) :
    Pending.Accounts { work with signs := sign :: work.signs }
      (left ++ [⟨.ofSign sign, span⟩]) := by
  obtain ⟨hsum, hproduct, hsigns⟩ := h
  rw [List.append_assoc, List.append_assoc]
  exact .parts hsum hproduct (.cons sign span hsigns)

theorem isSum (h : work.Accounts left) (hright : IsOperand right tree) :
    IsSum (left ++ right) (work.total tree) := by
  obtain ⟨hsum, hproduct, hsigns⟩ := h
  rw [List.append_assoc, List.append_assoc]
  exact hsum.isSum (hproduct.isProduct (hsigns.isOperand hright))

theorem scale (h : work.Accounts left) (hright : IsOperand right tree) (scale : Scale)
    (span : Span) :
    Pending.Accounts { sum := work.sum, product := some (work.term tree, scale) }
      (left ++ (right ++ [⟨.ofScale scale, span⟩])) := by
  obtain ⟨hsum, hproduct, hsigns⟩ := h
  have hterm := hproduct.isProduct (hsigns.isOperand hright)
  have hparts := @parts { sum := work.sum, product := some (work.term tree, scale) } _ _ []
    hsum (.some scale span hterm) .nil
  simpa only [List.append_assoc, List.append_nil] using hparts

theorem sum (h : work.Accounts left) (hright : IsOperand right tree) (sign : Sign) (span : Span) :
    Pending.Accounts { sum := some (work.total tree, sign) }
      (left ++ (right ++ [⟨.ofSign sign, span⟩])) := by
  have hparts := @parts { sum := some (work.total tree, sign) } _ [] []
    (.some sign span (h.isSum hright)) .none .nil
  simpa only [List.append_assoc, List.append_nil] using hparts

end Pending.Accounts

namespace Progress

/-- Every lexeme that is taken is accounted for. -/
theorem Accounts.take? {p q : Progress} {lexeme : Lexeme Token} (h : p.Accounts lexemes)
    (htake : p.take? lexeme = some q) : q.Accounts (lexemes ++ [lexeme]) := by
  obtain ⟨token, span⟩ := lexeme
  cases h with
  | awaiting h =>
    cases token with
    | literal digits =>
      obtain rfl := Option.some.inj htake
      exact .operand digits span h
    | plus =>
      obtain rfl := Option.some.inj htake
      exact .awaiting (h.sign .plus span)
    | minus =>
      obtain rfl := Option.some.inj htake
      exact .awaiting (h.sign .minus span)
    | star | slash | invalid => simp [Progress.take?] at htake
  | operand digits start h =>
    rw [List.append_assoc]
    have hliteral := IsOperand.literal digits start
    cases token with
    | plus =>
      obtain rfl := Option.some.inj htake
      exact .awaiting (h.sum hliteral .plus span)
    | minus =>
      obtain rfl := Option.some.inj htake
      exact .awaiting (h.sum hliteral .minus span)
    | star =>
      obtain rfl := Option.some.inj htake
      exact .awaiting (h.scale hliteral .times span)
    | slash =>
      obtain rfl := Option.some.inj htake
      exact .awaiting (h.scale hliteral .over span)
    | literal | invalid => simp [Progress.take?] at htake

theorem Accounts.isSum {p : Progress} (h : p.Accounts lexemes) (htree : p.tree? = some tree) :
    IsSum lexemes tree := by
  cases h with
  | awaiting h => simp [tree?] at htree
  | operand digits span h =>
    obtain rfl := Option.some.inj htree
    exact h.isSum (.literal digits span)

theorem exists_completion (p : Progress) :
    ∃ rest last tree, Tree.reader.advance p rest = some last ∧
      Tree.reader.finish last = some tree := by
  obtain ⟨operand, work⟩ := p
  cases operand with
  | none => exact ⟨[⟨.literal "0", 0, 0⟩], _, _, rfl, rfl⟩
  | some operand => exact ⟨[], _, _, rfl, rfl⟩

theorem isSome_take? (p : Progress) (token : Token) (span other : Span) :
    (p.take? ⟨token, span⟩).isSome = (p.take? ⟨token, other⟩).isSome := by
  obtain ⟨operand, work⟩ := p
  cases operand <;> cases token <;> rfl

end Progress

/-- The reader of hexadecimal expressions recognizes their grammar. -/
theorem recognizes : Tree.reader.Recognizes IsSum where
  derives_iff lexemes tree := by
    constructor
    · exact IsSum.exists_advance
    · intro hreached
      obtain ⟨last, hadvance, htree⟩ := hreached
      have hstart : Progress.Accounts {} [] := .awaiting .empty
      exact (Tree.reader.advance_preserves Accounts.take? hstart hadvance).isSum htree
  completable := exists_completion
  step_isSome := isSome_take?

theorem mem_fixed_iff (token : Token) : token ∈ Tree.reader.fixed ↔ token.IsFixed := by
  cases token <;> simp [Tree.reader, Token.IsFixed]

end DeskCalculator.Hex
