import DeskCalculator.Proofs.Expression.Steps

/-!
Whatever is read was derived. Each part of the progress accounts for the lexemes that it came from:
the pending work for a sum with its sign, a product with its operator, signs and bases; an open
bracket for the work outside it, the bracket and the arguments given so far; the phase for the
operand at hand. Every lexeme that is taken keeps the account, and the account of a complete
expression is a derivation of its tree.
-/
namespace DeskCalculator.Expression

open Reading

variable {left right : List (Lexeme Token)} {operand : Tree}

inductive Tight.Accounts : List Tight → List (Lexeme Token) → Prop
  | nil : Accounts [] []
  | sign {tight lexemes} (sign span) (h : Accounts tight lexemes) :
      Accounts (.sign sign :: tight) (lexemes ++ [⟨Sign.token sign, span⟩])
  | base {tight lexemes left a} (span) (h : Accounts tight lexemes) (ha : IsAtom left a) :
      Accounts (.base a :: tight) (lexemes ++ (left ++ [⟨.power, span⟩]))

inductive SumAccounts : Option (Tree × Sign) → List (Lexeme Token) → Prop
  | none : SumAccounts none []
  | some {left a} (sign span) (ha : IsSum left a) :
      SumAccounts (some (a, sign)) (left ++ [⟨Sign.token sign, span⟩])

inductive ProductAccounts : Option (Tree × Scale) → List (Lexeme Token) → Prop
  | none : ProductAccounts none []
  | some {left a} (scale span) (ha : IsProduct left a) :
      ProductAccounts (some (a, scale)) (left ++ [⟨Scale.token scale, span⟩])

/-- Settling signs and bases derives a signed operand. -/
theorem Tight.Accounts.isSigned {tight : List Tight} (h : Tight.Accounts tight left)
    (hright : IsSigned right operand) :
    IsSigned (left ++ right) (tight.foldl Tight.apply operand) := by
  induction h generalizing right operand with
  | nil => exact hright
  | sign sign span h ih =>
    rw [List.append_assoc]
    exact ih (.signed sign span hright)
  | base span h ha ih =>
    rw [List.append_assoc, List.append_assoc]
    exact ih (.power (.power span ha hright))

/-- Settling what binds tighter than sums derives a product. -/
theorem ProductAccounts.isProduct {work : Pending} (h : ProductAccounts work.product left)
    (hright : IsSigned right (work.factor operand)) :
    IsProduct (left ++ right) (work.term operand) := by
  unfold Pending.term
  generalize work.product = product at h
  cases h with
  | none => exact .signed hright
  | some scale span ha =>
    rw [List.append_assoc]
    exact .product scale span ha hright

/-- Settling all pending work derives a sum. -/
theorem SumAccounts.isSum {work : Pending} (h : SumAccounts work.sum left)
    (hright : IsProduct right (work.term operand)) :
    IsSum (left ++ right) (work.total operand) := by
  unfold Pending.total
  generalize work.sum = sum at h
  cases h with
  | none => exact .product hright
  | some sign span ha =>
    rw [List.append_assoc]
    exact .sum sign span ha hright

inductive Pending.Accounts : Pending → List (Lexeme Token) → Prop
  | parts {work : Pending} {sum product tight} (hsum : SumAccounts work.sum sum)
      (hproduct : ProductAccounts work.product product)
      (htight : Tight.Accounts work.tight tight) : Accounts work (sum ++ (product ++ tight))

namespace Pending.Accounts

variable {work : Pending}

theorem empty : Pending.Accounts {} [] := @parts {} [] [] [] .none .none .nil

theorem sign (h : work.Accounts left) (sign : Sign) (span : Span) :
    Pending.Accounts { work with tight := .sign sign :: work.tight }
      (left ++ [⟨sign.token, span⟩]) := by
  obtain ⟨hsum, hproduct, htight⟩ := h
  rw [List.append_assoc, List.append_assoc]
  exact .parts hsum hproduct (.sign sign span htight)

theorem base (h : work.Accounts left) (ha : IsAtom right operand) (span : Span) :
    Pending.Accounts { work with tight := .base operand :: work.tight }
      (left ++ (right ++ [⟨.power, span⟩])) := by
  obtain ⟨hsum, hproduct, htight⟩ := h
  rw [List.append_assoc, List.append_assoc]
  exact .parts hsum hproduct (.base span htight ha)

theorem isSum (h : work.Accounts left) (ha : IsAtom right operand) :
    IsSum (left ++ right) (work.total operand) := by
  obtain ⟨hsum, hproduct, htight⟩ := h
  rw [List.append_assoc, List.append_assoc]
  exact hsum.isSum (hproduct.isProduct (htight.isSigned (.power (.atom ha))))

theorem scale (h : work.Accounts left) (ha : IsAtom right operand) (scale : Scale) (span : Span) :
    Pending.Accounts { sum := work.sum, product := some (work.term operand, scale) }
      (left ++ (right ++ [⟨scale.token, span⟩])) := by
  obtain ⟨hsum, hproduct, htight⟩ := h
  have hterm := hproduct.isProduct (htight.isSigned (.power (.atom ha)))
  have hparts := @parts { sum := work.sum, product := some (work.term operand, scale) } _ _ []
    hsum (.some scale span hterm) .nil
  simpa only [List.append_assoc, List.append_nil] using hparts

theorem sum (h : work.Accounts left) (ha : IsAtom right operand) (sign : Sign) (span : Span) :
    Pending.Accounts { sum := some (work.total operand, sign) }
      (left ++ (right ++ [⟨sign.token, span⟩])) := by
  have hparts := @parts { sum := some (work.total operand, sign) } _ [] []
    (.some sign span (h.isSum ha)) .none .nil
  simpa only [List.append_assoc, List.append_nil] using hparts

end Pending.Accounts

inductive Opening.Accounts : List (Opening × Pending) → List (Lexeme Token) → Prop
  | nil : Accounts [] []
  | group {outer outside front lexemes} (span) (h : Accounts outer front)
      (hwork : Pending.Accounts outside lexemes) :
      Accounts ((.group, outside) :: outer) (front ++ (lexemes ++ [⟨.leftParen, span⟩]))
  | call {outer outside front lexemes} (name span left) (h : Accounts outer front)
      (hwork : Pending.Accounts outside lexemes) :
      Accounts ((.call name span [], outside) :: outer)
        (front ++ (lexemes ++ [⟨.identifier name, span⟩, ⟨.leftParen, left⟩]))
  | arguments {outer outside front lexemes given arguments} (name span left comma)
      (h : Accounts outer front) (hwork : Pending.Accounts outside lexemes)
      (hgiven : IsArguments given arguments) :
      Accounts ((.call name span arguments, outside) :: outer)
        (front ++ (lexemes ++
          (⟨.identifier name, span⟩ :: ⟨.leftParen, left⟩ :: (given ++ [⟨.comma, comma⟩]))))

inductive Phase.Accounts : Phase → List (Lexeme Token) → Prop
  | operand : Accounts .operand []
  | named (name span) : Accounts (.named name span) [⟨.identifier name, span⟩]
  | operator {lexemes a} (ha : IsAtom lexemes a) : Accounts (.operator a) lexemes

/-- The lexemes of all that has been understood. Directly behind the bracket of a call nothing is
pending and no argument has been given. -/
inductive Progress.Accounts : Progress → List (Lexeme Token) → Prop
  | parts {phase work outer front lexemes hand} (houter : Opening.Accounts outer front)
      (hwork : Pending.Accounts work lexemes) (hphase : Phase.Accounts phase hand) :
      Accounts ⟨phase, work, outer⟩ (front ++ (lexemes ++ hand))
  | argument {outside outer front lexemes} (name span left) (houter : Opening.Accounts outer front)
      (hwork : Pending.Accounts outside lexemes) :
      Accounts ⟨.argument, {}, (.call name span [], outside) :: outer⟩
        (front ++ (lexemes ++ [⟨.identifier name, span⟩, ⟨.leftParen, left⟩]))

namespace Progress

variable {work : Pending} {outer : List (Opening × Pending)}
  {front lexemes hand : List (Lexeme Token)}

theorem Accounts.awaiting (houter : Opening.Accounts outer front) (hwork : work.Accounts lexemes) :
    Progress.Accounts ⟨.operand, work, outer⟩ (front ++ lexemes) := by
  simpa only [List.append_nil] using Accounts.parts houter hwork .operand

theorem Accounts.takeOperand {phase : Phase} {q : Progress} {lexeme : Lexeme Token}
    (houter : Opening.Accounts outer front) (hwork : work.Accounts lexemes)
    (htake : (⟨phase, work, outer⟩ : Progress).takeOperand lexeme = some q) :
    q.Accounts (front ++ (lexemes ++ [lexeme])) := by
  obtain ⟨token, span⟩ := lexeme
  cases token with
  | number spelling =>
    obtain ⟨value, hvalue, rfl⟩ := Option.map_eq_some_iff.mp htake
    exact .parts houter hwork (.operator (.number span hvalue))
  | identifier name =>
    obtain rfl := Option.some.inj htake
    exact .parts houter hwork (.named name span)
  | plus =>
    obtain rfl := Option.some.inj htake
    exact .awaiting houter (hwork.sign .plus span)
  | minus =>
    obtain rfl := Option.some.inj htake
    exact .awaiting houter (hwork.sign .minus span)
  | leftParen =>
    obtain rfl := Option.some.inj htake
    simpa only [List.append_nil] using
      Accounts.awaiting (.group span houter hwork) .empty
  | star | slash | power | comma | rightParen | invalid => simp [Progress.takeOperand] at htake

/-- A comma or a closing bracket behind an operand ends the sum inside the bracket. -/
theorem Accounts.closing {phase : Phase} {operand : Tree} {q : Progress} {token : Token}
    {span : Span} (houter : Opening.Accounts outer front) (hwork : work.Accounts lexemes)
    (hhand : IsAtom hand operand) (htoken : token = .comma ∨ token = .rightParen)
    (htake : (⟨phase, work, outer⟩ : Progress).takeOperator operand token = some q) :
    q.Accounts (front ++ (lexemes ++ (hand ++ [⟨token, span⟩]))) := by
  have hsum := hwork.isSum hhand
  cases houter with
  | nil => rcases htoken with rfl | rfl <;> simp [Progress.takeOperator] at htake
  | group opened h houtside =>
    rcases htoken with rfl | rfl
    · simp [Progress.takeOperator] at htake
    · obtain rfl := Option.some.inj htake
      simpa only [List.append_assoc, List.cons_append, List.nil_append] using
        Accounts.parts h houtside (.operator (.group opened span hsum))
  | call name start opened h houtside =>
    rcases htoken with rfl | rfl
    · obtain rfl := Option.some.inj htake
      simpa only [List.append_assoc, List.cons_append, List.nil_append, List.append_nil] using
        Accounts.awaiting (.arguments name start opened span h houtside (.sum hsum))
          .empty
    · obtain rfl := Option.some.inj htake
      simpa only [List.append_assoc, List.cons_append, List.nil_append] using
        Accounts.parts h houtside (.operator (.call name start opened span (.sum hsum)))
  | arguments name start opened comma h houtside hgiven =>
    have harguments := IsArguments.comma comma hgiven hsum
    rcases htoken with rfl | rfl
    · obtain rfl := Option.some.inj htake
      simpa only [List.append_assoc, List.cons_append, List.nil_append, List.append_nil] using
        Accounts.awaiting (.arguments name start opened span h houtside harguments)
          .empty
    · obtain rfl := Option.some.inj htake
      simpa only [List.append_assoc, List.cons_append, List.nil_append] using
        Accounts.parts h houtside (.operator (.call name start opened span harguments))

/-- What is taken behind an operand is accounted for. -/
theorem Accounts.takeOperator {phase : Phase} {operand : Tree} {q : Progress}
    {lexeme : Lexeme Token} (houter : Opening.Accounts outer front)
    (hwork : work.Accounts lexemes) (hhand : IsAtom hand operand)
    (htake : (⟨phase, work, outer⟩ : Progress).takeOperator operand lexeme.token = some q) :
    q.Accounts (front ++ (lexemes ++ (hand ++ [lexeme]))) := by
  obtain ⟨token, span⟩ := lexeme
  cases token with
  | plus =>
    obtain rfl := Option.some.inj htake
    exact .awaiting houter (hwork.sum hhand .plus span)
  | minus =>
    obtain rfl := Option.some.inj htake
    exact .awaiting houter (hwork.sum hhand .minus span)
  | star =>
    obtain rfl := Option.some.inj htake
    exact .awaiting houter (hwork.scale hhand .times span)
  | slash =>
    obtain rfl := Option.some.inj htake
    exact .awaiting houter (hwork.scale hhand .over span)
  | power =>
    obtain rfl := Option.some.inj htake
    exact .awaiting houter (hwork.base hhand span)
  | comma => exact Accounts.closing houter hwork hhand (.inl rfl) htake
  | rightParen => exact Accounts.closing houter hwork hhand (.inr rfl) htake
  | identifier | number | leftParen | invalid => simp [Progress.takeOperator] at htake

/-- A lexeme that is taken joins the account. -/
theorem Accounts.take? {p q : Progress} {lexeme : Lexeme Token} (h : p.Accounts lexemes)
    (htake : p.take? lexeme = some q) : q.Accounts (lexemes ++ [lexeme]) := by
  cases h with
  | parts houter hwork hphase =>
    simp only [List.append_assoc]
    cases hphase with
    | operand => exact Accounts.takeOperand houter hwork htake
    | operator ha => exact Accounts.takeOperator houter hwork ha htake
    | named name start =>
      obtain ⟨token, span⟩ := lexeme
      by_cases htoken : token = .leftParen
      · subst htoken
        obtain rfl := Option.some.inj htake
        exact .argument name start span houter hwork
      · rw [take?_of_operand rfl htoken] at htake
        exact Accounts.takeOperator houter hwork (.symbol name start) htake
  | argument name start opened houter hwork =>
    obtain ⟨token, span⟩ := lexeme
    by_cases htoken : token = .rightParen
    · subst htoken
      obtain rfl := Option.some.inj htake
      simpa only [List.append_assoc, List.cons_append, List.nil_append] using
        Accounts.parts houter hwork (.operator (.emptyCall name start opened span))
    · rw [take?_of_awaitsOperand (p := ⟨.argument, _, _⟩) trivial htoken] at htake
      exact Accounts.takeOperand (.call name start opened houter hwork) .empty htake

/-- An account of a complete expression is a derivation. -/
theorem Accounts.isSum {p : Progress} {tree : Tree} (h : p.Accounts lexemes)
    (htree : p.tree? = some tree) : IsSum lexemes tree := by
  cases h with
  | argument => simp [tree?] at htree
  | parts houter hwork hphase =>
    cases houter with
    | nil =>
      cases hphase with
      | operand => simp [tree?] at htree
      | named name span =>
        obtain rfl := Option.some.inj htree
        exact hwork.isSum (.symbol name span)
      | operator ha =>
        obtain rfl := Option.some.inj htree
        exact hwork.isSum ha
    | group | call | arguments =>
      cases hphase <;> simp [tree?] at htree

end Progress

open Progress in
/-- What is read as a tree derives it. -/
theorem isSum_of_advance {lexemes : List (Lexeme Token)} {last : Progress} {tree : Tree}
    (hadvance : Tree.reader.advance Tree.reader.start lexemes = some last)
    (htree : Tree.reader.finish last = some tree) : IsSum lexemes tree := by
  have hstart : Progress.Accounts {} [] := .parts .nil .empty .operand
  exact (Tree.reader.advance_preserves Accounts.take? hstart hadvance).isSum htree

end DeskCalculator.Expression
