import DeskCalculator.Proofs.Expression.Recognition

/-!
What derives from the grammar, told by tokens alone. Here any number token is an operand, whatever
it spells. An expression has a tree when it derives and each of its numbers spells a double, so that
is what the reader accepts.
-/
namespace DeskCalculator.Expression

open Reading

inductive Part where
  | sum
  | product
  | signed
  | power
  | atom
  | arguments

/-- The tokens that derive from a part of the grammar. -/
inductive Part.Derives : Part → List Token → Prop
  | sum_product {tokens} (h : product.Derives tokens) : sum.Derives tokens
  | sum_sign {left right} (sign : Sign) (ha : sum.Derives left) (hb : product.Derives right) :
      sum.Derives (left ++ sign.token :: right)
  | product_signed {tokens} (h : signed.Derives tokens) : product.Derives tokens
  | product_scale {left right} (scale : Scale) (ha : product.Derives left)
      (hb : signed.Derives right) : product.Derives (left ++ scale.token :: right)
  | signed_power {tokens} (h : power.Derives tokens) : signed.Derives tokens
  | signed_sign {tokens} (sign : Sign) (h : signed.Derives tokens) :
      signed.Derives (sign.token :: tokens)
  | power_atom {tokens} (h : atom.Derives tokens) : power.Derives tokens
  | power_signed {left right} (ha : atom.Derives left) (hb : signed.Derives right) :
      power.Derives (left ++ .power :: right)
  | number (spelling) : atom.Derives [.number spelling]
  | symbol (name) : atom.Derives [.identifier name]
  | emptyCall (name) : atom.Derives [.identifier name, .leftParen, .rightParen]
  | call {tokens} (name) (h : arguments.Derives tokens) :
      atom.Derives (.identifier name :: .leftParen :: (tokens ++ [.rightParen]))
  | group {tokens} (h : sum.Derives tokens) : atom.Derives (.leftParen :: (tokens ++ [.rightParen]))
  | arguments_sum {tokens} (h : sum.Derives tokens) : arguments.Derives tokens
  | arguments_comma {left right} (ha : arguments.Derives left) (hb : sum.Derives right) :
      arguments.Derives (left ++ .comma :: right)

/-! ### Derivations without trees -/

mutual

theorem IsSum.derives : ∀ {lexemes tree}, IsSum lexemes tree →
    Part.sum.Derives (lexemes.map Lexeme.token)
  | _, _, .product h => .sum_product h.derives
  | _, _, .sum sign span ha hb => by
    simpa using Part.Derives.sum_sign sign ha.derives hb.derives

theorem IsProduct.derives : ∀ {lexemes tree}, IsProduct lexemes tree →
    Part.product.Derives (lexemes.map Lexeme.token)
  | _, _, .signed h => .product_signed h.derives
  | _, _, .product scale span ha hb => by
    simpa using Part.Derives.product_scale scale ha.derives hb.derives

theorem IsSigned.derives : ∀ {lexemes tree}, IsSigned lexemes tree →
    Part.signed.Derives (lexemes.map Lexeme.token)
  | _, _, .power h => .signed_power h.derives
  | _, _, .signed sign span h => .signed_sign sign h.derives

theorem IsPower.derives : ∀ {lexemes tree}, IsPower lexemes tree →
    Part.power.Derives (lexemes.map Lexeme.token)
  | _, _, .atom h => .power_atom h.derives
  | _, _, .power span ha hb => by
    simpa using Part.Derives.power_signed ha.derives hb.derives

theorem IsAtom.derives : ∀ {lexemes tree}, IsAtom lexemes tree →
    Part.atom.Derives (lexemes.map Lexeme.token)
  | _, _, .number span h => .number _
  | _, _, .symbol name span => .symbol name
  | _, _, .emptyCall name span left right => .emptyCall name
  | _, _, .call name span left right h => by
    simpa using Part.Derives.call name h.derives
  | _, _, .group left right h => by
    simpa using Part.Derives.group h.derives

theorem IsArguments.derives : ∀ {lexemes arguments}, IsArguments lexemes arguments →
    Part.arguments.Derives (lexemes.map Lexeme.token)
  | _, _, .sum h => .arguments_sum h.derives
  | _, _, .comma span ha hb => by
    simpa using Part.Derives.arguments_comma ha.derives hb.derives

end

def AreConvertible (lexemes : List (Lexeme Token)) : Prop :=
  ∀ lexeme ∈ lexemes, ∀ spelling, lexeme.token = .number spelling →
    ∃ x, Number.readDouble? spelling.toList = some x

theorem IsSum.areConvertible {lexemes : List (Lexeme Token)} {tree : Tree}
    (h : IsSum lexemes tree) : AreConvertible lexemes := by
  rintro ⟨_, span⟩ hmem spelling rfl
  obtain ⟨last, hadvance, -⟩ := (recognizes.derives_iff lexemes tree).mp h
  obtain ⟨before, next, htake⟩ := Tree.reader.exists_step_of_mem hadvance hmem
  obtain ⟨-, x, hx, -⟩ := Progress.exists_readDouble?_of_take?_number htake
  exact ⟨x, hx⟩

/-! ### Trees for derivations -/

def Part.HasTree : Part → List (Lexeme Token) → Prop
  | sum => Sentence IsSum
  | product => Sentence IsProduct
  | signed => Sentence IsSigned
  | power => Sentence IsPower
  | atom => Sentence IsAtom
  | arguments => Sentence IsArguments

section

variable {lexemes : List (Lexeme Token)} {left right tokens : List Token} {token : Token}

theorem AreConvertible.tail {lexeme : Lexeme Token} (h : AreConvertible (lexeme :: lexemes)) :
    AreConvertible lexemes :=
  fun other hother => h other (List.mem_cons_of_mem lexeme hother)

/-- Lexemes that come with a token between two parts. -/
theorem exists_parts (htokens : lexemes.map Lexeme.token = left ++ token :: right)
    (hconvertible : AreConvertible lexemes) :
    ∃ front span back, lexemes = front ++ ⟨token, span⟩ :: back ∧
      (front.map Lexeme.token = left ∧ AreConvertible front) ∧
      back.map Lexeme.token = right ∧ AreConvertible back := by
  obtain ⟨front, _, rfl, hfront, hrest⟩ := List.map_eq_append_iff.mp htokens
  obtain ⟨⟨_, span⟩, back, rfl, rfl, hback⟩ := List.map_eq_cons_iff.mp hrest
  obtain ⟨hleft, hright⟩ := List.forall_mem_append.mp hconvertible
  exact ⟨front, span, back, rfl, ⟨hfront, hleft⟩, hback, AreConvertible.tail hright⟩

/-- Lexemes that come with brackets around them. -/
theorem exists_inside
    (htokens : lexemes.map Lexeme.token = .leftParen :: (tokens ++ [.rightParen]))
    (hconvertible : AreConvertible lexemes) :
    ∃ opening inside closing,
      lexemes = ⟨.leftParen, opening⟩ :: (inside ++ [⟨.rightParen, closing⟩]) ∧
        inside.map Lexeme.token = tokens ∧ AreConvertible inside := by
  obtain ⟨⟨_, opening⟩, rest, rfl, rfl, hrest⟩ := List.map_eq_cons_iff.mp htokens
  obtain ⟨inside, closing, behind, rfl, hinside, hbehind, -⟩ :=
    exists_parts hrest hconvertible.tail
  obtain rfl := List.map_eq_nil_iff.mp hbehind
  exact ⟨opening, inside, closing, rfl, hinside⟩

/-- Once all numbers are doubles, what derives has a tree. -/
theorem Part.Derives.hasTree {part : Part} (h : part.Derives tokens)
    (htokens : lexemes.map Lexeme.token = tokens) (hconvertible : AreConvertible lexemes) :
    part.HasTree lexemes := by
  induction h generalizing lexemes with
  | sum_product h ih =>
    obtain ⟨tree, h⟩ := ih htokens hconvertible
    exact ⟨tree, .product h⟩
  | sum_sign sign ha hb iha ihb =>
    obtain ⟨front, span, back, rfl, hfront, hback⟩ := exists_parts htokens hconvertible
    obtain ⟨a, ha⟩ := iha hfront.1 hfront.2
    obtain ⟨b, hb⟩ := ihb hback.1 hback.2
    exact ⟨_, .sum sign span ha hb⟩
  | product_signed h ih =>
    obtain ⟨tree, h⟩ := ih htokens hconvertible
    exact ⟨tree, .signed h⟩
  | product_scale scale ha hb iha ihb =>
    obtain ⟨front, span, back, rfl, hfront, hback⟩ := exists_parts htokens hconvertible
    obtain ⟨a, ha⟩ := iha hfront.1 hfront.2
    obtain ⟨b, hb⟩ := ihb hback.1 hback.2
    exact ⟨_, .product scale span ha hb⟩
  | signed_power h ih =>
    obtain ⟨tree, h⟩ := ih htokens hconvertible
    exact ⟨tree, .power h⟩
  | signed_sign sign h ih =>
    obtain ⟨⟨_, span⟩, rest, rfl, rfl, hrest⟩ := List.map_eq_cons_iff.mp htokens
    obtain ⟨tree, h⟩ := ih hrest hconvertible.tail
    exact ⟨_, .signed sign span h⟩
  | power_atom h ih =>
    obtain ⟨tree, h⟩ := ih htokens hconvertible
    exact ⟨tree, .atom h⟩
  | power_signed ha hb iha ihb =>
    obtain ⟨front, span, back, rfl, hfront, hback⟩ := exists_parts htokens hconvertible
    obtain ⟨a, ha⟩ := iha hfront.1 hfront.2
    obtain ⟨b, hb⟩ := ihb hback.1 hback.2
    exact ⟨_, .power span ha hb⟩
  | number spelling =>
    obtain ⟨⟨_, span⟩, rfl, rfl⟩ := List.map_eq_singleton_iff.mp htokens
    obtain ⟨x, hx⟩ := hconvertible _ (List.mem_singleton_self _) spelling rfl
    exact ⟨_, .number span hx⟩
  | symbol name =>
    obtain ⟨⟨_, span⟩, rfl, rfl⟩ := List.map_eq_singleton_iff.mp htokens
    exact ⟨_, .symbol name span⟩
  | emptyCall name =>
    obtain ⟨⟨_, span⟩, rest, rfl, rfl, hbrackets⟩ := List.map_eq_cons_iff.mp htokens
    obtain ⟨⟨_, opening⟩, last, rfl, rfl, hlast⟩ := List.map_eq_cons_iff.mp hbrackets
    obtain ⟨⟨_, closing⟩, rfl, rfl⟩ := List.map_eq_singleton_iff.mp hlast
    exact ⟨_, .emptyCall name span opening closing⟩
  | call name h ih =>
    obtain ⟨⟨_, span⟩, rest, rfl, rfl, hrest⟩ := List.map_eq_cons_iff.mp htokens
    obtain ⟨opening, inside, closing, rfl, hinside⟩ := exists_inside hrest hconvertible.tail
    obtain ⟨arguments, h⟩ := ih hinside.1 hinside.2
    exact ⟨_, .call name span opening closing h⟩
  | group h ih =>
    obtain ⟨opening, inside, closing, rfl, hinside⟩ := exists_inside htokens hconvertible
    obtain ⟨tree, h⟩ := ih hinside.1 hinside.2
    exact ⟨tree, .group opening closing h⟩
  | arguments_sum h ih =>
    obtain ⟨tree, h⟩ := ih htokens hconvertible
    exact ⟨[tree], .sum h⟩
  | arguments_comma ha hb iha ihb =>
    obtain ⟨front, span, back, rfl, hfront, hback⟩ := exists_parts htokens hconvertible
    obtain ⟨arguments, ha⟩ := iha hfront.1 hfront.2
    obtain ⟨tree, hb⟩ := ihb hback.1 hback.2
    exact ⟨_, .comma span ha hb⟩

end

/-- Lexemes have a tree when they derive and each number among them spells a double. -/
theorem exists_isSum_iff (lexemes : List (Lexeme Token)) :
    (∃ tree, IsSum lexemes tree) ↔
      Part.sum.Derives (lexemes.map Lexeme.token) ∧ AreConvertible lexemes := by
  constructor
  · rintro ⟨tree, h⟩
    exact ⟨h.derives, h.areConvertible⟩
  · rintro ⟨hderives, hconvertible⟩
    exact hderives.hasTree rfl hconvertible

/-- Lexemes are read exactly when their tokens derive from the grammar and each number among them
spells a double. What is read is the tree of a derivation, and no sequence derives two trees. -/
theorem read_iff_derived (length : Nat) (lexemes : List (Lexeme Token)) :
    ((∃ tree, Tree.ofLexemes length lexemes = .ok tree) ↔
      Part.sum.Derives (lexemes.map Lexeme.token) ∧
        ∀ lexeme ∈ lexemes, ∀ spelling, lexeme.token = .number spelling →
          ∃ x, Number.readDouble? spelling.toList = some x) ∧
    ∀ tree, Tree.ofLexemes length lexemes = .ok tree ↔
      ∀ other, IsSum lexemes other ↔ other = tree := by
  have hread : ∀ tree, Tree.ofLexemes length lexemes = .ok tree ↔ IsSum lexemes tree :=
    recognizes.read_eq_ok_iff length lexemes
  refine ⟨(exists_congr hread).trans (exists_isSum_iff lexemes), ?_⟩
  intro tree
  rw [hread]
  constructor
  · intro h other
    exact ⟨fun hother => recognizes.unique hother h, fun heq => heq ▸ h⟩
  · intro h
    exact (h tree).mpr rfl

/-- A number without the digits of its exponent is an operand of the grammar, and is not read. -/
theorem derived_but_not_read :
    Part.sum.Derives [.number "1e"] ∧
      ¬∃ tree, Tree.ofLexemes 2 [⟨.number "1e", 0, 2⟩] = .ok tree := by
  constructor
  · exact .sum_product (.product_signed (.signed_power (.power_atom (.number "1e"))))
  · rintro ⟨tree, h⟩
    exact nomatch h

end DeskCalculator.Expression
