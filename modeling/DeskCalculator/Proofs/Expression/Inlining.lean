import DeskCalculator.Proofs.Expression.Uses

/-!
Writing out what symbols stand for. Each symbol that has an expansion is replaced by it in brackets;
a name in front of an opening bracket is called and no symbol. An expression stays one when its
symbols are written out, and its tree changes at these symbols only, since a bracketed expression
may stand wherever a symbol may. Nothing here depends on places, so without any expansion this says
that an expression stays one, with the same tree but for the places in it, when its tokens stand
elsewhere.
-/
namespace DeskCalculator.Expression

open Reading

def Token.expanded (expand : String → Option (List Token)) : Token → List Token
  | identifier name =>
    match expand name with
    | some tokens => leftParen :: (tokens ++ [rightParen])
    | none => [identifier name]
  | token => [token]

def inline (expand : String → Option (List Token)) : List Token → List Token
  | [] => []
  | token :: rest =>
    if rest.head? = some .leftParen then token :: inline expand rest
    else token.expanded expand ++ inline expand rest

variable {expand : String → Option (List Token)}

theorem Token.expanded_of_not_identifier {token : Token} (h : token.isIdentifier = false) :
    token.expanded expand = [token] := by
  cases token with
  | identifier name => exact nomatch h
  | _ => rfl

theorem inline_cons_of_not_identifier {token : Token} (h : token.isIdentifier = false)
    (rest : List Token) : inline expand (token :: rest) = token :: inline expand rest := by
  rw [inline, Token.expanded_of_not_identifier h, List.singleton_append, ite_self]

/-- Tokens are written out on both sides of a place where no call opens. -/
theorem inline_append (left : List Token) {right : List Token}
    (h : right.head? ≠ some .leftParen) :
    inline expand (left ++ right) = inline expand left ++ inline expand right := by
  induction left with
  | nil => rfl
  | cons token rest ih =>
    have hhead : (rest ++ right).head? = some .leftParen ↔ rest.head? = some .leftParen := by
      cases rest with
      | nil => simp [h]
      | cons next rest => rfl
    rw [List.cons_append, inline, inline, ih]
    by_cases hcalled : rest.head? = some .leftParen
    · rw [if_pos hcalled, if_pos (hhead.mpr hcalled), List.cons_append]
    · rw [if_neg hcalled, if_neg fun hother => hcalled (hhead.mp hother), List.append_assoc]

theorem inline_none (tokens : List Token) : inline (fun _ => none) tokens = tokens := by
  induction tokens with
  | nil => rfl
  | cons token rest ih =>
    have hsame : token.expanded (fun _ => none) = [token] := by cases token <;> rfl
    rw [inline, hsame, ih, List.singleton_append, ite_self]

/-- Whether lexemes have the tokens of others with the symbols written out, wherever they stand. -/
def Inlined (expand : String → Option (List Token)) (lexemes other : List (Lexeme Token)) : Prop :=
  other.map Lexeme.token = inline expand (lexemes.map Lexeme.token)

theorem exists_of_map_token_eq_cons {lexemes : List (Lexeme Token)} {token : Token}
    {tokens : List Token} (h : lexemes.map Lexeme.token = token :: tokens) :
    ∃ span rest, lexemes = ⟨token, span⟩ :: rest ∧ rest.map Lexeme.token = tokens := by
  obtain ⟨⟨_, span⟩, rest, rfl, rfl, hrest⟩ := List.map_eq_cons_iff.mp h
  exact ⟨span, rest, rfl, hrest⟩

namespace Inlined

variable {left right rest other : List (Lexeme Token)} {token : Token} {span : Span}

theorem cons (h : Inlined expand (⟨token, span⟩ :: rest) other)
    (hname : token.isIdentifier = false) :
    ∃ span' rest', other = ⟨token, span'⟩ :: rest' ∧ Inlined expand rest rest' := by
  unfold Inlined at h
  rw [List.map_cons, inline_cons_of_not_identifier hname] at h
  exact exists_of_map_token_eq_cons h

/-- What stands between two parts stands between them in the other text too. -/
theorem append_cons (h : Inlined expand (left ++ ⟨token, span⟩ :: right) other)
    (hname : token.isIdentifier = false) (hparen : token ≠ .leftParen) :
    ∃ left' span' right', other = left' ++ ⟨token, span'⟩ :: right' ∧
      Inlined expand left left' ∧ Inlined expand right right' := by
  have hhead : (token :: right.map Lexeme.token).head? ≠ some .leftParen := by simpa using hparen
  unfold Inlined at h
  rw [List.map_append, List.map_cons, inline_append _ hhead] at h
  obtain ⟨left', behind, rfl, hleft, hbehind⟩ := List.map_eq_append_iff.mp h
  have hcons : Inlined expand (⟨token, span⟩ :: right) behind := hbehind
  obtain ⟨span', right', rfl, hright⟩ := hcons.cons hname
  exact ⟨left', span', right', rfl, hleft, hright⟩

theorem eq_nil (h : Inlined expand [] other) : other = [] := List.map_eq_nil_iff.mp h

theorem closed (h : Inlined expand (left ++ [⟨.rightParen, span⟩]) other) :
    ∃ left' span', other = left' ++ [⟨.rightParen, span'⟩] ∧ Inlined expand left left' := by
  obtain ⟨left', span', right', rfl, hleft, hright⟩ := h.append_cons rfl nofun
  obtain rfl := hright.eq_nil
  exact ⟨left', span', rfl, hleft⟩

/-- A name that is called is left as it is. -/
theorem called {name : String} {start : Span}
    (h : Inlined expand (⟨.identifier name, start⟩ :: ⟨.leftParen, span⟩ :: rest) other) :
    ∃ start' span' rest', other = ⟨.identifier name, start'⟩ :: ⟨.leftParen, span'⟩ :: rest' ∧
      Inlined expand rest rest' := by
  have hcalled : (Token.leftParen :: rest.map Lexeme.token).head? = some .leftParen := rfl
  unfold Inlined at h
  rw [List.map_cons, List.map_cons, inline, if_pos hcalled] at h
  obtain ⟨start', behind, rfl, hbehind⟩ := exists_of_map_token_eq_cons h
  have hcons : Inlined expand (⟨.leftParen, span⟩ :: rest) behind := hbehind
  obtain ⟨span', rest', rfl, hrest⟩ := hcons.cons rfl
  exact ⟨start', span', rest', rfl, hrest⟩

theorem symbol_of_none {name : String} (hname : expand name = none)
    (h : Inlined expand [⟨.identifier name, span⟩] other) :
    ∃ span', other = [⟨.identifier name, span'⟩] := by
  have hsame : other.map Lexeme.token = [.identifier name] := by
    simpa [Inlined, inline, Token.expanded, hname] using h
  obtain ⟨span', rest, rfl, hrest⟩ := exists_of_map_token_eq_cons hsame
  obtain rfl := List.map_eq_nil_iff.mp hrest
  exact ⟨span', rfl⟩

/-- A symbol with an expansion is written as the expansion in brackets. -/
theorem symbol_of_some {name : String} {tokens : List Token} (hname : expand name = some tokens)
    (h : Inlined expand [⟨.identifier name, span⟩] other) :
    ∃ start lexemes stop, other = ⟨.leftParen, start⟩ :: (lexemes ++ [⟨.rightParen, stop⟩]) ∧
      lexemes.map Lexeme.token = tokens := by
  have hbracketed : other.map Lexeme.token = .leftParen :: (tokens ++ [.rightParen]) := by
    simpa [Inlined, inline, Token.expanded, hname] using h
  obtain ⟨start, behind, rfl, hbehind⟩ := exists_of_map_token_eq_cons hbracketed
  obtain ⟨lexemes, last, rfl, hlexemes, hlast⟩ := List.map_eq_append_iff.mp hbehind
  obtain ⟨stop, rest, rfl, hrest⟩ := exists_of_map_token_eq_cons hlast
  obtain rfl := List.map_eq_nil_iff.mp hrest
  exact ⟨start, lexemes, stop, rfl, hlexemes⟩

end Inlined

mutual

/-- Whether a tree is another one with its symbols written out. Places may differ. -/
inductive Tree.Inlines (expand : String → Option (List Token)) : Tree → Tree → Prop
  | number (value) : Inlines expand (.number value) (.number value)
  | symbol {name} (hname : expand name = none) (span span') :
      Inlines expand (.symbol name span) (.symbol name span')
  | expanded {name lexemes tree} (hname : expand name = some (lexemes.map Lexeme.token)) (span)
      (h : IsSum lexemes tree) : Inlines expand (.symbol name span) tree
  | signed {body body'} (sign) (h : Inlines expand body body') :
      Inlines expand (.signed sign body) (.signed sign body')
  | sum {left right left' right'} (sign) (hleft : Inlines expand left left')
      (hright : Inlines expand right right') :
      Inlines expand (.sum sign left right) (.sum sign left' right')
  | product {left right left' right'} (scale) (hleft : Inlines expand left left')
      (hright : Inlines expand right right') :
      Inlines expand (.product scale left right) (.product scale left' right')
  | power {base exponent base' exponent'} (hbase : Inlines expand base base')
      (hexponent : Inlines expand exponent exponent') :
      Inlines expand (.power base exponent) (.power base' exponent')
  | call {arguments arguments'} (name span span') (h : InlinesAll expand arguments arguments') :
      Inlines expand (.call name span arguments) (.call name span' arguments')

inductive Tree.InlinesAll (expand : String → Option (List Token)) : List Tree → List Tree → Prop
  | nil : InlinesAll expand [] []
  | cons {tree tree' rest rest'} (h : Tree.Inlines expand tree tree')
      (hrest : InlinesAll expand rest rest') : InlinesAll expand (tree :: rest) (tree' :: rest')

end

theorem Tree.InlinesAll.append {trees trees' others others' : List Tree}
    (h : InlinesAll expand trees trees') (hothers : InlinesAll expand others others') :
    InlinesAll expand (trees ++ others) (trees' ++ others') := by
  induction trees generalizing trees' with
  | nil =>
    cases h with
    | nil => exact hothers
  | cons tree rest ih =>
    cases h with
    | cons htree hrest => exact .cons htree (ih hrest)

theorem Tree.InlinesAll.length_eq {trees trees' : List Tree} (h : InlinesAll expand trees trees') :
    trees'.length = trees.length := by
  induction trees generalizing trees' with
  | nil =>
    cases h with
    | nil => rfl
  | cons tree rest ih =>
    cases h with
    | cons htree hrest => rw [List.length_cons, List.length_cons, ih hrest]

def Expands (expand : String → Option (List Token)) : Prop :=
  ∀ name lexemes, expand name = some (lexemes.map Lexeme.token) → ∃ tree, IsSum lexemes tree

mutual

/-- An expression stays one when its symbols are written out. -/
theorem IsSum.inlined (hexpand : Expands expand) : ∀ {lexemes tree other}, IsSum lexemes tree →
    Inlined expand lexemes other → ∃ tree', IsSum other tree' ∧ tree.Inlines expand tree'
  | _, _, _, .product h, hother => by
    obtain ⟨tree', h', htree⟩ := h.inlined hexpand hother
    exact ⟨tree', .product h', htree⟩
  | _, _, _, .sum sign span ha hb, hother => by
    obtain ⟨left, span', right, rfl, hleft, hright⟩ :=
      hother.append_cons sign.isIdentifier_token (by cases sign <;> nofun)
    obtain ⟨a, ha', hA⟩ := ha.inlined hexpand hleft
    obtain ⟨b, hb', hB⟩ := hb.inlined hexpand hright
    exact ⟨_, .sum sign span' ha' hb', .sum sign hA hB⟩

theorem IsProduct.inlined (hexpand : Expands expand) : ∀ {lexemes tree other},
    IsProduct lexemes tree → Inlined expand lexemes other →
    ∃ tree', IsProduct other tree' ∧ tree.Inlines expand tree'
  | _, _, _, .signed h, hother => by
    obtain ⟨tree', h', htree⟩ := h.inlined hexpand hother
    exact ⟨tree', .signed h', htree⟩
  | _, _, _, .product scale span ha hb, hother => by
    obtain ⟨left, span', right, rfl, hleft, hright⟩ :=
      hother.append_cons scale.isIdentifier_token (by cases scale <;> nofun)
    obtain ⟨a, ha', hA⟩ := ha.inlined hexpand hleft
    obtain ⟨b, hb', hB⟩ := hb.inlined hexpand hright
    exact ⟨_, .product scale span' ha' hb', .product scale hA hB⟩

theorem IsSigned.inlined (hexpand : Expands expand) : ∀ {lexemes tree other},
    IsSigned lexemes tree → Inlined expand lexemes other →
    ∃ tree', IsSigned other tree' ∧ tree.Inlines expand tree'
  | _, _, _, .power h, hother => by
    obtain ⟨tree', h', htree⟩ := h.inlined hexpand hother
    exact ⟨tree', .power h', htree⟩
  | _, _, _, .signed sign span h, hother => by
    obtain ⟨span', rest, rfl, hrest⟩ := hother.cons sign.isIdentifier_token
    obtain ⟨tree', h', htree⟩ := h.inlined hexpand hrest
    exact ⟨_, .signed sign span' h', .signed sign htree⟩

theorem IsPower.inlined (hexpand : Expands expand) : ∀ {lexemes tree other},
    IsPower lexemes tree → Inlined expand lexemes other →
    ∃ tree', IsPower other tree' ∧ tree.Inlines expand tree'
  | _, _, _, .atom h, hother => by
    obtain ⟨tree', h', htree⟩ := h.inlined hexpand hother
    exact ⟨tree', .atom h', htree⟩
  | _, _, _, .power span ha hb, hother => by
    obtain ⟨left, span', right, rfl, hleft, hright⟩ := hother.append_cons rfl nofun
    obtain ⟨a, ha', hA⟩ := ha.inlined hexpand hleft
    obtain ⟨b, hb', hB⟩ := hb.inlined hexpand hright
    exact ⟨_, .power span' ha' hb', .power hA hB⟩

theorem IsAtom.inlined (hexpand : Expands expand) : ∀ {lexemes tree other},
    IsAtom lexemes tree → Inlined expand lexemes other →
    ∃ tree', IsAtom other tree' ∧ tree.Inlines expand tree'
  | _, _, _, .number span h, hother => by
    obtain ⟨span', rest, rfl, hrest⟩ := hother.cons rfl
    obtain rfl := hrest.eq_nil
    exact ⟨_, .number span' h, .number _⟩
  | _, _, _, .symbol name span, hother => by
    cases hname : expand name with
    | none =>
      obtain ⟨span', rfl⟩ := hother.symbol_of_none hname
      exact ⟨_, .symbol name span', .symbol hname span span'⟩
    | some tokens =>
      obtain ⟨start, lexemes, stop, rfl, rfl⟩ := hother.symbol_of_some hname
      obtain ⟨tree, h⟩ := hexpand name lexemes hname
      exact ⟨tree, .group start stop h, .expanded hname span h⟩
  | _, _, _, .emptyCall name span left right, hother => by
    obtain ⟨span', left', rest, rfl, hrest⟩ := hother.called
    obtain ⟨right', nothing, rfl, hnothing⟩ := hrest.cons rfl
    obtain rfl := hnothing.eq_nil
    exact ⟨_, .emptyCall name span' left' right', .call name span span' .nil⟩
  | _, _, _, .call name span left right h, hother => by
    obtain ⟨span', left', rest, rfl, hrest⟩ := hother.called
    obtain ⟨given, right', rfl, hgiven⟩ := hrest.closed
    obtain ⟨arguments, h', harguments⟩ := h.inlined hexpand hgiven
    exact ⟨_, .call name span' left' right' h', .call name span span' harguments⟩
  | _, _, _, .group left right h, hother => by
    obtain ⟨left', rest, rfl, hrest⟩ := hother.cons rfl
    obtain ⟨inner, right', rfl, hinner⟩ := hrest.closed
    obtain ⟨tree', h', htree⟩ := h.inlined hexpand hinner
    exact ⟨tree', .group left' right' h', htree⟩

theorem IsArguments.inlined (hexpand : Expands expand) : ∀ {lexemes arguments other},
    IsArguments lexemes arguments → Inlined expand lexemes other →
    ∃ arguments', IsArguments other arguments' ∧ Tree.InlinesAll expand arguments arguments'
  | _, _, _, .sum h, hother => by
    obtain ⟨tree', h', htree⟩ := h.inlined hexpand hother
    exact ⟨[tree'], .sum h', .cons htree .nil⟩
  | _, _, _, .comma span ha hb, hother => by
    obtain ⟨left, span', right, rfl, hleft, hright⟩ := hother.append_cons rfl nofun
    obtain ⟨arguments, ha', hA⟩ := ha.inlined hexpand hleft
    obtain ⟨tree, hb', hB⟩ := hb.inlined hexpand hright
    exact ⟨_, .comma span' ha' hb', hA.append (.cons hB .nil)⟩

end

/-- Where its tokens stand does not matter to an expression, and its tree is the same but for the
places in it. -/
theorem IsSum.relocated {lexemes other : List (Lexeme Token)} {tree : Tree} (h : IsSum lexemes tree)
    (hother : other.map Lexeme.token = lexemes.map Lexeme.token) :
    ∃ tree', IsSum other tree' ∧ tree.Inlines (fun _ => none) tree' := by
  have hexpand : Expands fun _ => none := fun _ _ hname => nomatch hname
  have hinlined : Inlined (fun _ => none) lexemes other := by rw [Inlined, inline_none, hother]
  exact h.inlined hexpand hinlined

end DeskCalculator.Expression
