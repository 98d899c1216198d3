import DeskCalculator.Proofs.Hex.Arithmetic
import DeskCalculator.Proofs.Hex.Spelling
import Mathlib.Data.List.DropRight

/-!
Texts that are joined behind a digit, with a space between them and without one. Evaluation depends
on the tokens of a text only, and those of the two joined texts are the same unless the second one
begins with a digit as well. Then the space keeps two literals apart, and no expression has two
literals in a row.
-/
namespace DeskCalculator.Hex

open Number Reading

section

variable {lexemes other : List (Lexeme Token)} {tree : Tree}

/-- Where the tokens of an operand stand does not matter to its value. -/
theorem IsOperand.relocated (h : IsOperand lexemes tree)
    (hother : other.map Lexeme.token = lexemes.map Lexeme.token) :
    ∃ tree', IsOperand other tree' ∧ value tree' = value tree := by
  induction h generalizing other with
  | literal digits span =>
    obtain ⟨⟨_, place⟩, rfl, rfl⟩ := List.map_eq_singleton_iff.mp hother
    exact ⟨_, .literal digits place, rfl⟩
  | signed sign span h ih =>
    obtain ⟨⟨_, place⟩, rest, rfl, rfl, hrest⟩ := List.map_eq_cons_iff.mp hother
    obtain ⟨body, hbody, hvalue⟩ := ih hrest
    exact ⟨_, .signed sign place hbody, by simp only [value, hvalue]⟩

/-- The value of a product does not depend on where its tokens stand. -/
theorem IsProduct.relocated (h : IsProduct lexemes tree)
    (hother : other.map Lexeme.token = lexemes.map Lexeme.token) :
    ∃ tree', IsProduct other tree' ∧ value tree' = value tree := by
  induction h generalizing other with
  | operand h =>
    obtain ⟨tree', htree, hvalue⟩ := h.relocated hother
    exact ⟨tree', .operand htree, hvalue⟩
  | product scale span ha hb ih =>
    rw [List.map_append, List.map_cons, List.map_eq_append_iff] at hother
    obtain ⟨left, behind, rfl, hleft, hbehind⟩ := hother
    obtain ⟨⟨_, place⟩, right, rfl, rfl, hright⟩ := List.map_eq_cons_iff.mp hbehind
    obtain ⟨a', ha', hvalueA⟩ := ih hleft
    obtain ⟨b', hb', hvalueB⟩ := hb.relocated hright
    exact ⟨_, .product scale place ha' hb', by simp only [value, hvalueA, hvalueB]⟩

/-- Where its tokens stand does not matter to an expression, and neither to its value. -/
theorem IsSum.relocated (h : IsSum lexemes tree)
    (hother : other.map Lexeme.token = lexemes.map Lexeme.token) :
    ∃ tree', IsSum other tree' ∧ value tree' = value tree := by
  induction h generalizing other with
  | product h =>
    obtain ⟨tree', htree, hvalue⟩ := h.relocated hother
    exact ⟨tree', .product htree, hvalue⟩
  | sum sign span ha hb ih =>
    rw [List.map_append, List.map_cons, List.map_eq_append_iff] at hother
    obtain ⟨left, behind, rfl, hleft, hbehind⟩ := hother
    obtain ⟨⟨_, place⟩, right, rfl, rfl, hright⟩ := List.map_eq_cons_iff.mp hbehind
    obtain ⟨a', ha', hvalueA⟩ := ih hleft
    obtain ⟨b', hb', hvalueB⟩ := hb.relocated hright
    exact ⟨_, .sum sign place ha' hb', by simp only [value, hvalueA, hvalueB]⟩

/-- No expression has two literals in a row. -/
theorem IsSum.isChain_isLiteral (h : IsSum lexemes tree) :
    (lexemes.map Lexeme.token).IsChain fun first second =>
      ∀ digits others, first = .literal digits → second ≠ .literal others := by
  obtain ⟨last, hadvance, -⟩ := (recognizes.derives_iff _ _).mp h
  rw [List.isChain_map]
  refine (Tree.reader.isChain_of_advance hadvance).imp ?_
  rintro ⟨_, start⟩ ⟨_, stop⟩ ⟨before, between, after, hfirst, hsecond⟩ digits others rfl rfl
  have htaken : before.take? ⟨.literal digits, start⟩ = some between := hfirst
  obtain ⟨operand, work⟩ := before
  cases operand with
  | some operand => exact nomatch htaken
  | none =>
    obtain rfl := Option.some.inj htaken
    exact nomatch hsecond

end

def SameKind (x y : Except Fault Int) : Prop :=
  x.mapError (fun fault => fault.failure.kind) = y.mapError fun fault => fault.failure.kind

/-- Texts with the same tokens are evaluated to the same integer or fail with the same kind. -/
theorem evaluate_sameKind_of_tokens {text other : String}
    (htokens : tokensOf Token other.toList = tokensOf Token text.toList) :
    SameKind (evaluate other) (evaluate text) := by
  by_cases hsentence : Sentence IsSum (scan Token text)
  · obtain ⟨tree, htree⟩ := hsentence
    obtain ⟨tree', htree', hvalue⟩ := htree.relocated htokens
    rw [SameKind, evaluate_of_isSum htree, evaluate_of_isSum htree', hvalue]
  · have hother : ¬Sentence IsSum (scan Token other) := by
      rintro ⟨tree', htree'⟩
      obtain ⟨tree, htree, -⟩ := htree'.relocated htokens.symm
      exact hsentence ⟨tree, htree⟩
    obtain ⟨fault, hfault, hkind⟩ := evaluate_of_not_sentence hsentence
    obtain ⟨fault', hfault', hkind'⟩ := evaluate_of_not_sentence hother
    rw [SameKind, hfault, hfault']
    exact congrArg Except.error (hkind'.trans hkind.symm)

namespace Token

variable {left right : List Char}

/-- Texts are parted where two characters meet that are not both digits. -/
theorem isParted (h : ∀ c d, [c] <:+ left → [d] <+: right → isHexDigit c = true →
    isHexDigit d = false) : IsParted Spells left right := by
  rintro token word (⟨hfixed, rfl⟩ | ⟨-, first, rest, rfl, hfirst, hrest⟩) c d hc hd hpair
  · have hone : token.text.toList.length = 1 := by
      cases token with
      | literal | invalid => exact hfixed.elim
      | _ => rfl
    have htwo := hpair.length_le
    rw [hone] at htwo
    exact absurd htwo (Nat.not_succ_le_self 1)
  · have hdigits : ∀ c ∈ first :: rest, isHexDigit c = true :=
      List.forall_mem_cons.mpr ⟨hfirst, hrest⟩
    have hnone := h c d hc hd (hdigits c (hpair.subset (by simp)))
    exact nomatch hnone.symm.trans (hdigits d (hpair.subset (by simp)))

theorem front?_of_isHexDigit {d : Char} (h : isHexDigit d = true) (rest : List Char) :
    front? (d :: rest) = some (literal (String.ofList (d :: rest.takeWhile isHexDigit)),
      (rest.takeWhile isHexDigit).length + 1) := by
  have hnone : symbol? (d :: rest) = none := by
    unfold symbol?
    split <;> simp_all [isHexDigit, hexDigit?]
  rw [front?_eq]
  simp only [hnone, literal?, h, if_true]
  rfl

/-- A text that begins with a digit has a literal first. -/
theorem exists_tokensOf_literal {d : Char} (h : isHexDigit d = true) (rest : List Char) :
    ∃ digits tokens, tokensOf Token (d :: rest) = literal digits :: tokens := by
  have hsplit : rest.takeWhile isHexDigit ++ rest.dropWhile isHexDigit = rest :=
    List.takeWhile_append_dropWhile
  have hfront := front?_of_isHexDigit h rest
  nth_rewrite 1 [← hsplit] at hfront
  have htokens := tokensOf_cons_append (τ := Token)
    (not_isSeparator_of (p := isHexDigit) (by decide) h) hfront
  rw [hsplit] at htokens
  exact ⟨_, _, htokens⟩

/-- A text that ends in a digit has a literal last. -/
theorem exists_tokensOf_concat_literal (front : List Char) {c : Char} (h : isHexDigit c = true) :
    ∃ tokens digits, tokensOf Token (front ++ [c]) = tokens ++ [literal digits] := by
  have hsplit : front.rdropWhile isHexDigit ++ front.rtakeWhile isHexDigit = front :=
    List.rdropWhile_append_rtakeWhile
  have hrun : IsRun isHexDigit isHexDigit (front.rtakeWhile isHexDigit ++ [c]) := by
    refine isRun_iff.mpr ⟨List.concat_ne_nil c _, fun d hd => ?_⟩
    rcases List.mem_append.mp hd with hmem | hlast
    · exact List.mem_rtakeWhile_imp hmem
    · exact List.mem_singleton.mp hlast ▸ h
  have hparted : IsParted Spells (front.rdropWhile isHexDigit)
      (front.rtakeWhile isHexDigit ++ [c]) := by
    refine isParted fun last d hlast _ hdigit => ?_
    obtain ⟨init, hinit⟩ := hlast
    have hnot := List.rdropWhile_last_not (p := isHexDigit) front (by simp [← hinit])
    simp only [← hinit, List.getLast_append_singleton] at hnot
    exact absurd hdigit hnot
  have htokens := isLegible.tokensOf_append hparted
  rw [isLegible.tokensOf_of_spells (.inr ⟨rfl, hrun⟩), ← List.append_assoc, hsplit] at htokens
  exact ⟨_, _, htokens⟩

end Token

section

variable {text typed : String}

theorem tokensOf_append_space (text typed : String) :
    tokensOf Token (text ++ " " ++ typed).toList =
      tokensOf Token text.toList ++ tokensOf Token typed.toList := by
  have hspace : Vocabulary.isSeparator Token ' ' = true := rfl
  have hparted := Token.isLegible.isParted_of_isSeparator text.toList hspace typed.toList
  have hlist : (text ++ " " ++ typed).toList = text.toList ++ ' ' :: typed.toList := by simp
  rw [hlist, Token.isLegible.tokensOf_append hparted, tokensOf_cons_separator hspace]

/-- A space where no two digits meet makes no difference. -/
theorem evaluate_append_space (h : ∀ c d, [c] <:+ text.toList → [d] <+: typed.toList →
      isHexDigit c = true → isHexDigit d = false) :
    SameKind (evaluate (text ++ " " ++ typed)) (evaluate (text ++ typed)) := by
  apply evaluate_sameKind_of_tokens
  rw [tokensOf_append_space, String.toList_append, Token.isLegible.tokensOf_append (Token.isParted h)]

/-- A space between two digits leaves two literals in a row. -/
theorem evaluate_append_space_of_digits {c d : Char} (hc : [c] <:+ text.toList)
    (hd : [d] <+: typed.toList) (hdigits : isHexDigit c = true ∧ isHexDigit d = true) :
    ∃ fault, evaluate (text ++ " " ++ typed) = .error fault ∧ fault.failure.kind = .malformed := by
  apply evaluate_of_not_sentence
  rintro ⟨tree, htree⟩
  obtain ⟨front, hfront⟩ := hc
  obtain ⟨rest, hrest⟩ := hd
  obtain ⟨before, first, hbefore⟩ := Token.exists_tokensOf_concat_literal front hdigits.1
  obtain ⟨second, behind, hbehind⟩ := Token.exists_tokensOf_literal hdigits.2 rest
  have hchain := htree.isChain_isLiteral
  rw [map_token_scan, tokensOf_append_space, ← hfront, ← hrest, List.singleton_append, hbefore,
    hbehind, List.append_assoc] at hchain
  have hpair := (List.isChain_append.mp hchain).2.1
  exact (List.isChain_cons_cons.mp hpair).1 first second rfl rfl

end

end DeskCalculator.Hex
