import DeskCalculator.Proofs.Expression.Steps

/-!
Every derivation is read, and read as its tree. A derivation begins where an operand is awaited and
ends behind one; the brackets that were open stay as they were, and the work left pending is such
that settling it with the operand at hand gives the tree. How much of the work has to be settled
depends on the rule: nothing for an atom, signs and bases for a signed operand, the product for a
product, everything for a sum.
-/
namespace DeskCalculator.Expression

open Reading

namespace Progress

/-- From `p` the lexemes lead behind an operand, with the same open brackets and with pending work
that `P` allows for this operand. -/
def Reaches (p : Progress) (lexemes : List (Lexeme Token)) (P : Pending → Tree → Prop) : Prop :=
  ∃ phase work operand, phase.operand? = some operand ∧ P work operand ∧
    Tree.reader.advance p lexemes = some ⟨phase, work, p.outer⟩

theorem Reaches.mono {p : Progress} {lexemes : List (Lexeme Token)} {P Q : Pending → Tree → Prop}
    (h : p.Reaches lexemes P) (hPQ : ∀ work operand, P work operand → Q work operand) :
    p.Reaches lexemes Q := by
  obtain ⟨phase, work, operand, hphase, hP, hadvance⟩ := h
  exact ⟨phase, work, operand, hphase, hPQ work operand hP, hadvance⟩

end Progress

open Progress

def Pending.Settles (work : Pending) (sum : Option (Tree × Sign)) (operand tree : Tree) : Prop :=
  work.sum = sum ∧ work.term operand = tree

def Pending.Extends (before work : Pending) (operand tree : Tree) : Prop :=
  work.sum = before.sum ∧ work.product = before.product ∧
    work.factor operand = before.factor tree

mutual

/-- A sum is read behind an open bracket, where nothing is pending. -/
theorem IsSum.reaches : ∀ {lexemes tree}, IsSum lexemes tree →
    ∀ (phase : Phase) (outer), phase.AwaitsOperand →
      (⟨phase, {}, outer⟩ : Progress).Reaches lexemes
        fun work operand => work.total operand = tree
  | _, _, .product h, phase, outer, hphase => by
    refine (h.reaches phase none outer hphase).mono ?_
    intro work operand hpending
    obtain ⟨hsum, hterm⟩ := hpending
    simp only [Pending.total, hsum, hterm]
  | _, _, @IsSum.sum _ right a b sign span ha hb, phase, outer, hphase => by
    obtain ⟨behind, work, operand, hoperand, htotal, hleft⟩ := ha.reaches phase outer hphase
    have hstep := advance_append_of_operand hleft hoperand ⟨sign.token, span⟩
      (sign_token_ne sign).2 (takeOperator_sign _ operand sign) right
    obtain ⟨last, work', operand', hoperand', ⟨hsum, hterm⟩, hright⟩ :=
      hb.reaches .operand (some (a, sign)) outer trivial
    refine ⟨last, work', operand', hoperand', ?_, ?_⟩
    · simp only [Pending.total, hsum, hterm]
    · rw [hstep, htotal]
      exact hright

theorem IsProduct.reaches : ∀ {lexemes tree}, IsProduct lexemes tree →
    ∀ (phase : Phase) (sum outer), phase.AwaitsOperand →
      (⟨phase, { sum := sum }, outer⟩ : Progress).Reaches lexemes
        fun work operand => work.Settles sum operand tree
  | _, _, .signed h, phase, sum, outer, hphase => by
    refine (h.reaches phase { sum := sum } outer hphase).mono ?_
    intro work operand hpending
    obtain ⟨hsum, hproduct, hfactor⟩ := hpending
    refine ⟨hsum, ?_⟩
    simp only [Pending.term, hproduct, hfactor]
    rfl
  | _, _, @IsProduct.product _ right a b scale span ha hb, phase, sum, outer, hphase => by
    obtain ⟨behind, work, operand, hoperand, ⟨hsum, hterm⟩, hleft⟩ :=
      ha.reaches phase sum outer hphase
    have hstep := advance_append_of_operand hleft hoperand ⟨scale.token, span⟩
      (scale_token_ne scale) (takeOperator_scale _ operand scale) right
    obtain ⟨last, work', operand', hoperand', ⟨hsum', hproduct, hfactor⟩, hright⟩ :=
      hb.reaches .operand { sum := sum, product := some (a, scale) } outer trivial
    refine ⟨last, work', operand', hoperand', ⟨hsum', ?_⟩, ?_⟩
    · simp only [Pending.term, hproduct, hfactor]
      rfl
    · rw [hstep, hterm, hsum]
      exact hright

theorem IsSigned.reaches : ∀ {lexemes tree}, IsSigned lexemes tree →
    ∀ (phase : Phase) (before outer), phase.AwaitsOperand →
      (⟨phase, before, outer⟩ : Progress).Reaches lexemes
        fun work operand => before.Extends work operand tree
  | _, _, .power h, phase, before, outer, hphase => h.reaches phase before outer hphase
  | _, _, @IsSigned.signed lexemes _ sign span h, phase, before, outer, hphase => by
    have hstep := advance_cons_of_awaitsOperand (p := ⟨phase, before, outer⟩) hphase
      ⟨sign.token, span⟩ (sign_token_ne sign).1 (takeOperand_sign _ sign span) lexemes
    obtain ⟨last, work, operand, hoperand, hextends, hrest⟩ :=
      h.reaches .operand { before with tight := .sign sign :: before.tight } outer trivial
    exact ⟨last, work, operand, hoperand, hextends, hstep.trans hrest⟩

theorem IsPower.reaches : ∀ {lexemes tree}, IsPower lexemes tree →
    ∀ (phase : Phase) (before outer), phase.AwaitsOperand →
      (⟨phase, before, outer⟩ : Progress).Reaches lexemes
        fun work operand => before.Extends work operand tree
  | _, _, .atom h, phase, before, outer, hphase => by
    refine (h.reaches phase before outer hphase).mono ?_
    intro work operand hpending
    obtain ⟨rfl, rfl⟩ := hpending
    exact ⟨rfl, rfl, rfl⟩
  | _, _, @IsPower.power _ right _ _ span ha hb, phase, before, outer, hphase => by
    obtain ⟨behind, work, operand, hoperand, ⟨rfl, rfl⟩, hleft⟩ :=
      ha.reaches phase before outer hphase
    have hstep := advance_append_of_operand hleft hoperand ⟨.power, span⟩
      nofun rfl right
    obtain ⟨last, work', operand', hoperand', hextends, hright⟩ :=
      hb.reaches .operand { work with tight := .base operand :: work.tight } outer trivial
    exact ⟨last, work', operand', hoperand', hextends, hstep.trans hright⟩

/-- An atom is taken as it is, whatever is pending in front of it. -/
theorem IsAtom.reaches : ∀ {lexemes tree}, IsAtom lexemes tree →
    ∀ (phase : Phase) (before outer), phase.AwaitsOperand →
      (⟨phase, before, outer⟩ : Progress).Reaches lexemes
        fun work operand => work = before ∧ operand = tree
  | _, _, @IsAtom.number spelling value span h, phase, before, outer, hphase => by
    have htake : (⟨phase, before, outer⟩ : Progress).takeOperand ⟨.number spelling, span⟩ =
        some ⟨.operator (.number value), before, outer⟩ := by
      simp [Progress.takeOperand, h]
    exact ⟨.operator (.number value), before, _, rfl, ⟨rfl, rfl⟩,
      advance_cons_of_awaitsOperand hphase ⟨.number spelling, span⟩ nofun htake []⟩
  | _, _, .symbol name span, phase, before, outer, hphase =>
    ⟨.named name span, before, _, rfl, ⟨rfl, rfl⟩,
      advance_cons_of_awaitsOperand hphase ⟨.identifier name, span⟩ nofun rfl []⟩
  | _, _, .emptyCall name span left right, phase, before, outer, hphase =>
    ⟨.operator (.call name span []), before, _, rfl, ⟨rfl, rfl⟩,
      advance_cons_of_awaitsOperand hphase ⟨.identifier name, span⟩ nofun rfl _⟩
  | _, _, @IsAtom.call lexemes arguments name span left right h, phase, before, outer, hphase => by
    have hopen := advance_cons_of_awaitsOperand (p := ⟨phase, before, outer⟩) hphase
      ⟨.identifier name, span⟩ nofun rfl
      (⟨.leftParen, left⟩ :: (lexemes ++ [⟨.rightParen, right⟩]))
    obtain ⟨behind, work, operand, given, hoperand, hgiven, hinner⟩ :=
      h.reaches .argument name span [] before outer trivial
    have hclose := advance_append_of_operand hinner hoperand ⟨.rightParen, right⟩
      nofun rfl []
    have htree : Tree.call name span (given ++ [work.total operand]) =
        .call name span arguments := by
      rw [hgiven, List.nil_append]
    exact ⟨.operator (.call name span (given ++ [work.total operand])), before, _, rfl,
      ⟨rfl, htree⟩, hopen.trans hclose⟩
  | _, _, @IsAtom.group lexemes _ left right h, phase, before, outer, hphase => by
    have hopen := advance_cons_of_awaitsOperand (p := ⟨phase, before, outer⟩) hphase
      ⟨.leftParen, left⟩ nofun rfl (lexemes ++ [⟨.rightParen, right⟩])
    obtain ⟨behind, work, operand, hoperand, htotal, hinner⟩ :=
      h.reaches .operand ((.group, before) :: outer) trivial
    have hclose := advance_append_of_operand hinner hoperand ⟨.rightParen, right⟩
      nofun rfl []
    exact ⟨.operator (work.total operand), before, _, rfl, ⟨rfl, htotal⟩, hopen.trans hclose⟩

theorem IsArguments.reaches : ∀ {lexemes arguments}, IsArguments lexemes arguments →
    ∀ (phase : Phase) (name span before outside outer), phase.AwaitsOperand →
      ∃ (last : Phase) (work : Pending) (operand : Tree) (given : List Tree),
        last.operand? = some operand ∧
        given ++ [work.total operand] = before ++ arguments ∧
        Tree.reader.advance ⟨phase, {}, (.call name span before, outside) :: outer⟩ lexemes =
          some ⟨last, work, (.call name span given, outside) :: outer⟩
  | _, _, .sum h, phase, name, span, before, outside, outer, hphase => by
    obtain ⟨last, work, operand, hoperand, htotal, hadvance⟩ :=
      h.reaches phase ((.call name span before, outside) :: outer) hphase
    exact ⟨last, work, operand, before, hoperand, by rw [htotal], hadvance⟩
  | _, _, @IsArguments.comma _ right _ _ comma ha hb, phase, name, span, before, outside, outer,
      hphase => by
    obtain ⟨behind, work, operand, given, hoperand, hgiven, hleft⟩ :=
      ha.reaches phase name span before outside outer hphase
    have hstep := advance_append_of_operand hleft hoperand ⟨.comma, comma⟩
      nofun rfl right
    obtain ⟨last, work', operand', hoperand', htotal, hright⟩ :=
      hb.reaches .operand
        ((.call name span (given ++ [work.total operand]), outside) :: outer) trivial
    refine ⟨last, work', operand', given ++ [work.total operand], hoperand', ?_,
      hstep.trans hright⟩
    rw [hgiven, htotal, List.append_assoc]

end

/-- An expression is read as its tree. -/
theorem IsSum.exists_advance {lexemes : List (Lexeme Token)} {tree : Tree}
    (h : IsSum lexemes tree) :
    ∃ last, Tree.reader.advance Tree.reader.start lexemes = some last ∧
      Tree.reader.finish last = some tree := by
  obtain ⟨phase, work, operand, hoperand, rfl, hadvance⟩ :=
    h.reaches .operand [] trivial
  exact ⟨_, hadvance, tree?_of_operand hoperand work⟩

end DeskCalculator.Expression
