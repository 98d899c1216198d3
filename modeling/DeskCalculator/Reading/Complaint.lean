import DeskCalculator.Reading.Lexeme

/-!
Complaints about token sequences: what was found, what could have stood there, and the words for
both. Expected tokens are listed in the order of their texts, and at most five of them.
-/
namespace DeskCalculator.Reading

/-- Why a token sequence is refused. An absent token stands for the end of input. -/
inductive Complaint (τ : Type) where
  | custom (message : String) (span : Span)
  | unclosed (delimiter : τ) (span : Span)
  | unexpected (found : Option τ) (expected : List (Option τ)) (span : Span)
deriving Repr

namespace Complaint

variable {τ : Type} [Vocabulary τ]

def span : Complaint τ → Span
  | custom _ span => span
  | unclosed _ span => span
  | unexpected _ _ span => span

def quoted : Option τ → String
  | some token => "'" ++ Vocabulary.text token ++ "'"
  | none => "end of input"

def listed : Nat := 5

def expectedTexts (expected : List (Option τ)) : List String :=
  ((expected.map quoted).mergeSort fun a b => !decide (b < a)).eraseReps

def message : Complaint τ → String
  | custom message _ => message
  | unclosed delimiter _ => "unclosed delimiter '" ++ Vocabulary.text delimiter ++ "'"
  | unexpected found expected _ =>
    let unexpected := "unexpected " ++ quoted found
    let texts := expectedTexts expected
    if texts.isEmpty then unexpected
    else if texts.length ≤ listed then
      unexpected ++ ", expected " ++ " or ".intercalate texts
    else unexpected ++ ", expected one of " ++ ", ".intercalate (texts.take listed) ++ ", ..."

end Complaint

end DeskCalculator.Reading
