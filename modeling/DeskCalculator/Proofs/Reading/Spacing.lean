import DeskCalculator.Proofs.Reading.Scanning
import DeskCalculator.Proofs.Reading.Tiling
import Mathlib.Data.List.Chain
import Mathlib.Data.List.Forall2

/-!
Scanning what tokens are written as. A text is laid out from tokens with runs of separators behind
them. No word contains a separator, so a separator ends the word in front of it; and separators that
are added where a token ends never let an earlier word grow, since a longer word would have been
there without them.
-/
namespace DeskCalculator.Reading

variable {τ : Type} [Vocabulary τ] {Spells : τ → List Char → Prop}

/-- Whether the words by which a vocabulary is ruled tell their tokens and hold no separators. -/
structure IsLegible (τ : Type) [Vocabulary τ] (Spells : τ → List Char → Prop) : Prop
    extends IsRuledBy τ Spells where
  solid : ∀ {token word}, Spells token word → ∀ c ∈ word, Vocabulary.isSeparator τ c = false
  told : ∀ {token other word}, Spells token word → Spells other word → other = token

structure Gap (τ : Type) [Vocabulary τ] where
  run : List Char
  blank : ∀ c ∈ run, Vocabulary.isSeparator τ c = true

structure Piece (τ : Type) [Vocabulary τ] where
  token : τ
  behind : Gap τ

def Piece.word (piece : Piece τ) : List Char := (Vocabulary.text piece.token).toList

def lay : List (Piece τ) → List Char
  | [] => []
  | piece :: rest => piece.word ++ (piece.behind.run ++ lay rest)

def layOut (before : Gap τ) (pieces : List (Piece τ)) : List Char := before.run ++ lay pieces

/-- Whether each token is what stands at its place by maximal munch. -/
def Munched (Spells : τ → List Char → Prop) : List (Piece τ) → Prop
  | [] => True
  | piece :: rest =>
    IsMunch Spells (piece.word ++ (piece.behind.run ++ lay rest)) piece.token piece.word ∧
      Munched Spells rest

/-- Whether two layouts have the same tokens and the second has separators wherever the first one
has. -/
def Respaces : List (Piece τ) → List (Piece τ) → Prop :=
  List.Forall₂ fun piece other =>
    other.token = piece.token ∧ (piece.behind.run ≠ [] → other.behind.run ≠ [])

/-- Whether every part of a text that stands in front of its first separator also begins another
text. -/
def BeginsLike (text other : List Char) : Prop :=
  ∀ front, front <+: text → (∀ c ∈ front, Vocabulary.isSeparator τ c = false) → front <+: other

theorem beginsLike_of_run_ne_nil {gap : Gap τ} (h : gap.run ≠ []) (rest other : List Char) :
    BeginsLike (τ := τ) (gap.run ++ rest) other := by
  intro front hfront hsolid
  obtain ⟨c, run, hrun⟩ := List.exists_cons_of_ne_nil h
  cases front with
  | nil => exact List.nil_prefix
  | cons d others =>
    rw [hrun, List.cons_append, List.cons_prefix_cons] at hfront
    have hblank : Vocabulary.isSeparator τ c = true := gap.blank c (by simp [hrun])
    have hnot : Vocabulary.isSeparator τ c = false := hsolid c (by simp [hfront.1])
    exact absurd (hblank.symm.trans hnot) (by decide)

theorem beginsLike_append {word text other : List Char} (h : BeginsLike (τ := τ) text other) :
    BeginsLike (τ := τ) (word ++ text) (word ++ other) := by
  intro front hfront hsolid
  rcases List.prefix_or_prefix_of_prefix hfront (List.prefix_append word text) with
    hshort | ⟨rest, rfl⟩
  · exact hshort.trans (List.prefix_append word other)
  · have hrest : rest <+: text := (List.prefix_append_right_inj word).mp hfront
    have hsolidRest : ∀ c ∈ rest, Vocabulary.isSeparator τ c = false :=
      fun c hc => hsolid c (List.mem_append_right word hc)
    exact (List.prefix_append_right_inj word).mpr (h rest hrest hsolidRest)

theorem beginsLike_behind {gap other : Gap τ} (hgap : gap.run ≠ [] → other.run ≠ [])
    {rest otherRest : List Char} (h : BeginsLike (τ := τ) otherRest rest) :
    BeginsLike (τ := τ) (other.run ++ otherRest) (gap.run ++ rest) := by
  by_cases hnone : other.run = []
  · have hgapNone : gap.run = [] := Classical.not_not.mp fun hne => hgap hne hnone
    simpa only [hnone, hgapNone, List.nil_append] using h
  · exact beginsLike_of_run_ne_nil hnone _ _

section

variable {R : Char → Char → Prop}

theorem isChain_run_append (hblank : ∀ b c, Vocabulary.isSeparator τ b = true → R b c ∧ R c b)
    (gap : Gap τ) {text : List Char} (h : text.IsChain R) : (gap.run ++ text).IsChain R := by
  have hrun : gap.run.IsChain R := by
    apply List.Pairwise.isChain
    apply List.pairwise_of_forall_mem_list
    exact fun b hb c _ => (hblank b c (gap.blank b hb)).1
  refine List.isChain_append.mpr ⟨hrun, h, ?_⟩
  intro b hb c _
  exact (hblank b c (gap.blank b (List.mem_of_mem_getLast? hb))).1

/-- A relation between neighbouring characters that holds within the words, between neighbouring
words and around separators holds in the whole text. -/
theorem isChain_lay (hblank : ∀ b c, Vocabulary.isSeparator τ b = true → R b c ∧ R c b)
    {pieces : List (Piece τ)} (hwords : ∀ piece ∈ pieces, piece.word ≠ [] ∧ piece.word.IsChain R)
    (hnext : pieces.IsChain fun first second =>
      ∀ c ∈ first.word.getLast?, ∀ d ∈ second.word.head?, R c d) :
    (lay pieces).IsChain R := by
  induction pieces with
  | nil => exact .nil
  | cons piece rest ih =>
    obtain ⟨⟨-, hword⟩, hrest⟩ := List.forall_mem_cons.mp hwords
    have hbehind : (piece.behind.run ++ lay rest).IsChain R :=
      isChain_run_append hblank piece.behind (ih hrest hnext.tail)
    refine List.isChain_append.mpr ⟨hword, hbehind, ?_⟩
    intro c hc d hd
    cases hrun : piece.behind.run with
    | cons b run =>
      rw [hrun] at hd
      obtain rfl := Option.some.inj hd
      exact (hblank b c (piece.behind.blank b (by simp [hrun]))).2
    | nil =>
      rw [hrun, List.nil_append] at hd
      cases rest with
      | nil => exact nomatch hd
      | cons next others =>
        have hne : next.word ≠ [] := (hrest next (List.mem_cons_self ..)).1
        rw [lay, List.head?_append_of_ne_nil _ hne] at hd
        exact (List.isChain_cons_cons.mp hnext).1 c hc d hd

end

theorem Munched.spells {pieces : List (Piece τ)} (h : Munched Spells pieces) :
    ∀ piece ∈ pieces, Spells piece.token piece.word := by
  induction pieces with
  | nil => nofun
  | cons piece rest ih => exact List.forall_mem_cons.mpr ⟨h.1.spelled, ih h.2⟩

theorem Respaces.map_token_eq {pieces others : List (Piece τ)} (h : Respaces pieces others) :
    others.map Piece.token = pieces.map Piece.token := by
  induction h with
  | nil => rfl
  | cons hpiece _ ih => rw [List.map_cons, List.map_cons, hpiece.1, ih]

theorem Respaces.beginsLike {pieces others : List (Piece τ)} (h : Respaces pieces others) :
    BeginsLike (τ := τ) (lay others) (lay pieces) := by
  induction h with
  | nil => exact fun front hfront _ => hfront
  | @cons piece other rest otherRest hpiece _ ih =>
    have hword : other.word = piece.word := congrArg (fun t => (Vocabulary.text t).toList) hpiece.1
    simp only [lay, hword]
    exact beginsLike_append (beginsLike_behind hpiece.2 ih)

/-- Whether scanning undoes writing. Tokens that are written with separators between all of them
are what the scanner gives back. A text without invalid tokens is laid out from its tokens, and has
the same tokens in every layout with further separators in front of them and behind each of them. -/
structure UndoesWriting (τ : Type) [Vocabulary τ] (Spells : τ → List Char → Prop) : Prop where
  written : ∀ before pieces, (∀ piece ∈ pieces, Spells piece.token piece.word) →
    (∀ piece ∈ pieces.dropLast, piece.behind.run ≠ []) →
    (scan τ (String.ofList (layOut before pieces))).map Lexeme.token = pieces.map Piece.token
  respaced : ∀ text, (∀ lexeme ∈ scan τ text, lexeme.token ≠ Vocabulary.invalid) →
    ∃ before pieces, layOut before pieces = text.toList ∧
      pieces.map Piece.token = (scan τ text).map Lexeme.token ∧
      ∀ (further : Gap τ) (others : List (Piece τ)), Respaces pieces others →
        (scan τ (String.ofList (layOut further others))).map Lexeme.token =
          (scan τ text).map Lexeme.token

namespace IsLegible

variable {token : τ} {word : List Char}

/-- A word in front of a text is munched if a part of the text without separators could not make
it longer. -/
theorem isMunch_of_beginsLike (h : IsLegible τ Spells) {text other : List Char}
    (hmunch : IsMunch Spells (word ++ other) token word)
    (hlike : BeginsLike (τ := τ) text other) : IsMunch Spells (word ++ text) token word where
  front := List.prefix_append word text
  spelled := hmunch.spelled
  longest := by
    intro grown longer hfront hspells
    exact hmunch.longest grown longer
      (beginsLike_append hlike longer hfront (h.solid hspells)) hspells

/-- A munched token is the one that is taken. -/
theorem tokensOf_of_isMunch (h : IsLegible τ Spells) {rest : List Char}
    (hmunch : IsMunch Spells (word ++ rest) token word) :
    tokensOf τ (word ++ rest) = token :: tokensOf τ rest := by
  have hfound := (h.finds.eq_some_iff h.told).mpr ⟨word, rfl, hmunch⟩
  obtain ⟨c, letters, rfl⟩ := List.exists_cons_of_ne_nil (h.nonempty hmunch.spelled)
  exact tokensOf_cons_append (h.solid hmunch.spelled c (List.mem_cons_self ..)) hfound

/-- A text that is one word has the token of this word only. -/
theorem tokensOf_of_spells (h : IsLegible τ Spells) (hspells : Spells token word) :
    tokensOf τ word = [token] := by
  have hmunch : IsMunch Spells (word ++ []) token word := by
    rw [List.append_nil]
    exact IsMunch.whole hspells
  simpa only [List.append_nil, tokensOf_nil] using h.tokensOf_of_isMunch hmunch

theorem exists_scan_of_spells (h : IsLegible τ Spells) (hspells : Spells token word) :
    ∃ span, scan τ (String.ofList word) = [⟨token, span⟩] := by
  have htokens : (scan τ (String.ofList word)).map Lexeme.token = [token] := by
    rw [map_token_scan, String.toList_ofList]
    exact h.tokensOf_of_spells hspells
  obtain ⟨⟨_, span⟩, hlexemes, rfl⟩ := List.map_eq_singleton_iff.mp htokens
  exact ⟨span, hlexemes⟩

theorem tokensOf_lay (h : IsLegible τ Spells) {pieces : List (Piece τ)}
    (hmunched : Munched Spells pieces) : tokensOf τ (lay pieces) = pieces.map Piece.token := by
  induction pieces with
  | nil => exact tokensOf_nil
  | cons piece rest ih =>
    rw [lay, h.tokensOf_of_isMunch hmunched.1, tokensOf_append_separators piece.behind.blank,
      ih hmunched.2, List.map_cons]

/-- Further separators do not change which word is the longest one. -/
theorem munched_of_respaces (h : IsLegible τ Spells) {pieces others : List (Piece τ)}
    (hspaced : Respaces pieces others) (hmunched : Munched Spells pieces) :
    Munched Spells others := by
  induction hspaced with
  | nil => trivial
  | @cons piece other rest otherRest hpiece hrest ih =>
    refine ⟨?_, ih hmunched.2⟩
    have hword : other.word = piece.word := congrArg (fun t => (Vocabulary.text t).toList) hpiece.1
    have hlike := beginsLike_behind hpiece.2 (Respaces.beginsLike hrest)
    rw [hword, hpiece.1]
    exact h.isMunch_of_beginsLike hmunched.1 hlike

/-- Tokens with separators between all of them are munched. -/
theorem munched_of_spaced (h : IsLegible τ Spells) {pieces : List (Piece τ)}
    (hspells : ∀ piece ∈ pieces, Spells piece.token piece.word)
    (hspaced : ∀ piece ∈ pieces.dropLast, piece.behind.run ≠ []) : Munched Spells pieces := by
  induction pieces with
  | nil => trivial
  | cons piece rest ih =>
    obtain ⟨hword, hrest⟩ := List.forall_mem_cons.mp hspells
    have hbehind : BeginsLike (τ := τ) (piece.behind.run ++ lay rest) [] := by
      by_cases hgap : piece.behind.run = []
      · have hlast : rest = [] := by
          cases rest with
          | nil => rfl
          | cons next others => exact absurd hgap (hspaced piece (by simp))
        rw [hgap, hlast]
        exact fun front hfront _ => hfront
      · exact beginsLike_of_run_ne_nil hgap _ _
    have halone : IsMunch Spells (piece.word ++ []) piece.token piece.word :=
      (List.append_nil piece.word).symm ▸ IsMunch.whole hword
    refine ⟨h.isMunch_of_beginsLike halone hbehind, ih hrest ?_⟩
    intro next hnext
    cases rest with
    | nil => exact absurd hnext (List.not_mem_nil)
    | cons first others => exact hspaced next (List.mem_cons_of_mem piece hnext)

/-- A text without invalid tokens is laid out from its tokens. -/
theorem exists_layOut (h : IsLegible τ Spells) (offset : Nat) (text : List Char)
    (hvalid : ∀ lexeme ∈ scanFrom (τ := τ) offset text, lexeme.token ≠ Vocabulary.invalid) :
    ∃ before pieces, layOut before pieces = text ∧
      pieces.map Piece.token = (scanFrom offset text).map Lexeme.token ∧
      Munched Spells pieces := by
  fun_induction scanFrom (τ := τ) offset text with
  | case1 => exact ⟨⟨[], by simp⟩, [], rfl, rfl, trivial⟩
  | case2 offset c rest hseparator ih =>
    obtain ⟨before, pieces, rfl, htokens, hmunched⟩ := ih hvalid
    exact ⟨⟨c :: before.run, List.forall_mem_cons.mpr ⟨hseparator, before.blank⟩⟩, pieces, rfl,
      htokens, hmunched⟩
  | case3 offset c rest hseparator token length hfront stop ih =>
    obtain ⟨hhere, hlater⟩ := List.forall_mem_cons.mp hvalid
    obtain ⟨before, pieces, hlaid, htokens, hmunched⟩ := ih hlater
    obtain ⟨word, behind, htext, hword, -, hdrop, htoken⟩ := h.exists_word hfront
    obtain ⟨hmunch, rfl⟩ := htoken.munch hhere
    rw [hdrop] at hlaid
    refine ⟨⟨[], by simp⟩, ⟨token, before⟩ :: pieces, ?_, ?_, ?_, hmunched⟩
    · exact (congrArg _ hlaid).trans htext.symm
    · exact congrArg (List.cons token) htokens
    · rw [← hlaid] at hmunch
      exact hmunch

/-- A character with which no word begins is an invalid token. -/
theorem tokensOf_cons_of_not_spells (h : IsLegible τ Spells) {c : Char} {rest : List Char}
    (hc : Vocabulary.isSeparator τ c = false)
    (hnone : ∀ token word, word <+: c :: rest → ¬Spells token word) :
    tokensOf τ (c :: rest) = Vocabulary.invalid :: tokensOf τ rest := by
  have hfront : Vocabulary.front? (τ := τ) (c :: rest) = none := by
    rw [Option.eq_none_iff_forall_ne_some]
    rintro ⟨token, length⟩ hfound
    obtain ⟨word, -, hword, hspells⟩ := h.finds.sound hfound
    exact hnone token word hword hspells
  unfold tokensOf
  rw [scanFrom, if_neg (by simp [hc])]
  simp only [frontToken, hfront, List.map_cons, Nat.sub_self, List.drop_zero]
  rw [map_token_scanFrom_eq _ 0 rest]

/-- The tokens of two parted texts, one behind the other, are those of each of them. -/
theorem tokensOf_append (h : IsLegible τ Spells) {left right : List Char}
    (hparted : IsParted Spells left right) :
    tokensOf τ (left ++ right) = tokensOf τ left ++ tokensOf τ right := by
  fun_induction scanFrom (τ := τ) 0 left with
  | case1 => rw [tokensOf_nil, List.nil_append, List.nil_append]
  | case2 offset c rest hseparator ih =>
    have hrest : IsParted Spells rest right := hparted.of_isSuffix (List.suffix_cons c rest)
    rw [List.cons_append, tokensOf_cons_separator hseparator, tokensOf_cons_separator hseparator,
      ih hrest]
  | case3 offset c rest hseparator token length hfront stop ih =>
    obtain ⟨word, behind, htext, -, -, hdrop, htoken⟩ := h.exists_word hfront
    have hbehind : IsParted Spells behind right := by
      refine hparted.of_isSuffix ?_
      rw [htext]
      exact List.suffix_append word behind
    rw [hdrop] at ih
    by_cases hvalid : token = Vocabulary.invalid
    · obtain ⟨hone, hnone⟩ := htoken.invalid hvalid
      obtain ⟨first, rfl⟩ := List.length_eq_one_iff.mp hone
      rw [List.singleton_append] at htext hnone
      obtain ⟨rfl, rfl⟩ := List.cons.inj htext
      have hc : Vocabulary.isSeparator τ c = false := Bool.eq_false_iff.mpr hseparator
      have hlonger : ∀ other word, word <+: c :: (rest ++ right) → ¬Spells other word :=
        fun other word hword hspells =>
          hnone other word (hparted.isPrefix (List.cons_ne_nil c rest) hspells hword) hspells
      rw [List.cons_append, h.tokensOf_cons_of_not_spells hc hlonger,
        h.tokensOf_cons_of_not_spells hc hnone, ih hbehind, List.cons_append]
    · obtain ⟨hmunch, -⟩ := htoken.munch hvalid
      have hgrown : IsMunch Spells (word ++ (behind ++ right)) token word := by
        refine ⟨List.prefix_append _ _, hmunch.spelled, ?_⟩
        intro other longer hlonger hspells
        rw [← List.append_assoc, ← htext] at hlonger
        have hshort := hparted.isPrefix (List.cons_ne_nil c rest) hspells hlonger
        rw [htext] at hshort
        exact hmunch.longest other longer hshort hspells
      rw [htext, List.append_assoc, h.tokensOf_of_isMunch hmunch, h.tokensOf_of_isMunch hgrown,
        ih hbehind, List.cons_append]

/-- A text is parted from what begins with a separator. -/
theorem isParted_of_isSeparator (h : IsLegible τ Spells) (left : List Char) {d : Char}
    (hd : Vocabulary.isSeparator τ d = true) (rest : List Char) :
    IsParted Spells left (d :: rest) := by
  intro token word hspells c first _ hfirst hpair
  obtain rfl : first = d := (List.cons_prefix_cons.mp hfirst).1
  have hsolid := h.solid hspells first (hpair.subset (by simp))
  exact nomatch hsolid.symm.trans hd

/-- Separators behind a text have no tokens and change none, not even invalid ones. -/
theorem tokensOf_append_gap (h : IsLegible τ Spells) (text : List Char) (gap : Gap τ) :
    tokensOf τ (text ++ gap.run) = tokensOf τ text := by
  have hgap : tokensOf τ gap.run = [] := by
    simpa only [List.append_nil, tokensOf_nil] using tokensOf_append_separators gap.blank []
  cases hrun : gap.run with
  | nil => rw [List.append_nil]
  | cons d rest =>
    have hd : Vocabulary.isSeparator τ d = true := gap.blank d (by simp [hrun])
    rw [h.tokensOf_append (h.isParted_of_isSeparator text hd rest), ← hrun, hgap, List.append_nil]

theorem scan_layOut (h : IsLegible τ Spells) (before : Gap τ) {pieces : List (Piece τ)}
    (hmunched : Munched Spells pieces) :
    (scan τ (String.ofList (layOut before pieces))).map Lexeme.token = pieces.map Piece.token := by
  rw [map_token_scan, String.toList_ofList, layOut, tokensOf_append_separators before.blank]
  exact h.tokensOf_lay hmunched

/-- Of a legible vocabulary, scanning undoes writing. -/
theorem undoesWriting (h : IsLegible τ Spells) : UndoesWriting τ Spells where
  written before pieces hspells hspaced :=
    h.scan_layOut before (h.munched_of_spaced hspells hspaced)
  respaced text hvalid := by
    obtain ⟨before, pieces, hlaid, htokens, hmunched⟩ := h.exists_layOut 0 text.toList hvalid
    refine ⟨before, pieces, hlaid, htokens, ?_⟩
    intro further others hspaced
    rw [h.scan_layOut further (h.munched_of_respaces hspaced hmunched), hspaced.map_token_eq,
      htokens]
    rfl

end IsLegible

end DeskCalculator.Reading
