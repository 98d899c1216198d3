import DeskCalculator.Proofs.Expression.Normalization
import Mathlib.Data.List.Induction
import Mathlib.Tactic.SplitIfs

/-!
Which exponents are lowered. The rule is that an `E` directly behind a digit and directly in front
of another one, which may have a sign, becomes `e`. The pass from left to right keeps the digit
behind a lowered `E` for the exponent and does not use it again, so among letters that share single
digits it lowers every other one. A second pass lowers those that the first one has left, and then
there is nothing more to lower.
-/
namespace DeskCalculator.Expression

open Text

theorem not_isDecimalDigit_mark : isDecimalDigit 'E' = false := by decide

/-! ### One pass -/

namespace ExponentPlace

def next (c : Char) (rest : List Char) : ExponentPlace → ExponentPlace
  | inExponent => if isDecimalDigit c then apart else inExponent
  | afterDigit =>
    if c = 'E' ∧ startsExponent rest = true then inExponent
    else if isDecimalDigit c then afterDigit else apart
  | apart => if isDecimalDigit c then afterDigit else apart

def written (c : Char) (rest : List Char) (place : ExponentPlace) : Char :=
  if c = 'E' ∧ place = afterDigit ∧ startsExponent rest = true then 'e' else c

def behind (place : ExponentPlace) : List Char → List Char → ExponentPlace
  | [], _ => place
  | c :: before, rest => (place.next c (before ++ rest)).behind before rest

theorem behind_concat (place : ExponentPlace) (before : List Char) (c : Char) (rest : List Char) :
    place.behind (before ++ [c]) rest = (place.behind before (c :: rest)).next c rest := by
  induction before generalizing place with
  | nil => rfl
  | cons d before ih => simp [behind, ih]

variable {place : ExponentPlace} {c : Char} {rest : List Char}

theorem next_eq_inExponent_iff :
    place.next c rest = inExponent ↔
      (place = inExponent ∧ isDecimalDigit c = false) ∨
        (place = afterDigit ∧ c = 'E' ∧ startsExponent rest = true) := by
  cases place <;> cases hc : isDecimalDigit c <;> simp [next, hc]

theorem next_eq_afterDigit_iff :
    place.next c rest = afterDigit ↔ isDecimalDigit c = true ∧ place ≠ inExponent := by
  cases place with
  | inExponent | apart => cases hc : isDecimalDigit c <;> simp [next, hc]
  | afterDigit =>
    by_cases hmark : c = 'E'
    · subst hmark
      cases h : startsExponent rest <;> simp [next, h, not_isDecimalDigit_mark]
    · simp [next, hmark]

theorem isDecimalDigit_written : isDecimalDigit (place.written c rest) = isDecimalDigit c := by
  unfold written
  split_ifs with h
  · rw [h.1]
    rfl
  · rfl

end ExponentPlace

/-- Each character is written for itself, and only the place is handed on. -/
theorem lowerExponentsFrom_cons (place : ExponentPlace) (c : Char) (rest : List Char) :
    lowerExponentsFrom place (c :: rest) =
      place.written c rest :: lowerExponentsFrom (place.next c rest) rest := by
  cases place with
  | inExponent | apart => simp [lowerExponentsFrom, ExponentPlace.written, ExponentPlace.next]
  | afterDigit =>
    by_cases hc : c = 'E'
    · subst hc
      cases h : startsExponent rest <;>
        simp [lowerExponentsFrom, ExponentPlace.written, ExponentPlace.next, h,
          not_isDecimalDigit_mark]
    · simp [lowerExponentsFrom, ExponentPlace.written, ExponentPlace.next, hc]

theorem length_lowerExponentsFrom (place : ExponentPlace) (text : List Char) :
    (lowerExponentsFrom place text).length = text.length := by
  induction text generalizing place with
  | nil => simp [lowerExponentsFrom]
  | cons c rest ih => rw [lowerExponentsFrom_cons, List.length_cons, List.length_cons, ih]

/-- The pass goes on behind a part of a text from the place that it has come to. -/
theorem drop_lowerExponentsFrom_append (place : ExponentPlace) (before rest : List Char) :
    (lowerExponentsFrom place (before ++ rest)).drop before.length =
      lowerExponentsFrom (place.behind before rest) rest := by
  induction before generalizing place with
  | nil => rfl
  | cons c before ih =>
    rw [List.cons_append, lowerExponentsFrom_cons, List.length_cons, List.drop_succ_cons, ih]
    rfl

theorem getElem?_lowerExponents (before : List Char) (c : Char) (behind : List Char) :
    (lowerExponents (before ++ c :: behind))[before.length]? =
      some ((ExponentPlace.apart.behind before (c :: behind)).written c behind) := by
  rw [← List.head?_drop, lowerExponents, drop_lowerExponentsFrom_append, lowerExponentsFrom_cons,
    List.head?_cons]

/-! ### The letters that are lowered -/

/-- Whether an `E` between two parts of a text stands between digits, of which the second one may
have a sign. -/
def StandsBetweenDigits (before behind : List Char) : Prop :=
  before.getLast?.any isDecimalDigit = true ∧ startsExponent behind = true

instance (before behind : List Char) : Decidable (StandsBetweenDigits before behind) :=
  inferInstanceAs (Decidable (_ ∧ _))

def IsLowered (before behind : List Char) : Prop :=
  (lowerExponents (before ++ 'E' :: behind))[before.length]? = some 'e'

instance (before behind : List Char) : Decidable (IsLowered before behind) :=
  inferInstanceAs (Decidable (_ = _))

def IsOptionalSign (sign : List Char) : Prop := sign = [] ∨ sign = ['+'] ∨ sign = ['-']

theorem IsOptionalSign.not_isDecimalDigit {sign : List Char} (h : IsOptionalSign sign) :
    ∀ c ∈ sign, isDecimalDigit c = false := by
  rcases h with rfl | rfl | rfl
  · exact List.forall_mem_nil _
  · exact List.forall_mem_singleton.mpr (by decide)
  · exact List.forall_mem_singleton.mpr (by decide)

theorem IsOptionalSign.exists_eq_singleton {sign : List Char} (h : IsOptionalSign sign)
    (hne : sign ≠ []) : ∃ c, sign = [c] := by
  rcases h with rfl | rfl | rfl
  · exact absurd rfl hne
  · exact ⟨_, rfl⟩
  · exact ⟨_, rfl⟩

theorem startsExponent_cons_iff {c : Char} {rest : List Char} (hc : isDecimalDigit c = false) :
    startsExponent (c :: rest) = true ↔
      IsOptionalSign [c] ∧ ∃ d ∈ rest.head?, isDecimalDigit d = true := by
  simp [startsExponent, hc, IsOptionalSign, Option.any_eq_true]

theorem isLowered_iff_behind {before behind : List Char} :
    IsLowered before behind ↔
      ExponentPlace.apart.behind before ('E' :: behind) = .afterDigit ∧
        startsExponent behind = true := by
  rw [IsLowered, getElem?_lowerExponents, ExponentPlace.written]
  split_ifs with h
  · simpa using h
  · simpa using h

/-- An exponent is open behind a lowered `E` and behind the sign that follows it. -/
theorem behind_eq_inExponent_iff {before behind : List Char} :
    ExponentPlace.apart.behind before behind = .inExponent ↔
      ∃ earlier sign, before = earlier ++ 'E' :: sign ∧ IsOptionalSign sign ∧
        IsLowered earlier (sign ++ behind) := by
  induction before using List.reverseRecOn generalizing behind with
  | nil => simp [ExponentPlace.behind]
  | append_singleton front c ih =>
    rw [ExponentPlace.behind_concat, ExponentPlace.next_eq_inExponent_iff, ih]
    constructor
    · rintro (⟨⟨earlier, sign, rfl, hsign, hlowered⟩, hc⟩ | ⟨hplace, rfl, hstarts⟩)
      · have hstarts := (isLowered_iff_behind.mp hlowered).2
        by_cases hne : sign = []
        · subst hne
          have hsign := ((startsExponent_cons_iff hc).mp hstarts).1
          exact ⟨earlier, [c], by simp, hsign, hlowered⟩
        · -- behind a sign there is a digit, with which the exponent ends
          obtain ⟨s, rfl⟩ := hsign.exists_eq_singleton hne
          have hs : isDecimalDigit s = false := hsign.not_isDecimalDigit s (by simp)
          obtain ⟨d, hd, hdigit⟩ := ((startsExponent_cons_iff hs).mp hstarts).2
          obtain rfl : c = d := Option.some.inj hd
          exact absurd hdigit (by simp [hc])
      · exact ⟨front, [], rfl, .inl rfl, isLowered_iff_behind.mpr ⟨hplace, hstarts⟩⟩
    · rintro ⟨earlier, sign, hfront, hsign, hlowered⟩
      by_cases hne : sign = []
      · subst hne
        obtain ⟨rfl, hc⟩ := List.append_inj' hfront rfl
        obtain rfl := List.singleton_inj.mp hc
        exact .inr ⟨(isLowered_iff_behind.mp hlowered).1, rfl,
          (isLowered_iff_behind.mp hlowered).2⟩
      · obtain ⟨s, rfl⟩ := hsign.exists_eq_singleton hne
        have hcons : front ++ [c] = (earlier ++ ['E']) ++ [s] := by simpa using hfront
        obtain ⟨rfl, hc⟩ := List.append_inj' hcons rfl
        obtain rfl := List.singleton_inj.mp hc
        exact .inl ⟨⟨earlier, [], rfl, .inl rfl, hlowered⟩, hsign.not_isDecimalDigit _ (by simp)⟩

/-- An `E` between digits is lowered unless the digit before it is the exponent of an `E` that is
lowered. -/
theorem isLowered_iff {before behind : List Char} :
    IsLowered before behind ↔ StandsBetweenDigits before behind ∧
      ¬∃ earlier sign digit, before = earlier ++ 'E' :: (sign ++ [digit]) ∧ IsOptionalSign sign ∧
        IsLowered earlier (sign ++ digit :: 'E' :: behind) := by
  rw [isLowered_iff_behind, StandsBetweenDigits]
  rcases List.eq_nil_or_concat before with rfl | ⟨front, d, rfl⟩
  · simp [ExponentPlace.behind]
  · rw [List.concat_eq_append, ExponentPlace.behind_concat, ExponentPlace.next_eq_afterDigit_iff,
      Ne, behind_eq_inExponent_iff]
    have hclaimed : (∃ earlier sign, front = earlier ++ 'E' :: sign ∧ IsOptionalSign sign ∧
          IsLowered earlier (sign ++ d :: 'E' :: behind)) ↔
        ∃ earlier sign digit, front ++ [d] = earlier ++ 'E' :: (sign ++ [digit]) ∧
          IsOptionalSign sign ∧ IsLowered earlier (sign ++ digit :: 'E' :: behind) := by
      constructor
      · rintro ⟨earlier, sign, rfl, hsign, hlowered⟩
        exact ⟨earlier, sign, d, by simp, hsign, hlowered⟩
      · rintro ⟨earlier, sign, digit, hfront, hsign, hlowered⟩
        have hconcat : front ++ [d] = (earlier ++ 'E' :: sign) ++ [digit] := by simpa using hfront
        obtain ⟨rfl, hd⟩ := List.append_inj' hconcat rfl
        obtain rfl := List.singleton_inj.mp hd
        exact ⟨earlier, sign, rfl, hsign, hlowered⟩
    rw [hclaimed]
    simp [and_right_comm]

theorem getElem?_lowerExponents_eq_ite (before : List Char) (c : Char) (behind : List Char) :
    (lowerExponents (before ++ c :: behind))[before.length]? =
      some (if c = 'E' ∧ IsLowered before behind then 'e' else c) := by
  rw [getElem?_lowerExponents, ExponentPlace.written]
  by_cases hc : c = 'E'
  · subst hc
    simp only [isLowered_iff_behind, true_and]
  · simp [hc]

/-- Up to its first `E` a text stays as it is. -/
theorem lowerExponentsFrom_append_of_not_mem (place : ExponentPlace) {before : List Char}
    (h : 'E' ∉ before) (rest : List Char) :
    lowerExponentsFrom place (before ++ rest) =
      before ++ lowerExponentsFrom (place.behind before rest) rest := by
  induction before generalizing place with
  | nil => rfl
  | cons c before ih =>
    obtain ⟨hc, hbefore⟩ := not_or.mp (mt List.mem_cons.mpr h)
    have hwritten : place.written c (before ++ rest) = c := if_neg fun hmark => hc hmark.1.symm
    rw [List.cons_append, lowerExponentsFrom_cons, hwritten, ih _ hbefore]
    rfl

theorem lowerExponentsFrom_of_not_mem (place : ExponentPlace) {text : List Char} (h : 'E' ∉ text) :
    lowerExponentsFrom place text = text :=
  lowerExponentsFrom_of_isChain (isChain_isApart_of_not_mem h)
    fun _ hhead => h (List.mem_of_mem_head? hhead)

/-- The only `E` of a text is lowered just when it stands between digits. -/
theorem lowerExponents_of_single {before behind : List Char} (hbefore : 'E' ∉ before)
    (hbehind : 'E' ∉ behind) :
    lowerExponents (before ++ 'E' :: behind) =
      before ++ (if StandsBetweenDigits before behind then 'e' else 'E') :: behind := by
  have hlowered : IsLowered before behind ↔ StandsBetweenDigits before behind := by
    rw [isLowered_iff]
    refine and_iff_left_of_imp fun _ => ?_
    rintro ⟨earlier, sign, digit, rfl, -⟩
    exact hbefore (by simp)
  have hwritten : (ExponentPlace.apart.behind before ('E' :: behind)).written 'E' behind =
      if StandsBetweenDigits before behind then 'e' else 'E' := by
    simp only [ExponentPlace.written, ← isLowered_iff_behind, hlowered, true_and]
  rw [lowerExponents, lowerExponentsFrom_append_of_not_mem _ hbefore, lowerExponentsFrom_cons,
    hwritten, lowerExponentsFrom_of_not_mem _ hbehind]

/-! ### The rule -/

/-- Whether a text is another one in which every `E` between digits is lowered, and nothing else is
changed. -/
structure LowersEvery (text other : List Char) : Prop where
  length_eq : other.length = text.length
  letter : ∀ before c behind, text = before ++ c :: behind →
    other[before.length]? =
      some (if c = 'E' ∧ StandsBetweenDigits before behind then 'e' else c)

/-- What is asked of a second pass determines its text. -/
theorem LowersEvery.unique {text first second : List Char} (hfirst : LowersEvery text first)
    (hsecond : LowersEvery text second) : first = second := by
  apply List.ext_getElem?
  intro i
  by_cases hi : i < text.length
  · have hsplit : text = text.take i ++ text[i] :: text.drop (i + 1) := by simp
    have hletter := (hfirst.letter _ _ _ hsplit).trans (hsecond.letter _ _ _ hsplit).symm
    rwa [List.length_take_of_le hi.le] at hletter
  · have hlength := hfirst.length_eq
    have hlength' := hsecond.length_eq
    rw [List.getElem?_eq_none (by omega), List.getElem?_eq_none (by omega)]

/-- Whether two letters of a text that stand between digits share one: the digit before the second
is the exponent of the first. -/
def SharesDigit (text : List Char) : Prop :=
  ∃ earlier sign digit behind, text = earlier ++ 'E' :: (sign ++ digit :: 'E' :: behind) ∧
    IsOptionalSign sign ∧ StandsBetweenDigits earlier (sign ++ digit :: 'E' :: behind) ∧
    StandsBetweenDigits (earlier ++ 'E' :: (sign ++ [digit])) behind

/-- One pass follows the rule just where no two letters share a digit. -/
theorem lowersEvery_lowerExponents_iff (text : List Char) :
    LowersEvery text (lowerExponents text) ↔ ¬SharesDigit text := by
  constructor
  · rintro h ⟨earlier, sign, digit, behind, rfl, hsign, hfirst, hsecond⟩
    have hlowered : ∀ before rest, earlier ++ 'E' :: (sign ++ digit :: 'E' :: behind) =
        before ++ 'E' :: rest → StandsBetweenDigits before rest → IsLowered before rest := by
      intro before rest htext hstands
      have hletter := h.letter before 'E' rest htext
      rw [htext] at hletter
      rw [IsLowered, hletter, if_pos ⟨rfl, hstands⟩]
    have hclaimed := hlowered _ _ rfl hfirst
    exact (isLowered_iff.mp (hlowered _ _ (by simp) hsecond)).2
      ⟨earlier, sign, digit, rfl, hsign, hclaimed⟩
  · intro hshares
    refine ⟨length_lowerExponentsFrom _ _, ?_⟩
    rintro before c behind rfl
    rw [getElem?_lowerExponents_eq_ite]
    by_cases hc : c = 'E'
    · subst hc
      have hsame : IsLowered before behind ↔ StandsBetweenDigits before behind := by
        refine ⟨fun h => (isLowered_iff.mp h).1, fun h => isLowered_iff.mpr ⟨h, ?_⟩⟩
        rintro ⟨earlier, sign, digit, rfl, hsign, hlowered⟩
        exact hshares ⟨earlier, sign, digit, behind, by simp, hsign,
          (isLowered_iff.mp hlowered).1, h⟩
      simp only [hsame]
    · simp [hc]

def lowerEveryFrom (digitBefore : Bool) : List Char → List Char
  | [] => []
  | c :: rest =>
    (if c = 'E' ∧ digitBefore = true ∧ startsExponent rest = true then 'e' else c) ::
      lowerEveryFrom (isDecimalDigit c) rest

def lowerEvery (text : List Char) : List Char := lowerEveryFrom false text

theorem length_lowerEveryFrom (digitBefore : Bool) (text : List Char) :
    (lowerEveryFrom digitBefore text).length = text.length := by
  induction text generalizing digitBefore with
  | nil => rfl
  | cons c rest ih => rw [lowerEveryFrom, List.length_cons, List.length_cons, ih]

theorem getElem?_lowerEveryFrom (digitBefore : Bool) (before : List Char) (c : Char)
    (behind : List Char) :
    (lowerEveryFrom digitBefore (before ++ c :: behind))[before.length]? =
      some (if c = 'E' ∧ (before.getLast?.map isDecimalDigit).getD digitBefore = true ∧
        startsExponent behind = true then 'e' else c) := by
  induction before generalizing digitBefore with
  | nil => rfl
  | cons d before ih =>
    rw [List.cons_append, lowerEveryFrom, List.length_cons, List.getElem?_cons_succ, ih]
    cases before with
    | nil => rfl
    | cons e others => simp [List.getLast?_cons]

theorem lowersEvery_lowerEvery (text : List Char) : LowersEvery text (lowerEvery text) where
  length_eq := length_lowerEveryFrom false text
  letter := by
    rintro before c behind rfl
    have hlast : (before.getLast?.map isDecimalDigit).getD false =
        before.getLast?.any isDecimalDigit := by cases before.getLast? <;> rfl
    rw [lowerEvery, getElem?_lowerEveryFrom, hlast]
    rfl

/-! ### Further passes -/

/-- What follows an `E` begins an exponent after a pass just when it does before. -/
theorem startsExponent_lowerExponentsFrom (place : ExponentPlace) (text : List Char) :
    startsExponent (lowerExponentsFrom place text) = startsExponent text := by
  have hhead : ∀ place text, (lowerExponentsFrom place text).head?.any isDecimalDigit =
      text.head?.any isDecimalDigit := by
    intro place text
    cases text with
    | nil => simp [lowerExponentsFrom]
    | cons c rest =>
      rw [lowerExponentsFrom_cons]
      exact ExponentPlace.isDecimalDigit_written
  cases text with
  | nil => simp [lowerExponentsFrom]
  | cons c rest =>
    rw [lowerExponentsFrom_cons, startsExponent, startsExponent,
      ExponentPlace.isDecimalDigit_written, hhead]
    unfold ExponentPlace.written
    split_ifs with h
    · rw [h.1]
      rfl
    · rfl

/-- How the places of two passes one after the other stand to each other, where `digitBefore` tells
whether there is a digit in front of them. A digit that the first pass has kept for an exponent is
free for the second. -/
def Follows (digitBefore : Bool) (second : ExponentPlace) : ExponentPlace → Prop
  | .inExponent => second = .apart ∧ digitBefore = false
  | .afterDigit => second ≠ .inExponent ∧ digitBefore = true
  | .apart => second = .afterDigit ↔ digitBefore = true

/-- Two passes write by the rule, and stand to each other as before. -/
theorem Follows.next {digitBefore : Bool} {second first : ExponentPlace}
    (h : Follows digitBefore second first) (c : Char) {rest other : List Char}
    (hrest : startsExponent other = startsExponent rest) :
    second.written (first.written c rest) other =
        (if c = 'E' ∧ digitBefore = true ∧ startsExponent rest = true then 'e' else c) ∧
      Follows (isDecimalDigit c) (second.next (first.written c rest) other)
        (first.next c rest) := by
  have hsmall : isDecimalDigit 'e' = false := by decide
  cases first with
  | inExponent =>
    obtain ⟨rfl, rfl⟩ := h
    cases hdigit : isDecimalDigit c <;>
      simp [Follows, ExponentPlace.written, ExponentPlace.next, hdigit]
  | afterDigit =>
    obtain ⟨hsecond, rfl⟩ := h
    cases second with
    | inExponent => exact absurd rfl hsecond
    | afterDigit | apart =>
      by_cases hlowered : c = 'E' ∧ startsExponent rest = true
      · simp [Follows, ExponentPlace.written, ExponentPlace.next, hlowered, hsmall,
          not_isDecimalDigit_mark]
      · cases hdigit : isDecimalDigit c <;>
          simp [Follows, ExponentPlace.written, ExponentPlace.next, hlowered, hdigit, hrest]
  | apart =>
    cases digitBefore with
    | true =>
      obtain rfl : second = .afterDigit := h.mpr rfl
      by_cases hlowered : c = 'E' ∧ startsExponent rest = true
      · simp [Follows, ExponentPlace.written, ExponentPlace.next, hlowered, hrest,
          not_isDecimalDigit_mark]
      · cases hdigit : isDecimalDigit c <;>
          simp [Follows, ExponentPlace.written, ExponentPlace.next, hlowered, hdigit, hrest]
    | false =>
      cases second with
      | afterDigit => exact absurd (h.mp rfl) (by decide)
      | inExponent | apart =>
        cases hdigit : isDecimalDigit c <;>
          simp [Follows, ExponentPlace.written, ExponentPlace.next, hdigit]

/-- Two passes lower every `E` between digits. -/
theorem lowerExponentsFrom_twice {digitBefore : Bool} {second first : ExponentPlace}
    (h : Follows digitBefore second first) (text : List Char) :
    lowerExponentsFrom second (lowerExponentsFrom first text) =
      lowerEveryFrom digitBefore text := by
  induction text generalizing digitBefore second first with
  | nil => simp [lowerExponentsFrom, lowerEveryFrom]
  | cons c rest ih =>
    have hrest := startsExponent_lowerExponentsFrom (first.next c rest) rest
    obtain ⟨hwritten, hnext⟩ := h.next c hrest
    rw [lowerExponentsFrom_cons, lowerExponentsFrom_cons, lowerEveryFrom, hwritten, ih hnext]

/-- Two passes lower every `E` between digits. -/
theorem lowerExponents_twice (text : List Char) :
    lowerExponents (lowerExponents text) = lowerEvery text :=
  lowerExponentsFrom_twice (by simp [Follows]) text

theorem startsExponent_lowerEveryFrom (digitBefore : Bool) (text : List Char) :
    startsExponent (lowerEveryFrom digitBefore text) = startsExponent text := by
  have hfollows : Follows digitBefore (if digitBefore then .afterDigit else .apart) .apart := by
    cases digitBefore <;> simp [Follows]
  rw [← lowerExponentsFrom_twice hfollows, startsExponent_lowerExponentsFrom,
    startsExponent_lowerExponentsFrom]

/-- Where the rule has been applied, a pass finds nothing to lower. -/
theorem lowerExponentsFrom_lowerEveryFrom {digitBefore : Bool} {place : ExponentPlace}
    (h : place = .afterDigit → digitBefore = true) (text : List Char) :
    lowerExponentsFrom place (lowerEveryFrom digitBefore text) =
      lowerEveryFrom digitBefore text := by
  induction text generalizing digitBefore place with
  | nil => simp [lowerExponentsFrom, lowerEveryFrom]
  | cons c rest ih =>
    have hrest := startsExponent_lowerEveryFrom (isDecimalDigit c) rest
    rw [lowerEveryFrom, lowerExponentsFrom_cons]
    split_ifs with hlowered
    · have hnext : place.next 'e' (lowerEveryFrom (isDecimalDigit c) rest) ≠ .afterDigit :=
        fun hplace => absurd (ExponentPlace.next_eq_afterDigit_iff.mp hplace).1 (by decide)
      rw [ih fun hplace => absurd hplace hnext]
      rfl
    · rw [ih fun hplace => (ExponentPlace.next_eq_afterDigit_iff.mp hplace).1,
        ExponentPlace.written, hrest, if_neg]
      rintro ⟨hc, hplace, hstarts⟩
      exact hlowered ⟨hc, h hplace, hstarts⟩

theorem lowerExponents_lowerEvery (text : List Char) :
    lowerExponents (lowerEvery text) = lowerEvery text :=
  have h : ExponentPlace.apart = .afterDigit → false = true := nofun
  lowerExponentsFrom_lowerEveryFrom h text

theorem not_mem_expandPower (text : List Char) : '^' ∉ expandPower text := by
  induction text with
  | nil => exact List.not_mem_nil
  | cons c rest ih =>
    rw [expandPower]
    by_cases hc : c = '^'
    · simp [hc, ih]
    · simp [hc, ih, Ne.symm hc]

theorem mem_of_mem_lowerExponentsFrom {place : ExponentPlace} {text : List Char} {c : Char}
    (h : c ∈ lowerExponentsFrom place text) : c ∈ text ∨ c = 'e' := by
  induction text generalizing place with
  | nil => simp [lowerExponentsFrom] at h
  | cons d rest ih =>
    rw [lowerExponentsFrom_cons, List.mem_cons] at h
    rcases h with rfl | hrest
    · unfold ExponentPlace.written
      split_ifs <;> simp
    · exact (ih hrest).imp_left (List.mem_cons_of_mem d)

/-- Normalization leaves no `^` that a second one would replace. -/
theorem expandPower_normalizeChars (text : List Char) :
    expandPower (normalizeChars text) = normalizeChars text := by
  refine expandPower_eq_self fun hmem => ?_
  rcases mem_of_mem_lowerExponentsFrom hmem with hold | hnew
  · exact not_mem_expandPower text hold
  · exact absurd hnew (by decide)

theorem normalizeChars_twice (text : List Char) :
    normalizeChars (normalizeChars text) = lowerEvery (expandPower text) := by
  rw [normalizeChars, expandPower_normalizeChars, normalizeChars, lowerExponents_twice]

theorem normalizeChars_three_times (text : List Char) :
    normalizeChars (normalizeChars (normalizeChars text)) =
      normalizeChars (normalizeChars text) := by
  rw [normalizeChars, expandPower_normalizeChars, normalizeChars_twice, lowerExponents_lowerEvery]

theorem normalizeChars_twice_eq_iff (text : List Char) :
    normalizeChars (normalizeChars text) = normalizeChars text ↔
      ¬SharesDigit (expandPower text) := by
  rw [normalizeChars_twice, ← lowersEvery_lowerExponents_iff]
  constructor
  · intro heq
    have hrule := lowersEvery_lowerEvery (expandPower text)
    rwa [heq] at hrule
  · exact (lowersEvery_lowerEvery (expandPower text)).unique

/-- What is lowered. The text keeps its length and all its characters, except that some `E` become
`e`: those that stand between digits, unless the digit before them is the exponent of an `E` that
has been lowered itself. So the rule that every `E` between digits is lowered holds for texts in
which no two of these letters share a digit, and for all texts after a second pass. Normalizing a
text again changes it only where letters share digits, and a third time never. -/
theorem lowered_in_turns (text : String) :
    let lowered := lowerExponents text.toList
    lowered.length = text.toList.length ∧
      (∀ before c behind, text.toList = before ++ c :: behind →
        lowered[before.length]? = some (if c = 'E' ∧ IsLowered before behind then 'e' else c)) ∧
      (∀ before behind, IsLowered before behind ↔ StandsBetweenDigits before behind ∧
        ¬∃ earlier sign digit, before = earlier ++ 'E' :: (sign ++ [digit]) ∧
          IsOptionalSign sign ∧ IsLowered earlier (sign ++ digit :: 'E' :: behind)) ∧
      (LowersEvery text.toList lowered ↔ ¬SharesDigit text.toList) ∧
      LowersEvery text.toList (lowerExponents lowered) ∧
      (normalize (normalize text) = normalize text ↔ ¬SharesDigit (expandPower text.toList)) ∧
      normalize (normalize (normalize text)) = normalize (normalize text) := by
  have htwice : LowersEvery text.toList (lowerExponents (lowerExponents text.toList)) := by
    rw [lowerExponents_twice]
    exact lowersEvery_lowerEvery text.toList
  refine ⟨length_lowerExponentsFrom _ _, ?_, fun _ _ => isLowered_iff,
    lowersEvery_lowerExponents_iff _, htwice, ?_, ?_⟩
  · rintro before c behind htext
    rw [htext]
    exact getElem?_lowerExponents_eq_ite before c behind
  · simp only [normalize, String.toList_ofList, String.ofList_inj]
    exact normalizeChars_twice_eq_iff text.toList
  · simp only [normalize, String.toList_ofList, normalizeChars_three_times]

/-- Two letters that share the digit `2`, of which only the first is lowered; normalizing again
lowers the other one. -/
theorem exponent_left_behind_shared_digit :
    StandsBetweenDigits ['1', 'E', '2'] ['3'] ∧
      lowerExponents "1E2E3".toList = "1e2E3".toList ∧
      ¬LowersEvery "1E2E3".toList (lowerExponents "1E2E3".toList) ∧
      normalize (normalize "1E2E3") ≠ normalize "1E2E3" := by
  refine ⟨by decide, by decide, ?_, by decide⟩
  intro h
  exact absurd (h.letter ['1', 'E', '2'] 'E' ['3'] rfl) (by decide)

end DeskCalculator.Expression
