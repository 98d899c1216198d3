import DeskCalculator.Reading.Reader
import Mathlib.Data.List.Chain
import Mathlib.Order.Bounds.Basic

/-!
What the runs of a reader say about its language. A sentence is a sequence that is read to the end
and finished; a sequence is viable when some sentence begins with it. If every state can still be
completed, the viable sequences are exactly those that a reader takes, so its first refusal stands
where no sentence goes on, and what the state at hand would take is what a sentence could have
there. That is what the refusal says, unless the state objects to the token itself.
-/
namespace DeskCalculator.Reading

def Sentence {τ α : Type} (Derives : List (Lexeme τ) → α → Prop) (lexemes : List (Lexeme τ)) :
    Prop :=
  ∃ result, Derives lexemes result

def IsViable {τ : Type} (IsSentence : List (Lexeme τ) → Prop) (lexemes : List (Lexeme τ)) : Prop :=
  ∃ rest, IsSentence (lexemes ++ rest)

/-- Whether the first `k` lexemes are the longest part with which some sentence begins. -/
def BreaksAt {τ : Type} (IsSentence : List (Lexeme τ) → Prop) (lexemes : List (Lexeme τ))
    (k : Nat) : Prop :=
  IsGreatest {n | n ≤ lexemes.length ∧ IsViable IsSentence (lexemes.take n)} k

/-- A complaint that names the lexeme at a place, or the end of input behind a text of `length`
bytes, and expects exactly the fixed tokens that keep the part in front of the place viable, and the
end of input if that part is a sentence. -/
def PointsAt {τ : Type} (IsSentence : List (Lexeme τ) → Prop) (IsFixed : τ → Prop) (length : Nat)
    (lexemes : List (Lexeme τ)) (k : Nat) (complaint : Complaint τ) : Prop :=
  ∃ expected : List (Option τ),
    complaint = .unexpected (lexemes[k]?.map Lexeme.token) expected
      ((lexemes[k]?.map Lexeme.span).getD ⟨length, length + 1⟩) ∧
    (∀ token span, some token ∈ expected ↔
      IsFixed token ∧ IsViable IsSentence (lexemes.take k ++ [⟨token, span⟩])) ∧
    (none ∈ expected ↔ IsSentence (lexemes.take k))

def Pinpoints {τ : Type} (IsSentence : List (Lexeme τ) → Prop) (IsFixed : τ → Prop) (length : Nat)
    (lexemes : List (Lexeme τ)) (complaint : Complaint τ) : Prop :=
  ∃ k, BreaksAt IsSentence lexemes k ∧ PointsAt IsSentence IsFixed length lexemes k complaint

namespace Reader

variable {τ σ α : Type} (reader : Reader τ σ α)

def advance (state : σ) : List (Lexeme τ) → Option σ
  | [] => some state
  | lexeme :: rest => (reader.step state lexeme).bind fun next => advance next rest

@[simp] theorem advance_nil (state : σ) : reader.advance state [] = some state := rfl

@[simp] theorem advance_cons (state : σ) (lexeme : Lexeme τ) (rest : List (Lexeme τ)) :
    reader.advance state (lexeme :: rest) =
      (reader.step state lexeme).bind fun next => reader.advance next rest := rfl

theorem advance_append (state : σ) (left right : List (Lexeme τ)) :
    reader.advance state (left ++ right) =
      (reader.advance state left).bind fun next => reader.advance next right := by
  induction left generalizing state with
  | nil => rfl
  | cons lexeme rest ih =>
    cases h : reader.step state lexeme with
    | none => simp [h]
    | some next => simpa [h] using ih next

theorem advance_append_cons {state next last : σ} {left : List (Lexeme τ)} {lexeme : Lexeme τ}
    (hleft : reader.advance state left = some next) (hstep : reader.step next lexeme = some last)
    (right : List (Lexeme τ)) :
    reader.advance state (left ++ lexeme :: right) = reader.advance last right := by
  simp [advance_append, hleft, hstep]

/-- What each lexeme that is taken preserves holds behind all of them. -/
theorem advance_preserves {Accounts : σ → List (Lexeme τ) → Prop}
    (hstep : ∀ {state next lexemes lexeme}, Accounts state lexemes →
      reader.step state lexeme = some next → Accounts next (lexemes ++ [lexeme]))
    {state last : σ} {lexemes rest : List (Lexeme τ)} (h : Accounts state lexemes)
    (hadvance : reader.advance state rest = some last) : Accounts last (lexemes ++ rest) := by
  induction rest generalizing state lexemes with
  | nil =>
    obtain rfl := Option.some.inj hadvance
    simpa using h
  | cons lexeme rest ih =>
    obtain ⟨next, htake, hrest⟩ := Option.bind_eq_some_iff.mp hadvance
    simpa using ih (hstep h htake) hrest

/-- Each of the lexemes that lead somewhere is taken in some state. -/
theorem exists_step_of_mem {state last : σ} {lexemes : List (Lexeme τ)}
    (h : reader.advance state lexemes = some last) {lexeme : Lexeme τ} (hmem : lexeme ∈ lexemes) :
    ∃ before next, reader.step before lexeme = some next := by
  induction lexemes generalizing state with
  | nil => exact absurd hmem List.not_mem_nil
  | cons first rest ih =>
    obtain ⟨next, hstep, hrest⟩ := Option.bind_eq_some_iff.mp h
    rcases List.mem_cons.mp hmem with rfl | hlater
    · exact ⟨state, next, hstep⟩
    · exact ih hrest hlater

/-- Of two neighbours, the second is taken in the state that the first one leads to. -/
theorem isChain_of_advance {state last : σ} {lexemes : List (Lexeme τ)}
    (h : reader.advance state lexemes = some last) :
    lexemes.IsChain fun first second => ∃ before between after,
      reader.step before first = some between ∧ reader.step between second = some after := by
  induction lexemes generalizing state with
  | nil => exact .nil
  | cons first rest ih =>
    obtain ⟨next, hfirst, hrest⟩ := Option.bind_eq_some_iff.mp h
    rw [List.isChain_cons]
    refine ⟨?_, ih hrest⟩
    intro second hsecond
    obtain ⟨others, rfl⟩ := List.head?_eq_some_iff.mp hsecond
    obtain ⟨after, hstep, -⟩ := Option.bind_eq_some_iff.mp hrest
    exact ⟨state, next, after, hfirst, hstep⟩

theorem advance_concat {state next : σ} {lexemes : List (Lexeme τ)}
    (h : reader.advance state lexemes = some next) (lexeme : Lexeme τ) :
    reader.advance state (lexemes ++ [lexeme]) = reader.step next lexeme := by
  simp [advance_append, h]

/-- What is read is the result of the state behind all lexemes. -/
theorem readFrom_eq_ok_iff (length : Nat) (state : σ) (lexemes : List (Lexeme τ)) (result : α) :
    reader.readFrom length state lexemes = .ok result ↔
      ∃ last, reader.advance state lexemes = some last ∧ reader.finish last = some result := by
  induction lexemes generalizing state with
  | nil =>
    cases h : reader.finish state with
    | none => simp [readFrom, h]
    | some value => simp [readFrom, h]
  | cons lexeme rest ih =>
    cases h : reader.step state lexeme with
    | none => simp [readFrom, h]
    | some next => simpa [readFrom, h] using ih next

def complaintOf (length : Nat) (state : σ) : Option (Lexeme τ) → Complaint τ
  | some lexeme => reader.refusal state lexeme
  | none => .unexpected none (reader.expected state) ⟨length, length + 1⟩

/-- Without an objection, what is expected is set against what is there. -/
theorem complaintOf_eq_unexpected {state : σ} {next? : Option (Lexeme τ)}
    (h : ∀ lexeme ∈ next?, reader.objection? state lexeme = none) (length : Nat) :
    reader.complaintOf length state next? =
      .unexpected (next?.map Lexeme.token) (reader.expected state)
        ((next?.map Lexeme.span).getD ⟨length, length + 1⟩) := by
  cases next? with
  | none => rfl
  | some lexeme => simp [complaintOf, refusal, h lexeme rfl]

/-- A complaint comes from the state in front of the first lexeme that is refused, or from the last
state when that one is not complete. -/
theorem exists_of_readFrom_eq_error (length : Nat) (state : σ) (lexemes : List (Lexeme τ))
    (complaint : Complaint τ) (h : reader.readFrom length state lexemes = .error complaint) :
    ∃ k last, k ≤ lexemes.length ∧ reader.advance state (lexemes.take k) = some last ∧
      complaint = reader.complaintOf length last lexemes[k]? ∧
      ∀ lexeme, lexemes[k]? = some lexeme → reader.step last lexeme = none := by
  induction lexemes generalizing state with
  | nil =>
    refine ⟨0, state, Nat.le_refl 0, rfl, ?_, by simp⟩
    cases hfinish : reader.finish state with
    | none => simpa [readFrom, hfinish, eq_comm, complaintOf] using h
    | some value => simp [readFrom, hfinish] at h
  | cons lexeme rest ih =>
    cases hstep : reader.step state lexeme with
    | none =>
      refine ⟨0, state, Nat.zero_le _, rfl, ?_, by simpa using hstep⟩
      simpa [readFrom, hstep, eq_comm, complaintOf] using h
    | some next =>
      have hrest : reader.readFrom length next rest = .error complaint := by
        simpa [readFrom, hstep] using h
      obtain ⟨k, last, hk, hlast, hcomplaint, hrefused⟩ := ih next hrest
      refine ⟨k + 1, last, Nat.succ_le_succ hk, ?_, ?_, ?_⟩
      · simpa [hstep] using hlast
      · simpa using hcomplaint
      · simpa using hrefused

/-- The results of a reader are those that `Derives` gives, and whatever it has taken can be
completed. Tokens are taken for what they are and not for where they stand. -/
structure Recognizes (Derives : List (Lexeme τ) → α → Prop) : Prop where
  derives_iff : ∀ lexemes result, Derives lexemes result ↔
    ∃ last, reader.advance reader.start lexemes = some last ∧ reader.finish last = some result
  completable : ∀ state, ∃ rest last result,
    reader.advance state rest = some last ∧ reader.finish last = some result
  step_isSome : ∀ state token span other,
    (reader.step state ⟨token, span⟩).isSome = (reader.step state ⟨token, other⟩).isSome

namespace Recognizes

variable {reader} {Derives : List (Lexeme τ) → α → Prop}

theorem read_eq_ok_iff (h : reader.Recognizes Derives) (length : Nat) (lexemes : List (Lexeme τ))
    (result : α) : reader.read length lexemes = .ok result ↔ Derives lexemes result := by
  rw [h.derives_iff]
  exact reader.readFrom_eq_ok_iff length reader.start lexemes result

/-- What is read in one way only is derived in one way only. -/
theorem unique (h : reader.Recognizes Derives) {lexemes : List (Lexeme τ)} {a b : α}
    (ha : Derives lexemes a) (hb : Derives lexemes b) : a = b := by
  have hread := ((h.read_eq_ok_iff 0 lexemes a).mpr ha).symm.trans
    ((h.read_eq_ok_iff 0 lexemes b).mpr hb)
  exact Except.ok.inj hread

/-- The viable sequences are those that are taken. -/
theorem isViable_iff (h : reader.Recognizes Derives) (lexemes : List (Lexeme τ)) :
    IsViable (Sentence Derives) lexemes ↔ (reader.advance reader.start lexemes).isSome := by
  constructor
  · intro hviable
    obtain ⟨rest, result, hderives⟩ := hviable
    obtain ⟨last, hlast, -⟩ := (h.derives_iff _ _).mp hderives
    rw [advance_append] at hlast
    obtain ⟨next, hnext, -⟩ := Option.bind_eq_some_iff.mp hlast
    simp [hnext]
  · intro hsome
    obtain ⟨state, hstate⟩ := Option.isSome_iff_exists.mp hsome
    obtain ⟨rest, last, result, hlast, hfinish⟩ := h.completable state
    refine ⟨rest, result, (h.derives_iff _ _).mpr ⟨last, ?_, hfinish⟩⟩
    rw [advance_append, hstate]
    exact hlast

theorem isViable_concat_iff (h : reader.Recognizes Derives) {lexemes : List (Lexeme τ)}
    {state : σ} (hstate : reader.advance reader.start lexemes = some state) (lexeme : Lexeme τ) :
    IsViable (Sentence Derives) (lexemes ++ [lexeme]) ↔ (reader.step state lexeme).isSome := by
  rw [h.isViable_iff, reader.advance_concat hstate]

theorem mem_expected_iff (h : reader.Recognizes Derives) {lexemes : List (Lexeme τ)}
    {state : σ} (hstate : reader.advance reader.start lexemes = some state) (token : τ)
    (span : Span) :
    some token ∈ reader.expected state ↔
      token ∈ reader.fixed ∧ IsViable (Sentence Derives) (lexemes ++ [⟨token, span⟩]) := by
  rw [h.isViable_concat_iff hstate, h.step_isSome state token span ⟨0, 0⟩]
  cases hfinish : (reader.finish state).isSome <;> simp [expected, hfinish]

theorem none_mem_expected_iff (h : reader.Recognizes Derives) {lexemes : List (Lexeme τ)}
    {state : σ} (hstate : reader.advance reader.start lexemes = some state) :
    none ∈ reader.expected state ↔ Sentence Derives lexemes := by
  unfold Sentence
  simp only [h.derives_iff]
  cases hfinish : reader.finish state with
  | none => simp [expected, hfinish, hstate]
  | some result => simp [expected, hfinish, hstate]

/-- No longer part than the one in front of a refused lexeme is viable. -/
theorem breaksAt (h : reader.Recognizes Derives) {lexemes : List (Lexeme τ)} {k : Nat}
    {state : σ} (hk : k ≤ lexemes.length)
    (hstate : reader.advance reader.start (lexemes.take k) = some state)
    (hrefused : ∀ lexeme, lexemes[k]? = some lexeme → reader.step state lexeme = none) :
    BreaksAt (Sentence Derives) lexemes k := by
  refine ⟨⟨hk, (h.isViable_iff _).mpr (by simp [hstate])⟩, ?_⟩
  intro n hmem
  obtain ⟨hn, hviable⟩ := hmem
  by_contra hlt
  have hlength : k < lexemes.length := by omega
  have hsplit : lexemes.take n =
      (lexemes.take k ++ [lexemes[k]]) ++ (lexemes.take n).drop (k + 1) := by
    rw [← List.take_succ_eq_append_getElem hlength]
    have htake : lexemes.take (k + 1) = (lexemes.take n).take (k + 1) := by
      rw [List.take_take, Nat.min_eq_left (by omega)]
    rw [htake, List.take_append_drop]
  have hnone : reader.step state lexemes[k] = none :=
    hrefused _ (List.getElem?_eq_getElem hlength)
  rw [h.isViable_iff, hsplit, advance_append, reader.advance_concat hstate, hnone] at hviable
  simp at hviable

/-- Unless there is an objection, the complaint of a state that lexemes lead to is precise. -/
theorem pointsAt (h : reader.Recognizes Derives) {IsFixed : τ → Prop}
    (hfixed : ∀ token, token ∈ reader.fixed ↔ IsFixed token) {lexemes : List (Lexeme τ)} {k : Nat}
    {state : σ} (hstate : reader.advance reader.start (lexemes.take k) = some state)
    (hobjection : ∀ lexeme ∈ lexemes[k]?, reader.objection? state lexeme = none) (length : Nat) :
    PointsAt (Sentence Derives) IsFixed length lexemes k
      (reader.complaintOf length state lexemes[k]?) := by
  refine ⟨reader.expected state, reader.complaintOf_eq_unexpected hobjection length, ?_,
    h.none_mem_expected_iff hstate⟩
  intro token span
  rw [h.mem_expected_iff hstate token span, hfixed]

/-- A reader complains at the end of the longest viable part. -/
theorem exists_breaksAt (h : reader.Recognizes Derives) {length : Nat}
    {lexemes : List (Lexeme τ)} {complaint : Complaint τ}
    (hread : reader.read length lexemes = .error complaint) :
    ∃ k state, BreaksAt (Sentence Derives) lexemes k ∧
      reader.advance reader.start (lexemes.take k) = some state ∧
      complaint = reader.complaintOf length state lexemes[k]? ∧
      ∀ lexeme, lexemes[k]? = some lexeme → reader.step state lexeme = none := by
  obtain ⟨k, state, hk, hstate, hcomplaint, hrefused⟩ :=
    reader.exists_of_readFrom_eq_error length reader.start lexemes complaint hread
  exact ⟨k, state, h.breaksAt hk hstate hrefused, hstate, hcomplaint, hrefused⟩

end Recognizes

end Reader

end DeskCalculator.Reading
