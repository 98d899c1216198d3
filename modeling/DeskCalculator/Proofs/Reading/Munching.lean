import Mathlib.Data.List.TakeWhile
import DeskCalculator.Reading.Lexeme

/-!
Maximal munch. The rules of a vocabulary say which words spell which tokens, and a finder of tokens
is true to them if it takes words by the rules only and, whatever stands behind a word, never less
than it. Then it takes the longest word at the front of a text. Rules whose words begin with
different characters never compete, so finders for them can be tried one after the other. And where
no word reaches from one text into the next, words do not grow when the two are joined.
-/
namespace DeskCalculator.Reading

variable {τ : Type}

/-- Whether a word, spelling a token, is the longest word at the front of a text that spells any. -/
structure IsMunch (Spells : τ → List Char → Prop) (text : List Char) (token : τ)
    (word : List Char) : Prop where
  front : word <+: text
  spelled : Spells token word
  longest : ∀ other longer, longer <+: text → Spells other longer → longer.length ≤ word.length

/-- A word by itself is munched. -/
theorem IsMunch.whole {Spells : τ → List Char → Prop} {token : τ} {word : List Char}
    (h : Spells token word) : IsMunch Spells word token word where
  front := List.prefix_refl word
  spelled := h
  longest := fun _ _ hfront _ => hfront.length_le

/-- No two words at the front of one text are both the longest. -/
theorem IsMunch.word_unique {Spells : τ → List Char → Prop} {text word other : List Char}
    {token found : τ} (h : IsMunch Spells text token word)
    (hother : IsMunch Spells text found other) : word = other := by
  have hlength : word.length = other.length :=
    le_antisymm (hother.longest token word h.front h.spelled)
      (h.longest found other hother.front hother.spelled)
  exact (List.prefix_of_prefix_length_le h.front hother.front hlength.le).eq_of_length hlength

structure Finds (front? : List Char → Option (τ × Nat)) (Spells : τ → List Char → Prop) :
    Prop where
  sound : ∀ {text token length}, front? text = some (token, length) →
    ∃ word, word.length = length ∧ word <+: text ∧ Spells token word
  complete : ∀ {token word}, Spells token word → ∀ behind, ∃ other length,
    front? (word ++ behind) = some (other, length) ∧ word.length ≤ length

def IsRun (isFirst isNext : Char → Bool) (word : List Char) : Prop :=
  ∃ c rest, word = c :: rest ∧ isFirst c = true ∧ ∀ d ∈ rest, isNext d = true

/-- Where the same characters begin words and go on with them, a run is any word of them. -/
theorem isRun_iff {p : Char → Bool} {word : List Char} :
    IsRun p p word ↔ word ≠ [] ∧ ∀ c ∈ word, p c = true := by
  constructor
  · rintro ⟨c, rest, rfl, hc, hrest⟩
    exact ⟨List.cons_ne_nil c rest, List.forall_mem_cons.mpr ⟨hc, hrest⟩⟩
  · rintro ⟨hne, hall⟩
    obtain ⟨c, rest, rfl⟩ := List.exists_cons_of_ne_nil hne
    exact ⟨c, rest, rfl, List.forall_mem_cons.mp hall⟩

def BeginsWith (p : Char → Prop) (word : List Char) : Prop := ∃ c rest, word = c :: rest ∧ p c

theorem BeginsWith.mono {p q : Char → Prop} {word : List Char} (h : BeginsWith p word)
    (hpq : ∀ c, p c → q c) : BeginsWith q word := by
  obtain ⟨c, rest, hword, hc⟩ := h
  exact ⟨c, rest, hword, hpq c hc⟩

theorem BeginsWith.ne_nil {p : Char → Prop} {word : List Char} (h : BeginsWith p word) :
    word ≠ [] := by
  obtain ⟨c, rest, rfl, -⟩ := h
  exact List.cons_ne_nil c rest

/-- A word does not begin with characters of two kinds that exclude each other. -/
theorem BeginsWith.absurd {p q : Char → Prop} {word : List Char} (hp : BeginsWith p word)
    (hq : BeginsWith q word) (hpq : ∀ c, p c → ¬q c) : False := by
  obtain ⟨c, rest, rfl, hc⟩ := hp
  obtain ⟨d, others, heq, hd⟩ := hq
  obtain rfl := (List.cons.inj heq).1
  exact hpq c hc hd

namespace Finds

variable {front? first? second? : List Char → Option (τ × Nat)}
  {Spells Other : τ → List Char → Prop}

theorem exists_isMunch (h : Finds front? Spells) {text : List Char} {token : τ} {length : Nat}
    (hfound : front? text = some (token, length)) :
    ∃ word, word.length = length ∧ IsMunch Spells text token word := by
  obtain ⟨word, rfl, hfront, hspelled⟩ := h.sound hfound
  refine ⟨word, rfl, hfront, hspelled, ?_⟩
  rintro other longer ⟨behind, rfl⟩ hspells
  obtain ⟨_, _, htaken, hlength⟩ := h.complete hspells behind
  obtain ⟨-, rfl⟩ := Prod.mk.inj (Option.some.inj (hfound.symm.trans htaken))
  exact hlength

theorem not_spells_of_eq_none (h : Finds front? Spells) {text : List Char}
    (hnone : front? text = none) (token : τ) (word : List Char) (hfront : word <+: text) :
    ¬Spells token word := by
  obtain ⟨behind, rfl⟩ := hfront
  intro hspells
  obtain ⟨_, _, htaken, -⟩ := h.complete hspells behind
  exact nomatch hnone.symm.trans htaken

theorem isMunch_take (h : Finds front? Spells) {text : List Char} {token : τ} {length : Nat}
    (hfound : front? text = some (token, length)) :
    IsMunch Spells text token (text.take length) := by
  obtain ⟨word, rfl, hmunch⟩ := h.exists_isMunch hfound
  rwa [← List.prefix_iff_eq_take.mp hmunch.front]

/-- Something is found just where a word by the rules stands. -/
theorem exists_eq_some_iff (h : Finds front? Spells) {text : List Char} :
    (∃ found, front? text = some found) ↔ ∃ token word, word <+: text ∧ Spells token word := by
  constructor
  · rintro ⟨⟨token, length⟩, hfound⟩
    obtain ⟨word, -, hfront, hspelled⟩ := h.sound hfound
    exact ⟨token, word, hfront, hspelled⟩
  · rintro ⟨token, word, ⟨behind, rfl⟩, hspells⟩
    obtain ⟨other, length, htaken, -⟩ := h.complete hspells behind
    exact ⟨(other, length), htaken⟩

/-- Where a word spells one token only, the one that is found is told by the longest word. -/
theorem eq_some_iff (h : Finds front? Spells)
    (told : ∀ {token other word}, Spells token word → Spells other word → other = token)
    {text : List Char} {token : τ} {length : Nat} :
    front? text = some (token, length) ↔
      ∃ word, word.length = length ∧ IsMunch Spells text token word := by
  constructor
  · exact h.exists_isMunch
  · rintro ⟨word, rfl, hmunch⟩
    obtain ⟨⟨other, length⟩, hfound⟩ :=
      h.exists_eq_some_iff.mpr ⟨token, word, hmunch.front, hmunch.spelled⟩
    obtain ⟨longer, hlength, hother⟩ := h.exists_isMunch hfound
    obtain rfl : longer = word := hother.word_unique hmunch
    rw [hfound, told hmunch.spelled hother.spelled, hlength]

/-- Nothing behind the longest word matters. -/
theorem eq_of_isMunch (h : Finds front? Spells)
    (told : ∀ {token other word}, Spells token word → Spells other word → other = token)
    {text : List Char} {token : τ} {word : List Char} (hmunch : IsMunch Spells text token word) :
    front? text = front? word := by
  rw [(h.eq_some_iff told).mpr ⟨word, rfl, hmunch⟩,
    (h.eq_some_iff told).mpr ⟨word, rfl, .whole hmunch.spelled⟩]

/-- A run is taken by its first character and all those behind it with which it can go on. -/
theorem run {isFirst isNext : Char → Bool} {token : List Char → τ} (hnil : front? [] = none)
    (hcons : ∀ c rest, front? (c :: rest) =
      if isFirst c then
        some (token (c :: rest.takeWhile isNext), (c :: rest.takeWhile isNext).length)
      else none) :
    Finds front? fun t word => t = token word ∧ IsRun isFirst isNext word where
  sound := by
    intro text t length h
    cases text with
    | nil => exact nomatch hnil.symm.trans h
    | cons c rest =>
      rw [hcons] at h
      obtain ⟨hfirst, htaken⟩ := Option.ite_none_right_eq_some.mp h
      obtain ⟨rfl, rfl⟩ := Prod.mk.inj (Option.some.inj htaken)
      have hfront : c :: rest.takeWhile isNext <+: c :: rest :=
        List.cons_prefix_cons.mpr ⟨rfl, List.takeWhile_prefix _⟩
      exact ⟨_, rfl, hfront, rfl, c, _, rfl, hfirst, fun d hd => List.mem_takeWhile_imp hd⟩
  complete := by
    rintro t _ ⟨-, c, rest, rfl, hfirst, hnext⟩ behind
    refine ⟨_, _, by rw [List.cons_append, hcons, if_pos hfirst], ?_⟩
    rw [List.takeWhile_append_of_pos hnext, ← List.cons_append, List.length_append]
    exact Nat.le_add_right _ _

/-- Two finders whose words begin differently give one for both rules. -/
theorem orElse {p : Char → Prop} (hfirst : Finds first? Spells) (hsecond : Finds second? Other)
    (hp : ∀ token word, Spells token word → BeginsWith p word)
    (hnot : ∀ token word, Other token word → BeginsWith (fun c => ¬p c) word) :
    Finds (fun text => first? text <|> second? text) fun token word =>
      Spells token word ∨ Other token word where
  sound := by
    intro text token length h
    cases hfound : first? text with
    | some taken =>
      rw [hfound] at h
      obtain ⟨word, hlength, hfront, hspelled⟩ := hfirst.sound (hfound.trans h)
      exact ⟨word, hlength, hfront, .inl hspelled⟩
    | none =>
      rw [hfound] at h
      obtain ⟨word, hlength, hfront, hspelled⟩ := hsecond.sound h
      exact ⟨word, hlength, hfront, .inr hspelled⟩
  complete := by
    rintro token word (hspells | hspells) behind
    · obtain ⟨other, length, htaken, hlength⟩ := hfirst.complete hspells behind
      exact ⟨other, length, by rw [htaken]; rfl, hlength⟩
    · obtain ⟨other, length, htaken, hlength⟩ := hsecond.complete hspells behind
      obtain ⟨c, rest, rfl, hc⟩ := hnot token word hspells
      have hnone : first? (c :: rest ++ behind) = none := by
        rw [Option.eq_none_iff_forall_ne_some]
        rintro ⟨t, n⟩ hfound
        obtain ⟨_, -, hfront, hspelled⟩ := hfirst.sound hfound
        obtain ⟨d, others, rfl, hd⟩ := hp t _ hspelled
        obtain rfl := (List.cons_prefix_cons.mp hfront).1
        exact hc hd
      exact ⟨other, length, by rw [hnone]; exact htaken, hlength⟩

end Finds

/-- Whether no word holds the last character of a text and, right behind it, the first one of
another text. -/
def IsParted (Spells : τ → List Char → Prop) (left right : List Char) : Prop :=
  ∀ token word, Spells token word → ∀ c d, [c] <:+ left → [d] <+: right → ¬[c, d] <:+: word

namespace IsParted

variable {Spells : τ → List Char → Prop} {left right tail word : List Char} {token : τ}

theorem of_isSuffix (h : IsParted Spells left right) (htail : tail <:+ left) :
    IsParted Spells tail right :=
  fun token word hspells c d hc hd => h token word hspells c d (hc.trans htail) hd

/-- No word goes on where texts are parted. -/
theorem isPrefix (h : IsParted Spells left right) (hne : left ≠ []) (hspells : Spells token word)
    (hfront : word <+: left ++ right) : word <+: left := by
  rcases List.prefix_or_prefix_of_prefix hfront (List.prefix_append left right) with
    hshort | ⟨more, rfl⟩
  · exact hshort
  · cases more with
    | nil => simpa only [List.append_nil] using List.prefix_refl left
    | cons d others =>
      have hd : [d] <+: right :=
        List.IsPrefix.trans ⟨others, rfl⟩ ((List.prefix_append_right_inj left).mp hfront)
      have hsplit := List.dropLast_concat_getLast hne
      have hpair : [left.getLast hne, d] <:+: left ++ d :: others := by
        refine ⟨left.dropLast, others, ?_⟩
        have hjoined := congrArg (· ++ d :: others) hsplit
        simpa only [List.append_assoc, List.cons_append, List.nil_append] using hjoined
      exact absurd hpair (h token _ hspells _ _ ⟨_, hsplit⟩ hd)

end IsParted

end DeskCalculator.Reading
