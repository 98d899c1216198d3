import DeskCalculator.Proofs.Expression.Neighbours
import DeskCalculator.Proofs.Expression.Normalization
import DeskCalculator.Proofs.Scientific.Retyping
import DeskCalculator.Proofs.Scientific.Misuse

/-!
Normalization of texts that have a value as they are. Such a text has no invalid token, so no `^`,
and no name in it is unknown. Names with a meaning hold no digits and no name follows a number, so
the digit in front of an `E` would belong to neither. Normalization therefore finds nothing to
replace.
-/
namespace DeskCalculator.Expression

open Reading Scientific

theorem Use.mem_symbolNames {use : Use} (h : use.fault? = none) : use.name ∈ symbolNames := by
  have hknown : IsValueName use.name ∨ (arity? use.name).isSome := by
    by_contra hnot
    obtain ⟨hvalue, harity⟩ := not_or.mp hnot
    have hnone : arity? use.name = none := by simpa using harity
    unfold fault? at h
    cases harguments : use.arguments <;> simp [harguments, hnone, hvalue] at h
  rcases hknown with (hans | hconstant) | hfunction
  · exact hans ▸ List.mem_append_right _ (List.mem_singleton_self _)
  · obtain ⟨value, hvalue⟩ := Option.isSome_iff_exists.mp hconstant
    obtain ⟨constant, hfound, -⟩ := Option.map_eq_some_iff.mp hvalue
    have hname : constant.1 = use.name := by simpa using List.find?_some hfound
    have hmem := List.mem_map_of_mem (f := Prod.fst) (List.mem_of_find?_eq_some hfound)
    exact List.mem_append_left _ (List.mem_append_right _ (hname ▸ hmem))
  · rcases function?_cases use.name with ⟨-, harity, -⟩ | ⟨binding, hmem, hname, -⟩
    · exact nomatch harity ▸ hfunction
    · have hlisted := List.mem_map_of_mem (f := Binding.name) hmem
      exact List.mem_append_left _ (List.mem_append_left _ (hname ▸ hlisted))

/-- No name with a meaning holds a digit. -/
theorem all_not_isDigit_of_mem_symbolNames {name : String} (h : name ∈ symbolNames) :
    (name.toList.all fun c => !c.isDigit) = true := by
  have hall : (symbolNames.all fun name => name.toList.all fun c => !c.isDigit) = true := by decide
  exact List.all_eq_true.mp hall name h

namespace Token

def IsKnown (token : Token) : Prop := ∀ name, token = identifier name → name ∈ symbolNames

variable {first second : Token} {word other : List Char}

theorem SpellsNumber.not_mem (h : SpellsNumber first word) : 'E' ∉ word := by
  obtain ⟨-, n, hproper, rfl⟩ := h
  intro hmem
  exact absurd (hproper.of_mem_text hmem) (by decide)

/-- Digits stand in numbers only, where all names have a meaning. -/
theorem Spells.not_isDecimalDigit (h : Spells first word) (hknown : first.IsKnown)
    (hnumber : ¬SpellsNumber first word) : ∀ c ∈ word, Text.isDecimalDigit c = false := by
  have hdigits : (word.all fun c => !c.isDigit) = true := by
    rcases h with hname | hspelled | hfixed
    · have hnone := all_not_isDigit_of_mem_symbolNames (hknown _ hname.1)
      rwa [String.toList_ofList] at hnone
    · exact absurd hspelled hnumber
    · obtain ⟨hfixed, rfl⟩ := hfixed
      cases first with
      | identifier | number | invalid => exact hfixed.elim
      | _ => rfl
  intro c hc
  by_contra hdecimal
  have hsize : c.utf8Size = 1 := utf8Size_of_isWordPart (h.isWordPart c hc)
  have hdigit : c.isDigit = true := Text.isDigit_of_isDecimalDigit hsize (by simpa using hdecimal)
  exact absurd hdigit (by simpa using List.all_eq_true.mp hdigits c hc)

/-- Within a word no `E` stands behind a digit. -/
theorem Spells.isChain_isApart (h : Spells first word) (hknown : first.IsKnown) :
    word.IsChain IsApart := by
  by_cases hnumber : SpellsNumber first word
  · exact isChain_isApart_of_not_mem hnumber.not_mem
  · exact isChain_isApart_of_not_isDecimalDigit (h.not_isDecimalDigit hknown hnumber)

/-- A word that begins with an `E` is a name, and one that ends with a digit is a number. -/
theorem Spells.isApart (h : Spells first word) (hknown : first.IsKnown)
    (hother : Spells second other) (hfollow : MayFollow second first) :
    ∀ c ∈ word.getLast?, ∀ d ∈ other.head?, IsApart c d := by
  rintro c hc _ hd hdigit rfl
  obtain ⟨letters, rfl⟩ := List.head?_eq_some_iff.mp hd
  have hmem : c ∈ word := List.mem_of_mem_getLast? hc
  have hstart : BeginsWith (isNameStart · = true) ('E' :: letters) := ⟨'E', letters, rfl, rfl⟩
  have hname : second = identifier (String.ofList ('E' :: letters)) := by
    rcases hother with hname | hnumber | hfixed
    · exact hname.1
    · exact (hstart.absurd hnumber.beginsWith fun _ => not_isNumberStart_of_isNameStart).elim
    · exact (hstart.absurd hfixed.beginsWith fun _ hc hc' => hc'.1 hc).elim
  by_cases hnumber : SpellsNumber first word
  · exact hfollow _ _ hnumber.1 hname
  · exact nomatch (h.not_isDecimalDigit hknown hnumber c hmem).symm.trans hdigit

theorem isApart_of_isSeparator (b c : Char) (h : Text.isSeparator b = true) :
    IsApart b c ∧ IsApart c b := by
  simp only [Text.isSeparator, Bool.or_eq_true, beq_iff_eq] at h
  constructor
  · intro hdigit
    rcases h with ((rfl | rfl) | rfl) | rfl <;> exact absurd hdigit (by decide)
  · rintro - rfl
    exact absurd h (by decide)

end Token

/-- In an expression whose names all have a meaning, no `E` stands behind a digit. -/
theorem IsSum.isChain_isApart {text : String} {tree : Tree} (h : IsSum (scan Token text) tree)
    (hknown : ∀ lexeme ∈ scan Token text, lexeme.token.IsKnown) :
    text.toList.IsChain IsApart := by
  obtain ⟨before, pieces, hlaid, htokens, hmunched⟩ :=
    Token.isLegible.exists_layOut 0 text.toList h.valid
  have hpieces : ∀ piece ∈ pieces, piece.token.IsKnown := by
    intro piece hpiece
    have hmem := List.mem_map_of_mem (f := Piece.token) hpiece
    rw [htokens] at hmem
    obtain ⟨lexeme, hlexeme, htoken⟩ := List.mem_map.mp hmem
    exact htoken ▸ hknown lexeme hlexeme
  have hfollow : pieces.IsChain fun first second => MayFollow second.token first.token := by
    have hchain := h.isChain_mayFollow
    rwa [scan, ← htokens, List.isChain_map] at hchain
  rw [← hlaid, layOut]
  refine isChain_run_append Token.isApart_of_isSeparator before
    (isChain_lay Token.isApart_of_isSeparator ?_ ?_)
  · intro piece hpiece
    have hspells := hmunched.spells piece hpiece
    exact ⟨hspells.ne_nil, hspells.isChain_isApart (hpieces piece hpiece)⟩
  · refine List.IsChain.imp_of_mem_imp ?_ hfollow
    intro first second hfirst hsecond hnext
    exact (hmunched.spells first hfirst).isApart (hpieces first hfirst)
      (hmunched.spells second hsecond) hnext

end DeskCalculator.Expression

namespace DeskCalculator.Scientific

open Expression Reading

/-- An expression with a value has no unknown names. -/
theorem isKnown_of_value {lexemes : List (Lexeme Token)} {tree : Tree} {mode : Mode}
    {ans x : Float} (h : IsSum lexemes tree) (hvalue : value mode ans tree = .ok x) :
    ∀ lexeme ∈ lexemes, lexeme.token.IsKnown := by
  have hnone : tree.uses.findSome? Use.fault? = none := by
    rw [← failure?_value mode ans tree, hvalue, failure?]
  rintro ⟨_, span⟩ hmem name rfl
  have hname : (⟨.identifier name, span⟩ : Lexeme Token) ∈ tree.uses.map Use.lexeme := by
    rw [h.map_lexeme_uses]
    exact List.mem_filter.mpr ⟨hmem, rfl⟩
  obtain ⟨use, huse, hlexeme⟩ := List.mem_map.mp hname
  obtain rfl : use.name = name := by
    injection congrArg Lexeme.token hlexeme
  exact Use.mem_symbolNames (List.findSome?_eq_none_iff.mp hnone use huse)

/-- A text that has a value as it is stays as it is. -/
theorem normalize_of_value {text : String} {tree : Tree} {mode : Mode} {ans x : Float}
    (hparse : parse text = .ok tree) (hvalue : value mode ans tree = .ok x) :
    normalize text = text := by
  have h : IsSum (scan Token text) tree := isSum_of_parse hparse
  refine normalize_of_isChain ?_ (h.isChain_isApart (isKnown_of_value h hvalue))
  intro hmem
  have hcharacter : Token.IsCharacter '^' :=
    Token.isRuledBy.forall_mem_of_valid Token.isAlphabet h.valid '^' hmem
  exact absurd hcharacter (by decide)

/-- Normalization never changes what already works: a text that has a finite value as it is has the
same value when it is normalized first. -/
theorem evaluate_of_raw_value {text : String} {mode : Mode} {ans x : Float} {tree : Tree}
    (hparse : parse text = .ok tree) (hvalue : value mode ans tree = .ok x)
    (hfinite : x.isFinite = true) :
    evaluate text mode ans = .ok x ∧ normalize text = text := by
  have hnormal : normalize text = text := normalize_of_value hparse hvalue
  refine ⟨?_, hnormal⟩
  rw [evaluate_of_parse_eq_ok (hnormal.symm ▸ hparse), hvalue]
  exact checkFinite_of_isFinite hfinite

/-- An `E` without a digit before it is the constant, also beside a number with an exponent. -/
theorem evaluate_of_raw_value_of_constant :
    let tree : Tree := .sum .plus (.number 2000.0)
      (.product .over (.symbol "E" ⟨4, 5⟩) (.symbol "E" ⟨6, 7⟩))
    parse "2e3+E/E" = .ok tree ∧ value {} 7.0 tree = .ok 2001.0 ∧
      (2001.0 : Float).isFinite = true ∧ evaluate "2e3+E/E" {} 7.0 = .ok 2001.0 ∧
      normalize "2e3+E/E" = "2e3+E/E" := by
  intro tree
  have hparse : parse "2e3+E/E" = .ok tree := by
    have hscan : scan Token "2e3+E/E" =
        [⟨.number "2e3", 0, 3⟩, ⟨.plus, 3, 4⟩, ⟨.identifier "E", 4, 5⟩, ⟨.slash, 5, 6⟩,
          ⟨.identifier "E", 6, 7⟩] := by
      decide +kernel
    rw [parse, Tree.ofText, hscan]
    rfl
  have hvalue : value {} 7.0 tree = .ok 2001.0 := toOption_eq_some_iff.mp (by decide +kernel)
  have hfinite : (2001.0 : Float).isFinite = true := by decide +kernel
  exact ⟨hparse, hvalue, hfinite, evaluate_of_raw_value hparse hvalue hfinite⟩

end DeskCalculator.Scientific
