import DeskCalculator.Proofs.Expression.Neighbours
import DeskCalculator.Proofs.Expression.Normalization
import DeskCalculator.Proofs.Expression.Spelling
import DeskCalculator.Proofs.Reading.Places
import DeskCalculator.Proofs.Scientific.Misuse

/-!
Where malformed expressions are pointed at. The names of a tree stand in the text from left to
right, so the misused name at which evaluation stops is the one that begins first. Every other
malformed text is blank, or refused at one of its tokens or behind the last of them.
-/
namespace DeskCalculator.Expression

open Reading Scientific

/-- The names of an expression stand in its text in their order, each where its span is. -/
theorem IsSum.standInOrder_uses {text : String} {tree : Tree} (h : IsSum (scan Token text) tree) :
    StandInOrder text (tree.uses.map fun use => (use.name, use.span)) := by
  have hnames := Token.isRuledBy.standInOrder text Token.isIdentifier rfl
  have hidentifiers : (scan Token text).filter (fun lexeme => lexeme.token.isIdentifier) =
      tree.uses.map Use.lexeme := h.map_lexeme_uses.symm
  rw [hidentifiers, List.map_map] at hnames
  exact hnames

/-- The ways to misuse a name in a mode: the name is unknown, a function is not called, what has a
value is called, or a function is called with another number of arguments than it takes. -/
inductive Use.IsMisused (mode : Mode) : Use → Prop
  | unknown {use : Use} (hvalue : ¬IsValueName use.name)
      (hfunction : function? use.name mode = none) : IsMisused mode use
  | notCalled {name builtin} (span) (hfunction : function? name mode = some builtin) :
      IsMisused mode ⟨name, span, none⟩
  | valueCalled {name} (span count) (hvalue : IsValueName name) :
      IsMisused mode ⟨name, span, some count⟩
  | wrongCount {name builtin count} (span) (hfunction : function? name mode = some builtin)
      (hcount : count ≠ builtin.arity) : IsMisused mode ⟨name, span, some count⟩

/-- No function has the name of a value. -/
theorem not_isValueName_of_function? {name : String} {mode : Mode} {builtin : Builtin}
    (h : function? name mode = some builtin) : ¬IsValueName name := by
  have hnone : ∀ b ∈ bindings, ¬IsValueName b.name := by decide
  rcases function?_cases name with ⟨-, -, hfunction⟩ | ⟨binding, hmem, rfl, -⟩
  · exact nomatch (hfunction mode).symm.trans h
  · exact hnone binding hmem

theorem Use.isMisused_of_isSome_fault? {use : Use} (mode : Mode) (h : use.fault?.isSome = true) :
    use.IsMisused mode := by
  obtain ⟨name, span, arguments⟩ := use
  have harity := map_arity_function? name mode
  unfold fault? at h
  cases hfunction : function? name mode with
  | none =>
    by_cases hvalue : IsValueName name
    · cases arguments with
      | none => simp [hvalue] at h
      | some count => exact .valueCalled span count hvalue
    · exact .unknown hvalue hfunction
  | some builtin =>
    rw [hfunction, Option.map_some] at harity
    cases arguments with
    | none => exact .notCalled span hfunction
    | some count =>
      refine .wrongCount span hfunction ?_
      rintro rfl
      simp [← harity] at h

theorem Use.IsMisused.isSome_fault? {use : Use} {mode : Mode} (h : use.IsMisused mode) :
    use.fault?.isSome = true := by
  obtain ⟨name, span, arguments⟩ := use
  have harity := map_arity_function? name mode
  unfold fault?
  cases h with
  | unknown hvalue hfunction =>
    rw [hfunction, Option.map_none] at harity
    cases arguments <;> simp [← harity, hvalue]
  | notCalled _ hfunction =>
    rw [hfunction, Option.map_some] at harity
    simp [← harity, not_isValueName_of_function? hfunction]
  | valueCalled _ count hvalue =>
    cases hfunction : function? name mode with
    | none =>
      rw [hfunction, Option.map_none] at harity
      simp [← harity, hvalue]
    | some builtin => exact absurd hvalue (not_isValueName_of_function? hfunction)
  | wrongCount _ hfunction hcount =>
    rw [hfunction, Option.map_some] at harity
    simp [← harity, hcount]

/-- Whether something is wrong with the use of a name does not depend on the mode, although the ways
to misuse it speak of one. -/
theorem Use.isSome_fault?_iff (use : Use) (mode : Mode) :
    use.fault?.isSome = true ↔ use.IsMisused mode :=
  ⟨isMisused_of_isSome_fault? mode, IsMisused.isSome_fault?⟩

theorem Use.span_of_fault? {use : Use} {fault : Fault} (h : use.fault? = some fault) :
    fault.failure.span = some use.span := by
  unfold fault? at h
  split at h <;> split_ifs at h <;> obtain rfl := Option.some.inj h <;> rfl

/-- The fault found first is that of the first misused name. -/
theorem exists_first_fault {uses : List Use} {mode : Mode}
    (hmisused : ∃ use ∈ uses, use.IsMisused mode) :
    ∃ before first behind fault, uses = before ++ first :: behind ∧
      (∀ use ∈ before, ¬use.IsMisused mode) ∧ first.IsMisused mode ∧
      uses.findSome? Use.fault? = some fault ∧ fault.failure.span = some first.span := by
  obtain ⟨fault, hfound⟩ : ∃ fault, uses.findSome? Use.fault? = some fault := by
    obtain ⟨use, huse, hmisuse⟩ := hmisused
    rw [← Option.isSome_iff_exists, List.isSome_findSome?, List.any_eq_true]
    exact ⟨use, huse, hmisuse.isSome_fault?⟩
  obtain ⟨before, first, behind, hsplit, hfault, hbefore⟩ := List.findSome?_eq_some_iff.mp hfound
  refine ⟨before, first, behind, fault, hsplit, ?_, ?_, hfound, Use.span_of_fault? hfault⟩
  · intro use huse hmisuse
    have hsome := hmisuse.isSome_fault?
    rw [hbefore use huse] at hsome
    exact nomatch hsome
  · apply Use.isMisused_of_isSome_fault?
    rw [hfault, Option.isSome_some]

/-- The first misused name of a tree is the one that begins first in the text. -/
theorem IsSum.exists_first_misuse {text : String} {tree : Tree} (h : IsSum (scan Token text) tree)
    {mode : Mode} (hmisused : ∃ use ∈ tree.uses, use.IsMisused mode) :
    ∃ first ∈ tree.uses, first.IsMisused mode ∧
      (∀ other ∈ tree.uses, other.IsMisused mode → other ≠ first →
        first.span.start < other.span.start) ∧
      ∃ fault, tree.uses.findSome? Use.fault? = some fault ∧
        fault.failure.span = some first.span := by
  obtain ⟨before, first, behind, fault, hsplit, hbefore, hmisuse, hfound, hspan⟩ :=
    exists_first_fault hmisused
  have hstarts := h.standInOrder_uses.pairwise_start_lt
  rw [List.pairwise_map, hsplit] at hstarts
  obtain ⟨-, hlater, -⟩ := List.pairwise_append.mp hstarts
  refine ⟨first, by simp [hsplit], hmisuse, ?_, fault, hfound, hspan⟩
  intro other hother hmisuse' hne
  rw [hsplit, List.mem_append, List.mem_cons] at hother
  rcases hother with hfront | rfl | hback
  · exact absurd hmisuse' (hbefore other hfront)
  · exact absurd rfl hne
  · exact (List.pairwise_cons.mp hlater).1 other hback

end DeskCalculator.Expression

namespace DeskCalculator.Scientific

open Expression Reading

/-- Where a malformed text is refused: at a token with nothing invalid in front of it, or at the end
of a text without invalid tokens. -/
inductive IsRefusedAt (normalized : String) (span : Span) : Prop
  | atToken {left right : List (Lexeme Token)} {lexeme : Lexeme Token}
      (hscan : scan Token normalized = left ++ lexeme :: right)
      (hleft : ∀ other ∈ left, other.token ≠ .invalid) (hspan : lexeme.span = span)
  | atEnd (hvalid : ∀ lexeme ∈ scan Token normalized, lexeme.token ≠ .invalid)
      (hspan : span = ⟨normalized.utf8ByteSize, normalized.utf8ByteSize + 1⟩)

section

variable {text normalized : String} {mode : Mode} {ans : Float} {fault : Fault} {span : Span}

theorem IsRefusedAt.pointsInto (h : IsRefusedAt normalized span) :
    span.PointsInto Token normalized := by
  cases h with
  | atToken hscan _ hspan => exact .inr ⟨_, hscan ▸ List.mem_append_cons_self, hspan⟩
  | atEnd _ hspan => exact .inl hspan

/-- Everything that the reader takes before it complains is valid. -/
theorem isRefusedAt_of_complaint {complaint : Complaint Token}
    (h : Tree.ofText normalized = .error complaint) : IsRefusedAt normalized complaint.span := by
  obtain ⟨k, last, -, hadvance, rfl, -⟩ := Tree.reader.exists_of_readFrom_eq_error _ _ _ _ h
  have hvalid := valid_of_advance hadvance
  cases hk : (scan Token normalized)[k]? with
  | none =>
    rw [List.take_of_length_le (List.getElem?_eq_none_iff.mp hk)] at hvalid
    exact .atEnd hvalid rfl
  | some lexeme =>
    obtain ⟨hlt, rfl⟩ := List.getElem?_eq_some_iff.mp hk
    have hscan : scan Token normalized = (scan Token normalized).take k ++
        (scan Token normalized)[k] :: (scan Token normalized).drop (k + 1) := by
      rw [← List.drop_eq_getElem_cons hlt, List.take_append_drop]
    exact .atToken hscan hvalid (Tree.reader.span_refusal last _).symm

/-- What an expression uses stands where everything is valid. -/
theorem isRefusedAt_of_mem_uses {tree : Tree} {use : Use} (h : IsSum (scan Token normalized) tree)
    (huse : use ∈ tree.uses) : IsRefusedAt normalized use.span := by
  obtain ⟨left, right, hscan⟩ := List.append_of_mem (h.mem_of_mem_uses huse)
  refine .atToken hscan ?_ rfl
  intro other hother
  exact h.valid other (hscan ▸ List.mem_append_left _ hother)

/-- A text that is malformed is blank, or it is refused somewhere. -/
theorem refusal_of_evaluate (h : evaluate text mode ans = .error fault)
    (hkind : fault.failure.kind = .malformed) :
    (Text.isEmpty (normalize text) = true ∧ fault = .empty) ∨
      (¬Text.isEmpty (normalize text) = true ∧
        ∃ span, fault.failure.span = some span ∧ IsRefusedAt (normalize text) span) := by
  by_cases hempty : Text.isEmpty (normalize text) = true
  · have hparse : parse (normalize text) = .error .empty := by rw [parse, if_pos hempty]
    rw [evaluate_of_parse_eq_error hparse] at h
    exact .inl ⟨hempty, (Except.error.inj h).symm⟩
  · refine .inr ⟨hempty, ?_⟩
    cases hread : Tree.ofText (normalize text) with
    | error complaint =>
      have hparse : parse (normalize text) = .error (.unreadable complaint) := by
        rw [parse, if_neg hempty, hread]
        rfl
      rw [evaluate_of_parse_eq_error hparse] at h
      obtain rfl := Except.error.inj h
      exact ⟨complaint.span, rfl, isRefusedAt_of_complaint hread⟩
    | ok tree =>
      have hparse : parse (normalize text) = .ok tree := by
        rw [parse, if_neg hempty, hread]
        rfl
      rw [evaluate_of_parse_eq_ok hparse] at h
      rcases bind_eq_error_iff.mp h with hvalue | ⟨x, -, hfinite⟩
      · have hfound := (failure?_value mode ans tree).symm.trans (failure?_eq_some_iff.mpr hvalue)
        obtain ⟨use, huse, hfault⟩ := List.exists_of_findSome?_eq_some hfound
        exact ⟨use.span, Use.span_of_fault? hfault,
          isRefusedAt_of_mem_uses (isSum_of_parse hparse) huse⟩
      · exact nomatch hkind.symm.trans (kind_of_checkFinite_error hfinite)

/-- A text that is malformed is so at a place, unless it is blank. -/
theorem isPlacedIn_of_evaluate (h : evaluate text mode ans = .error fault)
    (hkind : fault.failure.kind = .malformed) :
    fault.failure.IsPlacedIn Token (normalize text) := by
  rcases refusal_of_evaluate h hkind with ⟨hempty, rfl⟩ | ⟨hempty, span, hspan, hrefused⟩
  · exact Failure.isPlacedIn_of_isEmpty hempty rfl rfl
  · exact Failure.isPlacedIn_of_pointsInto hempty hspan hrefused.pointsInto

end

/-- An expression that misuses names fails, whatever their number, at the one that begins first in
the text, and one that misuses none has a value or fails in its arithmetic. -/
theorem first_misuse_pointed_at {text : String} {tree : Tree}
    (h : parse (normalize text) = .ok tree) (mode : Mode) (ans : Float) :
    ((∃ use ∈ tree.uses, use.IsMisused mode) →
      ∃ first ∈ tree.uses, first.IsMisused mode ∧
        (∀ other ∈ tree.uses, other.IsMisused mode → other ≠ first →
          first.span.start < other.span.start) ∧
        ∃ fault, evaluate text mode ans = .error fault ∧ fault.failure.kind = .malformed ∧
          fault.failure.span = some first.span) ∧
    ((∀ use ∈ tree.uses, ¬use.IsMisused mode) →
      ∀ fault, evaluate text mode ans = .error fault → fault.failure.kind ≠ .malformed) := by
  have hmalformation : malformation? text = tree.uses.findSome? Use.fault? := by
    rw [malformation?, h]
  constructor
  · intro hmisused
    obtain ⟨first, hmem, hmisuse, hleftmost, fault, hfound, hspan⟩ :=
      (isSum_of_parse h).exists_first_misuse hmisused
    have hfault : malformation? text = some fault := hmalformation.trans hfound
    exact ⟨first, hmem, hmisuse, hleftmost, fault, evaluate_of_malformation? hfault mode ans,
      kind_of_malformation? hfault, hspan⟩
  · intro hproper fault hfault
    have hnone : malformation? text = none := by
      rw [hmalformation, List.findSome?_eq_none_iff]
      intro use huse
      have hnot := mt (use.isSome_fault?_iff mode).mp (hproper use huse)
      rwa [Option.not_isSome_iff_eq_none] at hnot
    obtain ⟨x, hx⟩ := exists_value_of_malformation? hnone mode ans
    have hkind := kind_of_checkFinite_error (hx.symm.trans hfault)
    intro hmalformed
    exact nomatch hkind.symm.trans hmalformed

/-- Of an unknown function, a constant that is called and a function that is not, the first counts;
the power operator in front of it is one byte longer than it was typed. -/
theorem first_misuse_pointed_at_of_three :
    let tree := Tree.power (.symbol "E" ⟨0, 1⟩)
      (.call "foo" ⟨3, 6⟩ [.call "PI" ⟨7, 9⟩ [.symbol "E" ⟨10, 11⟩], .symbol "ln" ⟨13, 15⟩])
    parse (normalize "E^foo(PI(E),ln)") = .ok tree ∧
      (∃ use ∈ tree.uses, use.IsMisused {}) ∧
      ∃ fault, evaluate "E^foo(PI(E),ln)" {} 0.0 = .error fault ∧
        fault.failure.kind = .malformed ∧ fault.failure.span = some ⟨3, 6⟩ := by
  intro tree
  have hparse : parse (normalize "E^foo(PI(E),ln)") = .ok tree := by
    have hnormal : normalize "E^foo(PI(E),ln)" = "E**foo(PI(E),ln)" := by decide +kernel
    have hscan : scan Token "E**foo(PI(E),ln)" =
        [⟨.identifier "E", 0, 1⟩, ⟨.power, 1, 3⟩, ⟨.identifier "foo", 3, 6⟩, ⟨.leftParen, 6, 7⟩,
          ⟨.identifier "PI", 7, 9⟩, ⟨.leftParen, 9, 10⟩, ⟨.identifier "E", 10, 11⟩,
          ⟨.rightParen, 11, 12⟩, ⟨.comma, 12, 13⟩, ⟨.identifier "ln", 13, 15⟩,
          ⟨.rightParen, 15, 16⟩] := by
      decide +kernel
    rw [hnormal, parse, if_neg (by decide), Tree.ofText, hscan]
    rfl
  have hunknown : Use.IsMisused {} ⟨"foo", ⟨3, 6⟩, some 2⟩ := .unknown (by decide) rfl
  have hmem : ⟨"foo", ⟨3, 6⟩, some 2⟩ ∈ tree.uses := by decide +kernel
  have hmisused : ∃ use ∈ tree.uses, use.IsMisused {} := ⟨_, hmem, hunknown⟩
  obtain ⟨first, hfirst, hmisuse, hleftmost, fault, hfault, hkind, hspan⟩ :=
    (first_misuse_pointed_at hparse {} 0.0).1 hmisused
  obtain rfl : ⟨"foo", ⟨3, 6⟩, some 2⟩ = first := by
    by_contra hne
    have hstart := hleftmost _ hmem hunknown hne
    have honly : ∀ use ∈ tree.uses, use.span.start < 3 → use.fault? = none := by decide +kernel
    have hnone := honly first hfirst hstart
    rw [← Use.isSome_fault?_iff, hnone] at hmisuse
    exact nomatch hmisuse
  exact ⟨hparse, hmisused, fault, hfault, hkind, hspan⟩

end DeskCalculator.Scientific
