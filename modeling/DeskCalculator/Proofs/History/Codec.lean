import DeskCalculator.History.Codec
import DeskCalculator.Proofs.Json.Token
import DeskCalculator.Proofs.Json.Value

/-!
Records survive their file. What is written for records is read as the same records, whatever their
texts hold, as long as their numbers fit into 64 bits; and the numbers of records that are read
always fit.
-/
namespace DeskCalculator.History

open Json Reading

def Record.Fits (r : Record) : Prop := r.id < numberBound ∧ r.createdAt < numberBound

def Record.value (r : Record) : Value :=
  .object [("id", .number r.id), ("formula", .string r.formula), ("result", .string r.result),
    ("created_at", .number r.createdAt)]

def Record.tokens (r : Record) : List Token :=
  [.leftBrace, .string "id", .colon, .number r.id, .comma, .string "formula", .colon,
    .string r.formula, .comma, .string "result", .colon, .string r.result, .comma,
    .string "created_at", .colon, .number r.createdAt, .rightBrace]

def furtherTokens (records : List Record) : List Token :=
  records.flatMap fun r => .comma :: r.tokens

theorem isSeparator_of_mem_indent {c : Char} (h : c ∈ "\n    ".toList) :
    Token.isSeparator c = true := by
  have hall : "\n    ".toList.all Token.isSeparator = true := by decide
  exact List.all_eq_true.mp hall c h

/-- The key of a member stands behind an indent and in front of a colon and a space. -/
theorem tokensOf_key (key : String) (rest : List Char) :
    tokensOf Token ("\n    ".toList ++ (quote key.toList ++ ':' :: ' ' :: rest)) =
      .string key :: .colon :: tokensOf Token rest := by
  rw [tokensOf_append_separators fun c => isSeparator_of_mem_indent, tokensOf_quote,
    tokensOf_mark rfl fun _ => rfl, tokensOf_cons_separator rfl, String.ofList_toList]

theorem recordText_eq (r : Record) (rest : List Char) : recordText r ++ rest =
    ' ' :: ' ' :: '\x7b' :: ("\n    ".toList ++ (quote "id".toList ++ ':' :: ' ' ::
    (Number.decimalText r.id ++ ',' :: ("\n    ".toList ++ (quote "formula".toList ++ ':' :: ' ' ::
    (quote r.formula.toList ++ ',' :: ("\n    ".toList ++ (quote "result".toList ++ ':' :: ' ' ::
    (quote r.result.toList ++ ',' :: ("\n    ".toList ++ (quote "created_at".toList ++ ':' :: ' ' ::
    (Number.decimalText r.createdAt ++ '\n' :: ' ' :: ' ' :: '\x7d' :: rest)))))))))))) := by
  have hid : "  \x7b\n    \"id\": ".toList =
      [' ', ' ', '\x7b'] ++ "\n    ".toList ++ quote "id".toList ++ [':', ' '] := rfl
  have hformula : ",\n    \"formula\": ".toList =
      [','] ++ "\n    ".toList ++ quote "formula".toList ++ [':', ' '] := rfl
  have hresult : ",\n    \"result\": ".toList =
      [','] ++ "\n    ".toList ++ quote "result".toList ++ [':', ' '] := rfl
  have hcreated : ",\n    \"created_at\": ".toList =
      [','] ++ "\n    ".toList ++ quote "created_at".toList ++ [':', ' '] := rfl
  have hend : "\n  \x7d".toList = ['\n', ' ', ' ', '\x7d'] := rfl
  unfold recordText
  rw [hid, hformula, hresult, hcreated, hend]
  simp only [List.append_assoc, List.cons_append, List.nil_append]

/-- The text of a record is read as its tokens, whatever follows. -/
theorem tokensOf_recordText (r : Record) (rest : List Char) :
    tokensOf Token (recordText r ++ rest) = r.tokens ++ tokensOf Token rest := by
  have hcomma : EndsNumber ',' := by unfold EndsNumber; decide
  have hline : EndsNumber '\n' := by unfold EndsNumber; decide
  have hmark : ∀ rest, tokensOf Token (',' :: rest) = .comma :: tokensOf Token rest :=
    tokensOf_mark rfl fun _ => rfl
  rw [recordText_eq, tokensOf_cons_separator rfl, tokensOf_cons_separator rfl,
    tokensOf_mark rfl fun _ => rfl, tokensOf_key, tokensOf_decimalText _ hcomma, hmark,
    tokensOf_key, tokensOf_quote, hmark, tokensOf_key, tokensOf_quote, hmark, tokensOf_key,
    tokensOf_decimalText _ hline, tokensOf_cons_separator rfl, tokensOf_cons_separator rfl,
    tokensOf_cons_separator rfl, tokensOf_mark rfl fun _ => rfl, String.ofList_toList,
    String.ofList_toList]
  rfl

theorem tokensOf_furtherText (records : List Record) (rest : List Char) :
    tokensOf Token (furtherText records ++ rest) =
      furtherTokens records ++ tokensOf Token rest := by
  induction records with
  | nil => rfl
  | cons r records ih =>
    have htext : furtherText (r :: records) ++ rest =
        ',' :: '\n' :: (recordText r ++ (furtherText records ++ rest)) := by
      unfold furtherText
      rw [List.flatMap_cons, List.append_assoc, List.append_assoc]
      rfl
    rw [htext, tokensOf_mark rfl fun _ => rfl, tokensOf_cons_separator rfl, tokensOf_recordText, ih]
    simp only [furtherTokens, List.flatMap_cons, List.cons_append, List.append_assoc]

/-- What is written for records is read as their tokens in brackets. -/
theorem tokensOf_encode (first : Record) (rest : List Record) :
    tokensOf Token (encode (first :: rest)).toList =
      .leftBracket :: (first.tokens ++ (furtherTokens rest ++ [.rightBracket])) := by
  have htext : (encode (first :: rest)).toList =
      '[' :: '\n' :: (recordText first ++ (furtherText rest ++ '\n' :: ']' :: [])) := by
    unfold encode
    rw [String.toList_ofList, List.append_assoc, List.append_assoc]
    rfl
  rw [htext, tokensOf_mark rfl fun _ => rfl, tokensOf_cons_separator rfl, tokensOf_recordText,
    tokensOf_furtherText, tokensOf_cons_separator rfl, tokensOf_mark rfl fun _ => rfl, tokensOf_nil]

open Progress in
theorem takeAll_further (records : List Record) (v : Value) (items : List Value) :
    takeAll ⟨.complete v, [.array items]⟩ (furtherTokens records ++ [.rightBracket]) =
      some ⟨.complete (.array (items.reverse ++ v :: records.map Record.value)), []⟩ := by
  induction records generalizing v items with
  | nil =>
    have hend : takeAll ⟨.complete v, [.array items]⟩ [.rightBracket] =
        some ⟨.complete (.array (v :: items).reverse), []⟩ := rfl
    rw [List.reverse_cons] at hend
    exact hend
  | cons r records ih =>
    have hrecord : takeAll ⟨.complete v, [.array items]⟩ (.comma :: r.tokens) =
        some ⟨.complete r.value, [.array (v :: items)]⟩ := rfl
    have hsplit : furtherTokens (r :: records) ++ [.rightBracket] =
        (.comma :: r.tokens) ++ (furtherTokens records ++ [.rightBracket]) := by
      unfold furtherTokens
      rw [List.flatMap_cons, List.append_assoc]
    rw [hsplit, takeAll_append, hrecord, Option.bind_some, ih, List.reverse_cons, List.append_assoc]
    rfl

theorem natural?_number {n : ℕ} (h : n < numberBound) : natural? (.number n) = some n := if_pos h

theorem ofValue?_value {r : Record} (h : r.Fits) : ofValue? r.value = some r := by
  have hid := natural?_number h.1
  have hcreated := natural?_number h.2
  simp [Record.value, ofValue?, member?, ofValues?, text?, hid, hcreated]

theorem mapM_ofValue? {records : List Record} (h : ∀ r ∈ records, r.Fits) :
    (records.map Record.value).mapM ofValue? = some records := by
  induction records with
  | nil => rfl
  | cons r records ih =>
    have hr := ofValue?_value (h r (List.mem_cons_self ..))
    have hrest := ih fun s hs => h s (List.mem_cons_of_mem r hs)
    rw [List.map_cons, List.mapM_cons, hr, hrest]
    rfl

/-- The text of records is read as the records. -/
theorem decode?_encode {records : List Record} (h : ∀ r ∈ records, r.Fits) :
    decode? (encode records) = some records := by
  have hvalue : Value.ofText? (encode records) = some (.array (records.map Record.value)) := by
    rw [Value.ofText?_eq_some_iff]
    cases records with
    | nil =>
      have hmarks : tokensOf Token (encode []).toList = [.leftBracket, .rightBracket] := by
        have htext : (encode []).toList = ['[', ']'] := rfl
        rw [htext, tokensOf_mark rfl fun _ => rfl, tokensOf_mark rfl fun _ => rfl, tokensOf_nil]
      rw [hmarks]
      exact ⟨⟨.complete (.array []), []⟩, rfl, rfl⟩
    | cons first rest =>
      have hfirst : Progress.takeAll {} (.leftBracket :: first.tokens) =
          some ⟨.complete first.value, [.array []]⟩ := rfl
      refine ⟨⟨.complete (.array ((first :: rest).map Record.value)), []⟩, ?_, rfl⟩
      rw [tokensOf_encode, ← List.cons_append, Progress.takeAll_append, hfirst, Option.bind_some,
        takeAll_further]
      rfl
  unfold decode?
  rw [hvalue]
  exact mapM_ofValue? h

theorem lt_numberBound_of_natural? {value : Value} {n : ℕ} (h : natural? value = some n) :
    n < numberBound := by
  unfold natural? at h
  split at h
  · split_ifs at h with hn
    obtain rfl := Option.some.inj h
    exact hn
  · exact nomatch h

theorem fits_of_ofValues? {id formula result createdAt : Value} {r : Record}
    (h : ofValues? id formula result createdAt = some r) : r.Fits := by
  unfold ofValues? at h
  obtain ⟨i, hid, h⟩ := Option.bind_eq_some_iff.mp h
  obtain ⟨f, -, h⟩ := Option.bind_eq_some_iff.mp h
  obtain ⟨s, -, h⟩ := Option.bind_eq_some_iff.mp h
  obtain ⟨t, hcreated, h⟩ := Option.bind_eq_some_iff.mp h
  obtain rfl := Option.some.inj h
  exact ⟨lt_numberBound_of_natural? hid, lt_numberBound_of_natural? hcreated⟩

/-- Records that are read have numbers that fit. -/
theorem fits_of_ofValue? {value : Value} {r : Record} (h : ofValue? value = some r) : r.Fits := by
  unfold ofValue? at h
  split at h
  · split_ifs at h
    obtain ⟨id, -, h⟩ := Option.bind_eq_some_iff.mp h
    obtain ⟨formula, -, h⟩ := Option.bind_eq_some_iff.mp h
    obtain ⟨result, -, h⟩ := Option.bind_eq_some_iff.mp h
    obtain ⟨createdAt, -, h⟩ := Option.bind_eq_some_iff.mp h
    exact fits_of_ofValues? h
  · exact fits_of_ofValues? h
  · exact nomatch h

/-- The numbers of records that are read fit. -/
theorem fits_of_decode? {text : String} {records : List Record} (h : decode? text = some records) :
    ∀ r ∈ records, r.Fits := by
  unfold decode? at h
  split at h
  · next items hvalue =>
    clear hvalue
    induction items generalizing records with
    | nil =>
      obtain rfl := Option.some.inj h
      simp
    | cons item items ih =>
      rw [List.mapM_cons] at h
      obtain ⟨r, hr, h⟩ := Option.bind_eq_some_iff.mp h
      obtain ⟨others, hothers, h⟩ := Option.bind_eq_some_iff.mp h
      obtain rfl := Option.some.inj h
      exact List.forall_mem_cons.mpr ⟨fits_of_ofValue? hr, ih hothers⟩
  · exact nomatch h

end DeskCalculator.History
