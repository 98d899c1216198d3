import DeskCalculator.CommandLine.Execution
import DeskCalculator.Keypad.Split
import DeskCalculator.Proofs.Number.Literals
import DeskCalculator.Proofs.Number.Plain
import DeskCalculator.Proofs.Split.Admission

/-!
Bills in the fields of the form and in the options of a command. An option reads its whole word, a
field the number in front of its text; where an option reads a number, so does the field, except for
the names of what is not finite. The form refuses a total of zero and a number of people that is
not positive on reading them, which the command does on checking the bill. Both refuse the same
bills, and settle the others alike.
-/
namespace DeskCalculator

namespace Number

section

variable {text : List Char} {x : Float}

/-- What doubles are named by is not finite, with and without a minus sign. -/
theorem not_isFinite_of_namedDouble? {word : List Char} (h : namedDouble? word = some x) :
    x.isFinite = false ∧ (-x).isFinite = false := by
  unfold namedDouble? at h
  split_ifs at h
  all_goals
    obtain rfl := Option.some.inj h
    decide +kernel

/-- A number that is a whole text is the number in front of it, unless it is called by its name. -/
theorem readLeadingDouble?_of_readDouble? (h : readDouble? text = some x) :
    readLeadingDouble? text = some x ∨ readLeadingDouble? text = none ∧ x.isFinite = false := by
  unfold readDouble? at h
  unfold readLeadingDouble?
  cases hscan : Numeral.scan? isExponentMark (takeSign text).2 with
  | some taken =>
    simp only [hscan] at h ⊢
    obtain ⟨n, _ | ⟨c, rest⟩⟩ := taken
    · exact .inl h
    · exact nomatch h
  | none =>
    simp only [hscan] at h ⊢
    obtain ⟨magnitude, hnamed, rfl⟩ := Option.map_eq_some_iff.mp h
    obtain ⟨hplus, hminus⟩ := not_isFinite_of_namedDouble? hnamed
    refine .inr ⟨rfl, ?_⟩
    split_ifs
    · exact hminus
    · exact hplus

end

structure IsInteger (text : List Char) (sign : Option Char) (digits : List Char) : Prop where
  text_eq : text = sign.toList ++ digits
  isSign : ∀ c ∈ sign, isSign c = true
  isDigit : ∀ c ∈ digits, c.isDigit = true
  nonempty : digits ≠ []

namespace IsInteger

variable {text digits : List Char} {sign : Option Char}

theorem not_isBlank_head (h : IsInteger text sign digits) :
    ∀ c ∈ text.head?, Text.isBlank c = false := by
  rw [h.text_eq]
  refine not_isBlank_head_append h.isSign ?_
  intro c hc
  exact not_isBlank_of_isDigit (h.isDigit c (List.mem_of_mem_head? hc))

theorem readLeadingInt? (h : IsInteger text sign digits) (hrange : decimalValue digits < 2 ^ 63) :
    readLeadingInt? text =
      some (if sign = some '-' then -(decimalValue digits : ℤ) else decimalValue digits) := by
  obtain ⟨d, others, rfl⟩ := List.exists_cons_of_ne_nil h.nonempty
  have hunsigned : takeSign text = (sign, d :: others) :=
    h.text_eq ▸ takeSign_append h.isSign (h.isDigit d (List.mem_cons_self ..)) others
  rw [Number.readLeadingInt?, hunsigned]
  simp only [takeDigits_of_all h.isDigit]
  rw [if_neg (by simp), if_pos]
  split_ifs <;> omega

end IsInteger

/-- A count is read from digits behind an optional plus sign. -/
theorem exists_isInteger_of_readCount? {text : List Char} {bound n : ℕ}
    (h : readCount? bound text = some n) :
    ∃ sign digits, IsInteger text sign digits ∧ sign ≠ some '-' ∧ decimalValue digits = n ∧
      n < bound := by
  have hdigits : ∀ {digits : List Char}, (if digits.isEmpty || !digits.all Char.isDigit then none
      else if decimalValue digits < bound then some (decimalValue digits) else none) = some n →
      digits ≠ [] ∧ (∀ c ∈ digits, c.isDigit = true) ∧ decimalValue digits = n ∧ n < bound := by
    intro digits h
    split_ifs at h with hnone hbound
    obtain rfl := Option.some.inj h
    simpa [hbound] using hnone
  unfold readCount? at h
  split at h
  · next rest =>
    obtain ⟨hne, hall, hvalue, hbound⟩ := hdigits h
    exact ⟨some '+', rest, ⟨rfl, by rintro c ⟨⟩; rfl, hall, hne⟩, by decide, hvalue, hbound⟩
  · obtain ⟨hne, hall, hvalue, hbound⟩ := hdigits h
    exact ⟨none, text, ⟨rfl, nofun, hall, hne⟩, nofun, hvalue, hbound⟩

end Number

namespace Keypad

open CommandLine Number Split

theorem trimFront_of_not_isBlank {text : List Char}
    (h : ∀ c ∈ text.head?, Text.isBlank c = false) : Text.trimFront text = text := by
  cases text with
  | nil => rfl
  | cons c rest => exact List.dropWhile_cons_of_neg (by simp [h c rfl])

/-- A field with a number that an option takes holds this number, or the name of one that is not
finite. -/
theorem floatField?_of_readDouble? {total : String} {x : Float}
    (h : readDouble? total.toList = some x) :
    floatField? total = some x ∨ floatField? total = none ∧ x.isFinite = false := by
  rw [floatField?, trimFront_of_not_isBlank (not_isBlank_of_readDouble? h)]
  exact readLeadingDouble?_of_readDouble? h

/-- What an option takes as a number of people is an integer that is not negative. -/
theorem exists_isInteger_of_peopleValue? {text : List Char} {n : ℕ}
    (h : peopleValue? text = some n) :
    ∃ sign digits, IsInteger text sign digits ∧ decimalValue digits = n ∧ n < peopleBound ∧
      (sign = some '-' → n = 0) := by
  unfold peopleValue? at h
  split at h
  · next zeros =>
    obtain ⟨hzeros, hn⟩ := Option.ite_none_right_eq_some.mp h
    obtain rfl := Option.some.inj hn
    obtain ⟨hne, hall⟩ : zeros ≠ [] ∧ ∀ c ∈ zeros, c = '0' := by simpa using hzeros
    have hvalue : decimalValue zeros = 0 := by
      rw [List.eq_replicate_of_mem hall, decimalValue_replicate_zero]
    exact ⟨some '-', zeros, ⟨rfl, by rintro c ⟨⟩; rfl, fun c hc => hall c hc ▸ rfl, hne⟩, hvalue,
      by decide, fun _ => rfl⟩
  · obtain ⟨sign, digits, hinteger, hsign, hvalue, hbound⟩ := exists_isInteger_of_readCount? h
    exact ⟨sign, digits, hinteger, hvalue, hbound, fun hminus => absurd hminus hsign⟩

/-- A field holds the number of people that an option takes. -/
theorem intField?_of_peopleValue? {people : String} {n : ℕ}
    (h : peopleValue? people.toList = some n) :
    intField? people = some (n : ℤ) ∧ n < peopleBound := by
  obtain ⟨sign, digits, hinteger, rfl, hbound, hminus⟩ := exists_isInteger_of_peopleValue? h
  refine ⟨?_, hbound⟩
  rw [peopleBound] at hbound
  rw [intField?, trimFront_of_not_isBlank hinteger.not_isBlank_head,
    hinteger.readLeadingInt? (by omega)]
  split_ifs with hsign
  · simp [hminus hsign]
  · rfl

/-- The form reads what the options say, or there is nothing to be split. -/
theorem readFields_cases {total people : String} {x : Float} {n : ℕ}
    (htotal : readDouble? total.toList = some x) (hpeople : peopleValue? people.toList = some n) :
    readFields total people = .ok (x, n) ∨
      (∃ fault, readFields total people = .error fault) ∧ ¬(IsPayable x ∧ 1 ≤ n) := by
  obtain ⟨hint, hbound⟩ := intField?_of_peopleValue? hpeople
  unfold readFields
  rcases floatField?_of_readDouble? htotal with hfloat | ⟨hfloat, hinfinite⟩
  · rw [hfloat, hint]
    by_cases hzero : (x == 0.0) = true
    · refine .inr ⟨⟨.totalUnreadable, by simp only [if_pos hzero]; rfl⟩, fun hready => ?_⟩
      have hexact := ((beq_iff (by decide +kernel)).mp hzero).2
      rw [exact_zero] at hexact
      exact hready.1.pos.ne' hexact
    · by_cases hsome : 1 ≤ n
      · have hrange : 0 < (n : ℤ) ∧ (n : ℤ) < peopleBound := by omega
        exact .inl (by simp only [if_neg hzero, if_pos hrange]; rfl)
      · have hrange : ¬(0 < (n : ℤ) ∧ (n : ℤ) < peopleBound) := by omega
        refine .inr ⟨⟨.peopleNotPositive, ?_⟩, fun hready => hsome hready.2⟩
        simp only [if_neg hzero, if_neg hrange]
        rfl
  · rw [hfloat]
    refine .inr ⟨⟨.totalUnreadable, rfl⟩, fun hready => ?_⟩
    exact nomatch hinfinite.symm.trans hready.1.isFinite

/-- A bill without a positive total or without people cannot be split. -/
theorem exists_settle_error {request : Split.Request Float}
    (h : ¬(IsPayable request.total ∧ 1 ≤ request.people)) :
    ∃ fault, request.settle = .error fault := by
  cases hsettle : request.settle with
  | error fault => exact ⟨fault, rfl⟩
  | ok s =>
    have hbill : checkBill request.total request.people = .ok () := by
      unfold Request.settle at hsettle
      split_ifs at hsettle
      · exact (settleEvenly_eq_ok_iff.mp hsettle).1
      · exact (settleByWeight_eq_ok_iff.mp hsettle).1
    obtain ⟨hfinite, hpositive, hsome⟩ := checkBill_eq_ok_iff.mp hbill
    exact absurd ⟨isPayable_iff.mpr ⟨hfinite, hpositive⟩, hsome⟩ h

def SplitForm.outcome (form : SplitForm) (total people : String) :
    Except (Split.Fault Float) (Settlement Float) :=
  readFields total people >>= fun fields =>
    Request.settle ⟨fields.1, fields.2, form.rounding, form.groups⟩

theorem SplitForm.calculate_eq (form : SplitForm) (total people : String) :
    form.calculate total people = (form.outcome total people,
      match form.outcome total people with
      | .ok s => { form with display := some (.ofSettlement s), refused := false }
      | .error _ => { form with refused := true }) := by
  have hcalculate : form.calculate total people =
      match form.outcome total people with
      | .ok s => (.ok s, { form with display := some (.ofSettlement s), refused := false })
      | .error fault => (.error fault, { form with refused := true }) := rfl
  rw [hcalculate]
  cases form.outcome total people <;> rfl

/-- A form and a request for the same bill settle it alike, or both refuse it. -/
theorem SplitForm.outcome_cases {form : SplitForm} {bill : Split.Request Float}
    {total people : String} (htotal : readDouble? total.toList = some bill.total)
    (hpeople : peopleValue? people.toList = some bill.people) (hgroups : form.groups = bill.groups)
    (hrounding : form.rounding = bill.rounding) :
    (∃ s, form.outcome total people = .ok s ∧ bill.settle = .ok s) ∨
      ∃ fault other, form.outcome total people = .error fault ∧ bill.settle = .error other := by
  rcases readFields_cases htotal hpeople with hread | ⟨⟨fault, hread⟩, hnothing⟩
  · have hsame : form.outcome total people = bill.settle := by
      rw [outcome, hread, hgroups, hrounding]
      rfl
    rw [hsame]
    cases bill.settle with
    | ok s => exact .inl ⟨s, rfl, rfl⟩
    | error fault => exact .inr ⟨fault, fault, rfl, rfl⟩
  · obtain ⟨other, hother⟩ := exists_settle_error hnothing
    exact .inr ⟨fault, other, by rw [outcome, hread]; rfl, hother⟩

end Keypad

namespace CommandLine

/-- A display is printed as a line for each person's share, the lines of the groups and a line for
the remainder. -/
theorem success_displayLines (display : Split.Display) :
    success (displayLines display) =
      ⟨0, "per person: " ++ display.perPerson ++ "\n" ++
        String.join (display.groups.map (· ++ "\n")) ++
        "remainder: " ++ display.remainder ++ "\n", []⟩ := by
  simp [success, displayLines, String.append_assoc]

end CommandLine

open CommandLine Keypad Number Split in
/-- The form and the command split alike. On a total and a number of people that the options of the
command read, and with the same groups and rounding, the form settles the bill just when the command
exits with 0, and then it shows what the command prints: what each person pays, a line for each
group, and what is left over. Otherwise both say that the input is invalid, and the command prints
nothing but a report on that. -/
theorem form_agrees_with_command {settings : Settings} {request : SplitRequest} {form : SplitForm}
    {total people : String} (htotal : readDouble? total.toList = some request.total)
    (hpeople : peopleValue? people.toList = some request.people)
    (hgroups : form.groups = request.groups)
    (hrounding : form.rounding = (request.bill settings.rounding).rounding) :
    let (calculated, shown) := form.calculate total people
    let ended := runSplit settings request
    ((∃ s, calculated = .ok s) ↔ ended.exitCode = 0) ∧
      (∀ s, calculated = .ok s → ∃ display, shown.display = some display ∧
        ended.exitCode = 0 ∧ ended.report = [] ∧
        ended.output = "per person: " ++ display.perPerson ++ "\n" ++
          String.join (display.groups.map (· ++ "\n")) ++
          "remainder: " ++ display.remainder ++ "\n") ∧
      ∀ fault, calculated = .error fault → fault.failure.kind = .invalid ∧
        ∃ other : Split.Fault Float, other.failure.kind = .invalid ∧
          ended.exitCode = 4 ∧ ended.output = "" ∧
          ended.report = other.failure.report inputName "" := by
  have hbill : readDouble? total.toList = some (request.bill settings.rounding).total := htotal
  rw [SplitForm.calculate_eq, runSplit]
  rcases SplitForm.outcome_cases hbill hpeople hgroups hrounding with
    ⟨s, hform, hcommand⟩ | ⟨fault, other, hform, hcommand⟩
  · rw [hform, hcommand]
    dsimp only
    rw [success_displayLines]
    exact ⟨⟨fun _ => rfl, fun _ => ⟨s, rfl⟩⟩, fun _ _ => ⟨_, rfl, rfl, rfl, rfl⟩,
      fun _ h => (nomatch h)⟩
  · rw [hform, hcommand]
    exact ⟨⟨fun ⟨_, h⟩ => (nomatch h), fun h => (nomatch h)⟩, fun _ h => (nomatch h),
      fun _ _ => ⟨rfl, other, rfl, rfl, rfl, rfl⟩⟩

open CommandLine Keypad Number Split in
/-- A sign and a bare point in the total, zeros in front of the people, and a group. -/
theorem form_agrees_with_command_of_group :
    let request : SplitRequest :=
      { total := 5000.0, people := 7, roundUp := true, groups := [⟨2, 0.5⟩] }
    let form : SplitForm := { rounding := .upToHundred, groups := [⟨2, 0.5⟩] }
    readDouble? "+5.e3".toList = some request.total ∧
      peopleValue? "+007".toList = some request.people ∧
      (form.calculate "+5.e3" "+007").2.display = some ⟨"900", "500", ["2 x 0.5: 500"]⟩ ∧
      (runSplit {} request).exitCode = 0 ∧ (runSplit {} request).report = [] ∧
      (runSplit {} request).output = "per person: 900\n2 x 0.5: 500\nremainder: 500\n" := by
  intro request form
  have htotal : readDouble? "+5.e3".toList = some request.total := by decide +kernel
  have hpeople : peopleValue? "+007".toList = some request.people := by decide +kernel
  have hgroups : form.groups = request.groups := rfl
  have hrounding : form.rounding = (request.bill ({} : Settings).rounding).rounding := rfl
  have hdisplay : (form.calculate "+5.e3" "+007").2.display =
      some ⟨"900", "500", ["2 x 0.5: 500"]⟩ := by decide +kernel
  have hexit : (runSplit {} request).exitCode = 0 := by decide +kernel
  obtain ⟨hsuccess, hprinted, -⟩ := form_agrees_with_command htotal hpeople hgroups hrounding
  obtain ⟨s, hs⟩ := hsuccess.mpr hexit
  obtain ⟨display, hshown, -, hreport, houtput⟩ := hprinted s hs
  obtain rfl := Option.some.inj (hdisplay.symm.trans hshown)
  exact ⟨htotal, hpeople, hdisplay, hexit, hreport, houtput⟩

end DeskCalculator
