import Mathlib.Order.WellFounded
import SimpleFiles.Filter.DateRange
import SimpleFiles.Proofs.Text.Words
import SimpleFiles.Text.Case

/-! Ranges of time as they are written: which words describe one, and which fault is reported where
several keep them from it. How a single date is read is left to the dates. -/
namespace SimpleFiles.DateRange

def IsDate (word : String) : Prop := ∃ t, DateTime.read word = .ok t

def comparators : List String := ["before", "after", "between"]

/-- The words describe a range: a comparator, in whatever case, and its dates. A date more than it
needs may follow, but a date it must be. -/
inductive Describes : List String → DateRange → Prop
  | before {comparator first : String} {surplus : List String} {limit : DateTime}
      (named : Text.sameAsciiCase comparator "before") (date : DateTime.read first = .ok limit)
      (few : surplus.length ≤ 1) (dates : ∀ w ∈ surplus, IsDate w) :
      Describes (comparator :: first :: surplus) (.before limit)
  | after {comparator first : String} {surplus : List String} {limit : DateTime}
      (named : Text.sameAsciiCase comparator "after") (date : DateTime.read first = .ok limit)
      (few : surplus.length ≤ 1) (dates : ∀ w ∈ surplus, IsDate w) :
      Describes (comparator :: first :: surplus) (.after limit)
  | between {comparator first second : String} {low high : DateTime}
      (named : Text.sameAsciiCase comparator "between") (lower : DateTime.read first = .ok low)
      (upper : DateTime.read second = .ok high) :
      Describes [comparator, first, second] (.between low high)

/-- What is wrong with the words, each fault by itself: there are too few or too many, the first is
no comparator, a date is none (the leftmost such is named), or the second date is missing. -/
inductive HasFault : List String → FilterError → Prop
  | arity {words : List String} (h : words.length ≠ 2 ∧ words.length ≠ 3) :
      HasFault words .dateArity
  | comparator {comparator : String} {dates : List String}
      (unknown : ∀ kind ∈ comparators, ¬Text.sameAsciiCase comparator kind) :
      HasFault (comparator :: dates) (.unknownRange comparator)
  | date {comparator word : String} {early late : List String} {fault : DateTime.Fault}
      (good : ∀ w ∈ early, IsDate w) (bad : DateTime.read word = .error fault) :
      HasFault (comparator :: (early ++ word :: late)) (.invalidDate word fault)
  | upper {comparator first : String} (named : Text.sameAsciiCase comparator "between") :
      HasFault [comparator, first] .missingUpperDate

/-- The order in which the faults are looked for. -/
def turn : FilterError → Nat
  | .dateArity => 0
  | .unknownRange _ => 1
  | .invalidDate .. => 2
  | _ => 3

structure IsFirstFault (words : List String) (e : FilterError) : Prop where
  fault : HasFault words e
  first : ∀ other, HasFault words other → turn e ≤ turn other

def requoted (comparator : String) : FilterError → FilterError
  | .unknownRange _ => .unknownRange comparator
  | e => e

theorem sameAsciiCase_iff {comparator kind : String} (h : kind ∈ comparators) :
    Text.sameAsciiCase comparator kind = true ↔ comparator.map Char.toLower = kind := by
  have lowered : kind.map Char.toLower = kind := by
    rw [← String.toList_inj, String.toList_map]
    revert kind
    decide
  rw [Text.sameAsciiCase, lowered, beq_iff_eq]

theorem readDate_of_ok {word : String} {t : DateTime} (h : DateTime.read word = .ok t) :
    readDate word = .ok t := by
  rw [readDate, h]
  rfl

theorem readDate_of_error {word : String} {fault : DateTime.Fault}
    (h : DateTime.read word = .error fault) : readDate word = .error (.invalidDate word fault) := by
  rw [readDate, h]
  rfl

theorem ofWords_pair (comparator first : String) :
    ofWords [comparator, first] =
      if comparator.map Char.toLower ∈ comparators then
        (readDate first).bind fun limit => ofDates (comparator.map Char.toLower) limit none
      else .error (.unknownRange comparator) := rfl

theorem ofWords_triple (comparator first second : String) :
    ofWords [comparator, first, second] =
      if comparator.map Char.toLower ∈ comparators then
        (readDate first).bind fun low => (readDate second).bind fun high =>
          ofDates (comparator.map Char.toLower) low (some high)
      else .error (.unknownRange comparator) := by
  have single : ([second] : List String).head?.mapM readDate = (readDate second).map some := rfl
  unfold ofWords
  simp only [single]
  cases readDate second <;> rfl

theorem ofWords_of_limit {comparator first : String} {surplus : List String} {limit : DateTime}
    {range : DateRange} (known : comparator.map Char.toLower ∈ comparators)
    (date : DateTime.read first = .ok limit) (few : surplus.length ≤ 1)
    (dates : ∀ w ∈ surplus, IsDate w)
    (limits : ∀ second, ofDates (comparator.map Char.toLower) limit second = .ok range) :
    ofWords (comparator :: first :: surplus) = .ok range := by
  match surplus with
  | [] =>
    rw [ofWords_pair, if_pos known, readDate_of_ok date]
    exact limits none
  | [w] =>
    obtain ⟨t, read⟩ := dates w (.head _)
    rw [ofWords_triple, if_pos known, readDate_of_ok date, readDate_of_ok read]
    exact limits (some t)

theorem ofWords_of_describes {words : List String} {range : DateRange}
    (h : Describes words range) : ofWords words = .ok range := by
  cases h with
  | before named date few dates =>
    rw [sameAsciiCase_iff (by decide)] at named
    exact ofWords_of_limit (by simp [named, comparators]) date few dates fun _ => by rw [named]; rfl
  | after named date few dates =>
    rw [sameAsciiCase_iff (by decide)] at named
    exact ofWords_of_limit (by simp [named, comparators]) date few dates fun _ => by rw [named]; rfl
  | between named lower upper =>
    rw [sameAsciiCase_iff (by decide)] at named
    rw [ofWords_triple, named, readDate_of_ok lower, readDate_of_ok upper]
    rfl

theorem exists_words {words : List String} (h : ¬HasFault words .dateArity) :
    ∃ comparator first, words = [comparator, first] ∨ ∃ second, words = [comparator, first, second] := by
  have count : words.length = 2 ∨ words.length = 3 := by
    by_contra other
    exact h (.arity (not_or.mp other))
  match words, count with
  | [comparator, first], _ => exact ⟨comparator, first, .inl rfl⟩
  | [comparator, first, second], _ => exact ⟨comparator, first, .inr ⟨second, rfl⟩⟩

theorem isKnown_iff (comparator : String) (dates : List String) :
    comparator.map Char.toLower ∈ comparators ↔
      ¬HasFault (comparator :: dates) (.unknownRange comparator) := by
  constructor
  · rintro known (_ | unknown)
    exact unknown _ known ((sameAsciiCase_iff known).mpr rfl)
  · intro sound
    by_contra foreign
    refine sound (.comparator fun kind listed same => foreign ?_)
    rwa [(sameAsciiCase_iff listed).mp same]

theorem IsFirstFault.excludes {words : List String} {e other : FilterError}
    (h : IsFirstFault words e) (earlier : turn other < turn e) : ¬HasFault words other :=
  fun fault => absurd (h.first other fault) (Nat.not_le_of_lt earlier)

theorem ofWords_of_isFirstFault {words : List String} {e : FilterError}
    (h : IsFirstFault words e) : ofWords words = .error e := by
  cases h.fault with
  | arity count =>
    match words, count with
    | [], _ => rfl
    | [_], _ => rfl
    | [_, _], ⟨two, _⟩ => exact absurd rfl two
    | [_, _, _], ⟨_, three⟩ => exact absurd rfl three
    | _ :: _ :: _ :: _ :: _, _ => rw [ofWords, if_pos (by simp)]
  | @comparator comparator dates unknown =>
    have foreign : comparator.map Char.toLower ∉ comparators := fun known =>
      (isKnown_iff comparator dates).mp known h.fault
    obtain ⟨_, first, same | ⟨second, same⟩⟩ := exists_words (h.excludes (by simp [turn]))
    · cases same
      rw [ofWords_pair, if_neg foreign]
    · cases same
      rw [ofWords_triple, if_neg foreign]
  | @date comparator word early late fault good bad =>
    have known := (isKnown_iff comparator _).mpr (h.excludes (by simp [turn]))
    obtain ⟨_, first, same | ⟨second, same⟩⟩ := exists_words (h.excludes (by simp [turn]))
    · cases early with
      | nil =>
        cases same
        rw [List.nil_append, ofWords_pair, if_pos known, readDate_of_error bad]
        rfl
      | cons w early => simp at same
    · match early with
      | [] =>
        cases same
        rw [List.nil_append, ofWords_triple, if_pos known, readDate_of_error bad]
        rfl
      | [w] =>
        cases same
        obtain ⟨t, read⟩ := good _ (.head _)
        rw [List.singleton_append, ofWords_triple, if_pos known, readDate_of_ok read]
        simp only [Except.bind, readDate_of_error bad]
      | w :: w' :: early => simp at same
  | @upper comparator first named =>
    have known := (isKnown_iff comparator [first]).mpr (h.excludes (by simp [turn]))
    rw [sameAsciiCase_iff (by decide)] at named
    cases read : DateTime.read first with
    | ok t =>
      rw [ofWords_pair, named, readDate_of_ok read]
      rfl
    | error fault =>
      have bad : HasFault [comparator, first] (.invalidDate first fault) :=
        @HasFault.date comparator first [] [] fault nofun read
      exact absurd bad (h.excludes (by simp [turn]))

theorem named_of_isKnown {comparator : String} (known : comparator.map Char.toLower ∈ comparators) :
    Text.sameAsciiCase comparator "before" ∨ Text.sameAsciiCase comparator "after" ∨
      Text.sameAsciiCase comparator "between" := by
  rw [sameAsciiCase_iff (by decide), sameAsciiCase_iff (by decide), sameAsciiCase_iff (by decide)]
  simpa [comparators] using known

theorem isDate_of_sound {comparator word : String} (early : List String) {late : List String}
    (sound : ∀ e, ¬HasFault (comparator :: (early ++ word :: late)) e)
    (good : ∀ w ∈ early, IsDate w) : IsDate word := by
  cases read : DateTime.read word with
  | ok t => exact ⟨t, read⟩
  | error fault => exact absurd (.date good read) (sound _)

theorem exists_describes {words : List String} (sound : ∀ e, ¬HasFault words e) :
    ∃ range, Describes words range := by
  obtain ⟨comparator, first, same | ⟨second, same⟩⟩ := exists_words (sound .dateArity)
  · subst same
    obtain ⟨limit, date⟩ := isDate_of_sound [] sound nofun
    rcases named_of_isKnown ((isKnown_iff comparator [first]).mpr (sound _)) with
      before | after | between
    · exact ⟨_, .before before date (Nat.zero_le 1) nofun⟩
    · exact ⟨_, .after after date (Nat.zero_le 1) nofun⟩
    · exact absurd (.upper between) (sound _)
  · subst same
    have firstDate : IsDate first := isDate_of_sound [] sound nofun
    have secondDate : IsDate second := isDate_of_sound [first] sound (by simpa using firstDate)
    obtain ⟨low, lower⟩ := firstDate
    rcases named_of_isKnown ((isKnown_iff comparator [first, second]).mpr (sound _)) with
      before | after | between
    · exact ⟨_, .before before lower (Nat.le_refl 1) (by simpa using secondDate)⟩
    · exact ⟨_, .after after lower (Nat.le_refl 1) (by simpa using secondDate)⟩
    · obtain ⟨high, upper⟩ := secondDate
      exact ⟨_, .between between lower upper⟩

theorem exists_isFirstFault {words : List String} {e : FilterError} (h : HasFault words e) :
    ∃ first, IsFirstFault words first := by
  obtain ⟨first, fault, least⟩ := (measure turn).wf.has_min {e | HasFault words e} ⟨e, h⟩
  exact ⟨first, fault, fun other h => Nat.le_of_not_lt (least other h)⟩

theorem describes_or_isFirstFault (words : List String) :
    (∃ range, Describes words range) ∨ ∃ e, IsFirstFault words e := by
  by_cases sound : ∀ e, ¬HasFault words e
  · exact .inl (exists_describes sound)
  · obtain ⟨e, fault⟩ := not_forall_not.mp sound
    exact .inr (exists_isFirstFault fault)

theorem ofWords_eq_ok_iff (words : List String) (range : DateRange) :
    ofWords words = .ok range ↔ Describes words range := by
  refine ⟨fun read => ?_, ofWords_of_describes⟩
  rcases describes_or_isFirstFault words with ⟨other, describes⟩ | ⟨e, fault⟩
  · rw [ofWords_of_describes describes] at read
    rwa [← Except.ok.inj read]
  · rw [ofWords_of_isFirstFault fault] at read
    cases read

theorem ofWords_eq_error_iff (words : List String) (e : FilterError) :
    ofWords words = .error e ↔ IsFirstFault words e := by
  refine ⟨fun read => ?_, ofWords_of_isFirstFault⟩
  rcases describes_or_isFirstFault words with ⟨range, describes⟩ | ⟨other, fault⟩
  · rw [ofWords_of_describes describes] at read
    cases read
  · rw [ofWords_of_isFirstFault fault] at read
    rwa [← Except.error.inj read]

theorem requoted_ofDates (comparator lowered : String) (first : DateTime)
    (second : Option DateTime) :
    (ofDates lowered first second).mapError (requoted comparator) = ofDates lowered first second := by
  unfold ofDates
  split
  · rfl
  split
  · rfl
  · cases second <;> rfl

theorem requoted_readDate (comparator word : String) {next : DateTime → Except FilterError DateRange}
    (quiet : ∀ t, (next t).mapError (requoted comparator) = next t) :
    ((readDate word).bind next).mapError (requoted comparator) = (readDate word).bind next := by
  cases read : DateTime.read word with
  | ok t =>
    rw [readDate_of_ok read]
    exact quiet t
  | error fault =>
    rw [readDate_of_error read]
    rfl

theorem ofWords_recased {comparator other : String}
    (same : Text.sameAsciiCase comparator other = true) (dates : List String) :
    ofWords (other :: dates) = (ofWords (comparator :: dates)).mapError (requoted other) := by
  have lowered : comparator.map Char.toLower = other.map Char.toLower := eq_of_beq same
  match dates with
  | [] => rfl
  | [first] =>
    rw [ofWords_pair, ofWords_pair, lowered]
    split
    · exact (requoted_readDate other first fun _ => requoted_ofDates ..).symm
    · rfl
  | [first, second] =>
    rw [ofWords_triple, ofWords_triple, lowered]
    split
    · exact (requoted_readDate other first fun _ =>
        requoted_readDate other second fun _ => requoted_ofDates ..).symm
    · rfl
  | _ :: _ :: _ :: _ =>
    rw [ofWords, ofWords, if_pos (by simp), if_pos (by simp)]
    rfl

theorem contains_between_iff (low high t : DateTime) :
    (between low high).contains t = true ↔
      (after low).contains t = true ∧ (before high).contains t = true := by
  simp [contains]

theorem not_contains_of_inverted {low high : DateTime} (inverted : ¬low ≤ high) (t : DateTime) :
    (between low high).contains t = false := by
  rw [Bool.eq_false_iff]
  intro inside
  simp only [contains, Bool.and_eq_true, decide_eq_true_eq] at inside
  exact inverted (List.le_trans inside.1 inside.2)

/-- A text is read by its words. It gives a range exactly where they describe that range, and
otherwise the first of their faults; the case of the comparator shows in nothing but the error that
quotes it. A date that a comparator does not need has no influence on the range. A range between two
dates holds what lies both after the one and before the other, and nothing if they are inverted. -/
theorem read_by_words (text : String) (words : List String)
    (written : Text.Writes words text.toList) :
    (∀ range, read text = .ok range ↔ Describes words range) ∧
    (∀ e, read text = .error e ↔ IsFirstFault words e) ∧
    (∀ other : String, Text.Writes words other.toList → read other = read text) ∧
    (∀ comparator comparator' dates, words = comparator :: dates →
      Text.sameAsciiCase comparator comparator' = true → ∀ other : String,
        Text.Writes (comparator' :: dates) other.toList →
          read other = (read text).mapError (requoted comparator')) ∧
    (∀ comparator first surplus range, words = [comparator, first, surplus] →
      Text.sameAsciiCase comparator "between" = false → read text = .ok range →
        ∀ other : String, Text.Writes [comparator, first] other.toList → read other = .ok range) ∧
    ∀ low high t, ((between low high).contains t = true ↔
        (after low).contains t = true ∧ (before high).contains t = true) ∧
      (¬low ≤ high → (between low high).contains t = false) := by
  have byWords {text : String} {words : List String} (written : Text.Writes words text.toList) :
      read text = ofWords words := congrArg ofWords ((Text.words_eq_iff text words).mpr written)
  rw [byWords written]
  refine ⟨ofWords_eq_ok_iff words, ofWords_eq_error_iff words, fun _ => byWords, ?_, ?_,
    fun low high t => ⟨contains_between_iff low high t, fun inverted =>
      not_contains_of_inverted inverted t⟩⟩
  · rintro comparator comparator' dates rfl same other written'
    rw [byWords written', ofWords_recased same]
  · rintro comparator first surplus range rfl single done other written'
    rw [byWords written', ofWords_eq_ok_iff]
    cases (ofWords_eq_ok_iff _ _).mp done with
    | before named date _ _ => exact .before named date (Nat.zero_le 1) nofun
    | after named date _ _ => exact .after named date (Nat.zero_le 1) nofun
    | between named _ _ =>
      rw [named] at single
      cases single

example : read "around" = .error .dateArity ∧ read "around then" = .error (.unknownRange "around") ∧
    read "Between then" = .error (.invalidDate "then" .invalid) := by
  decide +kernel

theorem read_by_words_capital :
    Text.Writes ["AFTER", "2024/01/02-03:04", "2025/01/01-00:00"]
        "\tAFTER 2024/01/02-03:04\u00a0\n2025/01/01-00:00".toList ∧
      Describes ["AFTER", "2024/01/02-03:04", "2025/01/01-00:00"]
        (.after ⟨2024, 1, 2, 3, 4, 0⟩) := by
  have written : Text.Writes ["AFTER", "2024/01/02-03:04", "2025/01/01-00:00"]
      "\tAFTER 2024/01/02-03:04\u00a0\n2025/01/01-00:00".toList :=
    (Text.words_eq_iff _ _).mp (by decide +kernel)
  exact ⟨written, ((read_by_words _ _ written).1 _).mp (by decide +kernel)⟩

end SimpleFiles.DateRange
