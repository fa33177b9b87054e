import SimpleFiles.Proofs.Check.Acceptance
import SimpleFiles.Proofs.Memory.Tidiness

/-! References by their bytes. The name in a reference may be cut out at byte offsets that depend on
nothing but the length of the text: whatever passes for a reference has that cut, and no other text
is ever cut. The checker and the memory take the same texts for references. -/
namespace SimpleFiles

/-- The text between two byte offsets. There is none where these are out of order, or where one of
them is beyond the end of the text or inside a character. -/
def Text.between? (s : String) (start stop : Nat) : Option String :=
  if h : start ≤ stop ∧ String.Pos.Raw.IsValid s ⟨start⟩ ∧ String.Pos.Raw.IsValid s ⟨stop⟩ then
    some (s.extract (s.pos ⟨start⟩ h.2.1) (s.pos ⟨stop⟩ h.2.2))
  else none

namespace Reference

/-- The test by bytes: three of them at least, and the ends of a reference. -/
def isEnclosed (value : String) : Bool :=
  3 ≤ value.utf8ByteSize && value.startsWith "$\x7b" && value.endsWith '\x7d'

/-- The name between the first two bytes and the last one, which must not be empty. There is no
answer at all where the text cannot be cut there. -/
def cut? (value : String) : Option (Except MemoryError String) :=
  (Text.between? value 2 (value.utf8ByteSize - 1)).map fun inner =>
    if inner = "" then .error .emptyReference else .ok inner

end Reference

namespace Environment

def resolveCut? (env : Environment) (raw : String) : Option (Except MemoryError String) :=
  if Reference.isEnclosed raw then (Reference.cut? raw).map (·.bind env.get)
  else some (.ok raw)

def assignCut? (env : Environment) (name value : String) :
    Option (Except MemoryError Environment) :=
  let name := Text.trim name
  let value := Text.trim value
  if name = reservedName then some (.error .reservedName)
  else if Reference.isEnclosed value then
    (Reference.cut? value).map (·.bind fun target =>
      match env.names.find? target with
      | none => .error (.undefinedAlias value)
      | some cell =>
        if target = name then .error (.circularAssignment value)
        else .ok { env with names := env.names.insert name cell })
  else some (.ok (env.write name value))

end Environment

/-- The checker lets a value stand where a text is required and where a positive integer is, though
it is no integer. -/
structure Check.Defers (value : String) : Prop where
  present : isPresent (some value) = true
  counted : ∀ action, countIssues action value = []
  unread : Text.int32? (Text.trim value) = none

/-! Cutting. -/

theorem Text.between?_append (before piece after : String) :
    between? (before ++ piece ++ after) before.utf8ByteSize (before ++ piece).utf8ByteSize =
      some piece := by
  have start : String.Pos.Raw.IsValid (before ++ piece ++ after) ⟨before.utf8ByteSize⟩ :=
    String.Pos.Raw.isValid_iff_exists_append.mpr
      ⟨before, piece ++ after, String.append_assoc .., rfl⟩
  have stop : String.Pos.Raw.IsValid (before ++ piece ++ after) ⟨(before ++ piece).utf8ByteSize⟩ :=
    String.Pos.Raw.isValid_iff_exists_append.mpr ⟨before ++ piece, after, rfl, rfl⟩
  have order : before.utf8ByteSize ≤ (before ++ piece).utf8ByteSize := by
    rw [String.utf8ByteSize_append]
    exact Nat.le_add_right ..
  have bytes : (before.toByteArray ++ piece.toByteArray ++ after.toByteArray).extract
      before.toByteArray.size (before.toByteArray.size + piece.toByteArray.size) =
        piece.toByteArray := by
    rw [ByteArray.append_assoc]
    exact (ByteArray.extract_append_size_add (i := 0)).trans (ByteArray.extract_append_eq_left rfl)
  rw [between?, dif_pos ⟨order, start, stop⟩, Option.some.injEq, ← String.toByteArray_inj]
  simpa using bytes

namespace Reference

theorem toList_ofName (inner : String) :
    (ofName inner).toList = '$' :: '\x7b' :: (inner.toList ++ ['\x7d']) := by
  simp [ofName]

theorem utf8ByteSize_ofName (inner : String) :
    (ofName inner).utf8ByteSize = 2 + inner.utf8ByteSize + 1 := by
  rw [ofName, String.utf8ByteSize_append, String.utf8ByteSize_append]
  rfl

theorem trim_ofName (inner : String) : Text.trim (ofName inner) = ofName inner := by
  have solid : Text.IsTrimmed (ofName inner) := by
    rw [Text.IsTrimmed, toList_ofName]
    constructor
    · rintro c ⟨⟩
      decide
    · intro c last
      obtain rfl : '\x7d' = c := by simpa [List.getLast?_cons] using last
      decide
  have whole : Text.trimmed ([] ++ (ofName inner).toList ++ []) = (ofName inner).toList :=
    Text.trimmed_padded solid (List.forall_mem_nil _) (List.forall_mem_nil _)
  rw [List.nil_append, List.append_nil] at whole
  rw [Text.trim, whole, String.ofList_toList]

theorem int32?_ofName (inner : String) : Text.int32? (ofName inner) = none := by
  have first : ¬Char.isDigit '$' := by decide
  simp [Text.int32?, toList_ofName, Text.int?, Text.digits?, first]

theorem isEnclosed_iff (value : String) :
    isEnclosed value = true ↔ ∃ inner, value = ofName inner := by
  simp only [isEnclosed, Bool.and_eq_true, decide_eq_true_eq, String.startsWith_string_iff,
    String.endsWith_char_iff_exists_append]
  constructor
  · rintro ⟨⟨-, rest, opened⟩, front, rfl⟩
    have chars : '$' :: '\x7b' :: rest = front.toList ++ ['\x7d'] := by simpa using opened
    rcases shape : front.toList with _ | ⟨a, _ | ⟨b, inner⟩⟩
    · simp [shape] at chars
    · simp [shape] at chars
    · rw [shape] at chars
      obtain ⟨rfl, rfl, -⟩ : '$' = a ∧ '\x7b' = b ∧ rest = inner ++ ['\x7d'] := by
        simpa using chars
      refine ⟨.ofList inner, String.toList_inj.mp ?_⟩
      simp [ofName, shape]
  · rintro ⟨inner, rfl⟩
    refine ⟨⟨?_, inner.toList ++ ['\x7d'], ?_⟩, "$\x7b" ++ inner, rfl⟩
    · have size := utf8ByteSize_ofName inner
      omega
    · simp [ofName]

theorem isEnclosed_eq (value : String) : isEnclosed value = isReference value := by
  rw [Bool.eq_iff_iff, isEnclosed_iff, isReference_iff]

theorem between?_ofName (inner : String) :
    Text.between? (ofName inner) 2 ((ofName inner).utf8ByteSize - 1) = some inner := by
  have size : (ofName inner).utf8ByteSize - 1 = ("$\x7b" ++ inner).utf8ByteSize := by
    rw [utf8ByteSize_ofName, String.utf8ByteSize_append]
    rfl
  rw [size]
  exact Text.between?_append "$\x7b" inner "\x7d"

theorem cut?_ofName (inner : String) :
    cut? (ofName inner) = some (if inner = "" then .error .emptyReference else .ok inner) := by
  rw [cut?, between?_ofName, Option.map_some]

theorem bind_cut? {value : String} (h : isEnclosed value = true) :
    ∃ inner, name? value = some inner ∧
      ∀ {α : Type} (next : String → Except MemoryError α), (cut? value).map (·.bind next) =
        some (if inner = "" then .error .emptyReference else next inner) := by
  obtain ⟨inner, rfl⟩ := (isEnclosed_iff value).mp h
  refine ⟨inner, (name?_eq_some_iff _ inner).mpr rfl, fun next => ?_⟩
  rw [cut?_ofName, Option.map_some]
  split
  · rfl
  · rfl

theorem name?_eq_none_of_not_isEnclosed {value : String} (h : ¬isEnclosed value = true) :
    name? value = none := by
  rw [isEnclosed_eq, isReference, Option.isSome_iff_exists, not_exists] at h
  exact Option.eq_none_iff_forall_ne_some.mpr h

end Reference

/-! The callers. -/

namespace Environment

variable (env : Environment)

theorem resolveCut?_eq (raw : String) : env.resolveCut? raw = some (env.resolve raw) := by
  by_cases h : Reference.isEnclosed raw = true
  · obtain ⟨inner, named, cut⟩ := Reference.bind_cut? h
    rw [resolveCut?, if_pos h, cut, resolve, named]
  · rw [resolveCut?, if_neg h, resolve, Reference.name?_eq_none_of_not_isEnclosed h]

theorem assignCut?_eq (name value : String) :
    env.assignCut? name value = some (env.assign name value) := by
  unfold assignCut? assign
  by_cases reserved : Text.trim name = reservedName
  · simp only [if_pos reserved]
  by_cases h : Reference.isEnclosed (Text.trim value) = true
  · obtain ⟨inner, named, cut⟩ := Reference.bind_cut? h
    simp only [if_neg reserved, if_pos h, cut]
    exact named ▸ rfl
  · have literal := Reference.name?_eq_none_of_not_isEnclosed h
    simp only [if_neg reserved, if_neg h, literal]

theorem resolve_ofName_eq (inner : String) :
    env.resolve (Reference.ofName inner) =
      if inner = "" then .error .emptyReference else env.get inner := by
  rw [resolve, (Reference.name?_eq_some_iff _ inner).mpr rfl]

theorem isReference_eq_false_iff (value : String) :
    Reference.isReference value = false ↔ ∀ env : Environment, env.resolve value = .ok value := by
  constructor
  · intro literal env
    have unnamed : Reference.name? value = none := by
      simpa [Reference.isReference] using literal
    exact env.resolve_literal value unnamed
  · intro unchanged
    by_contra refers
    obtain ⟨inner, rfl⟩ := (isReference_iff value).mp (Bool.eq_true_of_not_eq_false refers)
    have resolved := unchanged .empty
    rw [resolve_ofName_eq, get_of_unbound .empty inner rfl] at resolved
    split at resolved
    · cases resolved
    · cases resolved

end Environment

namespace Check

theorem defers_iff (value : String) : Defers value ↔ Reference.isReference value = true := by
  constructor
  · rintro ⟨-, counted, unread⟩
    rcases (countIssues_eq_nil_iff .createFile value).mp (counted .createFile) with
      refers | ⟨n, written, low, high⟩
    · exact (isReference_iff value).mpr refers
    · have read := (Text.int32?_eq_some_iff (Text.trim value) n).mpr ⟨written, by omega, by omega⟩
      rw [unread] at read
      cases read
  · intro refers
    obtain ⟨inner, rfl⟩ := (isReference_iff value).mp refers
    refine ⟨?_, fun action => (countIssues_eq_nil_iff action _).mpr (.inl ⟨inner, rfl⟩), ?_⟩
    · rw [isPresent, Option.any_some, refers, Bool.true_or]
    · rw [Reference.trim_ofName, Reference.int32?_ofName]

end Check

/-- A text is a reference exactly if it is a name in braces after a dollar sign, and the test by
bytes finds just these. The cut of a reference by its bytes is within the text and between its
characters, and gives the name, which must not be empty; so resolving and assigning by such cuts
always come to the answers they have without. The checker defers exactly the values that are
looked up, or refused for an empty name, and those it does not defer are resolved to themselves. -/
theorem Reference.cutting_never_fails :
    (∀ value, isReference value = true ↔ ∃ inner, value = "$\x7b" ++ inner ++ "\x7d") ∧
    (∀ value, isEnclosed value = isReference value) ∧
    (∀ inner, Text.between? (ofName inner) 2 ((ofName inner).utf8ByteSize - 1) = some inner ∧
      cut? (ofName inner) = some (if inner = "" then .error .emptyReference else .ok inner)) ∧
    (∀ (env : Environment) raw, env.resolveCut? raw = some (env.resolve raw)) ∧
    (∀ (env : Environment) name value,
      env.assignCut? name value = some (env.assign name value)) ∧
    ∀ value, (Check.Defers value ↔ isReference value = true) ∧
      (isReference value = true ↔ ∃ inner, value = ofName inner ∧ ∀ env : Environment,
        env.resolve value = if inner = "" then .error .emptyReference else env.get inner) ∧
      (isReference value = false ↔ ∀ env : Environment, env.resolve value = .ok value) := by
  refine ⟨isReference_iff, isEnclosed_eq, fun inner => ⟨between?_ofName inner, cut?_ofName inner⟩,
    Environment.resolveCut?_eq, Environment.assignCut?_eq, fun value => ⟨Check.defers_iff value, ?_,
      Environment.isReference_eq_false_iff value⟩⟩
  rw [isReference_iff]
  refine exists_congr fun inner => (and_iff_left_of_imp ?_).symm
  rintro rfl env
  exact env.resolve_ofName_eq inner

example : Text.between? "$\x7bé😀\x7d" 2 8 = some "é😀" ∧ Text.between? "$é!" 2 3 = none ∧
    Text.between? "$\x7b" 2 1 = none := by
  decide +kernel

end SimpleFiles
