import ArcFile.Http.StartLine
import ArcFile.Proofs.Text.Numeral
import Mathlib.Logic.ExistsUnique
/-!
Start lines by their grammar. A status line is cut at its first two spaces, a request line at its first and its last;
here a line is any text that its parts make. No version, code or method holds a space, so that a line is made of one
set of parts at most, and the cuts find them.
-/
namespace ArcFile.Http.StartLine

open Text
open Text.Decimal (padded)

variable {text : List Char} {line version code method uri : String} {reason given given' : Option String}
  {start : StartLine}

/-! ## The grammar -/

/-- One or more digits. -/
def IsNumber (text : List Char) : Prop := text ≠ [] ∧ ∀ c ∈ text, c.isDigit = true

/-- `HTTP/` and two numbers with a point between them. -/
def IsVersion (text : List Char) : Prop :=
  ∃ major minor, IsNumber major ∧ IsNumber minor ∧ text = "HTTP/".toList ++ (major ++ '.' :: minor)

/-- Three digits. -/
def IsCode (text : List Char) : Prop := text.length = 3 ∧ ∀ c ∈ text, c.isDigit = true

/-- What follows the code of a status line: a space and the reason, if there is one. -/
def ending : Option String → String
  | none => ""
  | some reason => " " ++ reason

/-- The line is a version, a code and, if there is one, a reason, with single spaces between them. -/
structure IsStatusLine (line version code : String) (reason : Option String) : Prop where
  isVersion : IsVersion version.toList
  isCode : IsCode code.toList
  spelled : line = version ++ " " ++ code ++ ending reason

/-- The line is a method, a target and a version with single spaces between them, and does not begin as a version
does. Of the three only the target may hold spaces. -/
structure IsRequestLine (line method uri version : String) : Prop where
  other : ¬ "HTTP/".toList <+: line.toList
  hasMethod : method ≠ ""
  oneWord : ' ' ∉ method.toList
  hasTarget : uri ≠ ""
  isVersion : IsVersion version.toList
  spelled : line = method ++ " " ++ uri ++ " " ++ version

/-! ## Versions and codes -/

theorem isNumber_iff : isNumber text = true ↔ IsNumber text := by
  simp [isNumber, IsNumber]

theorem IsNumber.not_mem (h : IsNumber text) {c : Char} (other : c.isDigit = false) : c ∉ text := by
  intro among
  rw [h.2 c among] at other
  cases other

theorem versionStart_eq : versionStart = "HTTP/".toList := rfl

theorem isVersion_iff : isVersion text = true ↔ IsVersion text := by
  unfold isVersion
  rw [Bool.and_eq_true, List.isPrefixOf_iff_prefix, versionStart_eq]
  constructor
  · rintro ⟨⟨rest, rfl⟩, numbers⟩
    rw [List.drop_left] at numbers
    split at numbers
    · next major minor found =>
      rw [Bool.and_eq_true, isNumber_iff, isNumber_iff] at numbers
      exact ⟨major, minor, numbers.1, numbers.2, by rw [append_of_cut? found]⟩
    · cases numbers
  · rintro ⟨major, minor, isMajor, isMinor, rfl⟩
    rw [List.drop_left, cut?_append (isMajor.not_mem rfl)]
    refine ⟨List.prefix_append _ _, ?_⟩
    simp only [Bool.and_eq_true, isNumber_iff]
    exact ⟨isMajor, isMinor⟩

theorem IsVersion.starts (h : IsVersion text) : "HTTP/".toList <+: text := by
  obtain ⟨major, minor, -, -, rfl⟩ := h
  exact List.prefix_append _ _

theorem IsVersion.oneWord (h : IsVersion text) : ' ' ∉ text := by
  obtain ⟨major, minor, isMajor, isMinor, rfl⟩ := h
  simp [isMajor.not_mem (c := ' ') rfl, isMinor.not_mem (c := ' ') rfl]

theorem IsCode.isNumber (h : IsCode text) : IsNumber text := by
  refine ⟨?_, h.2⟩
  rintro rfl
  cases h.1

/-- A code is its number in three digits. -/
theorem IsCode.padded_eq {code : String} (h : IsCode code.toList) :
    padded 3 (Nat.ofDigitChars 10 code.toList 0) = code := by
  obtain ⟨some, digits⟩ := h.isNumber
  apply String.toList_injective
  rw [← h.1, Decimal.padded_ofDigitChars some digits]

/-! ## Status lines -/

theorem IsStatusLine.toList (h : IsStatusLine line version code reason) :
    line.toList = version.toList ++ ' ' :: (code.toList ++ (ending reason).toList) := by
  simp [h.spelled]

theorem ending_injective : ending.Injective := by
  intro given given' same
  cases given with
  | none =>
    cases given' with
    | none => rfl
    | some => simp [ending] at same
  | some =>
    cases given' with
    | none => simp [ending] at same
    | some => simpa [ending] using same

theorem IsStatusLine.unique (h : IsStatusLine line version code given) (h' : IsStatusLine line version code given') :
    given = given' := by
  have same := h.spelled.symm.trans h'.spelled
  exact ending_injective ((String.append_right_inj _).1 same)

theorem cut?_ending {code : List Char} (oneWord : ' ' ∉ code) (reason : Option String) :
    (cut? ' ' (code ++ (ending reason).toList)).getD (code ++ (ending reason).toList, []) =
      (code, (reason.getD "").toList) := by
  cases reason with
  | none =>
    have whole : code ++ (ending none).toList = code := List.append_nil code
    rw [whole, cut?_eq_none_iff.2 oneWord]
    rfl
  | some reason =>
    have spaced : (ending (some reason)).toList = ' ' :: reason.toList := by simp [ending]
    rw [spaced, cut?_append oneWord]
    rfl

/-- What comes before the first space of a text is its first word, and the rest is an ending. -/
theorem exists_ending (text : List Char) : ∃ word reason, ' ' ∉ word ∧ text = word ++ (ending reason).toList := by
  cases found : cut? ' ' text with
  | none => exact ⟨text, none, cut?_eq_none_iff.1 found, (List.append_nil text).symm⟩
  | some parts =>
    obtain ⟨oneWord, cut⟩ := cut?_eq_some_iff.1 found
    exact ⟨parts.1, some (String.ofList parts.2), oneWord, by simp [ending, cut]⟩

/-- A line of at least two words is refused for its version or its code, and for nothing else. -/
theorem status?_eq_some_iff {version code : List Char} (oneWord : ' ' ∉ version) (oneWord' : ' ' ∉ code)
    (reason : Option String) : status? (version ++ ' ' :: (code ++ (ending reason).toList)) = some start ↔
      (IsVersion version ∧ IsCode code) ∧
        start = .status (String.ofList version) (Nat.ofDigitChars 10 code 0) (reason.getD "") := by
  have refused : ((!isVersion version) = true ∨ code.length ≠ 3 ∨ (!code.all Char.isDigit) = true) ↔
      ¬(IsVersion version ∧ IsCode code) := by
    simp only [Bool.not_eq_true', ← Bool.not_eq_true, isVersion_iff, List.all_eq_true, IsCode, not_and_or]
  simp only [status?, cut?_append oneWord, cut?_ending oneWord', Option.bind_eq_bind, Option.bind_some]
  by_cases sound : IsVersion version ∧ IsCode code
  · have number := sound.2.isNumber
    have value := Decimal.readNat?_of_isDigit number.1 number.2
    rw [if_neg (refused.not.2 (not_not_intro sound)), value, Option.bind_some, String.ofList_toList]
    simp [sound, eq_comm]
  · rw [if_pos (refused.2 sound)]
    simp [sound]

theorem status?_complete (h : IsStatusLine line version code reason) :
    status? line.toList = some (.status version (Nat.ofDigitChars 10 code.toList 0) (reason.getD "")) := by
  have oneWord : ' ' ∉ code.toList := h.isCode.isNumber.not_mem rfl
  rw [h.toList, status?_eq_some_iff h.isVersion.oneWord oneWord, String.ofList_toList]
  exact ⟨⟨h.isVersion, h.isCode⟩, rfl⟩

theorem status?_sound (read : status? line.toList = some start) : ∃ version code reason,
    IsStatusLine line version code reason ∧
      start = .status version (Nat.ofDigitChars 10 code.toList 0) (reason.getD "") := by
  obtain ⟨⟨version, rest⟩, found, -⟩ := Option.bind_eq_some_iff.1 read
  obtain ⟨oneWord, cut⟩ := cut?_eq_some_iff.1 found
  obtain ⟨code, reason, oneWord', rfl⟩ := exists_ending rest
  rw [cut, status?_eq_some_iff oneWord oneWord'] at read
  obtain ⟨⟨isVersion, isCode⟩, rfl⟩ := read
  refine ⟨String.ofList version, String.ofList code, reason, ⟨?_, ?_, ?_⟩, ?_⟩
  · rwa [String.toList_ofList]
  · rwa [String.toList_ofList]
  · apply String.toList_injective
    simp [cut]
  · rw [String.toList_ofList]

/-! ## Request lines -/

theorem IsRequestLine.toList (h : IsRequestLine line method uri version) :
    line.toList = (method.toList ++ ' ' :: uri.toList) ++ ' ' :: version.toList := by
  simp [h.spelled]

/-- Behind its last space a line must have a version, and neither of the two words before it may be missing. -/
theorem request?_eq_some_iff {method uri version : List Char} (oneWord : ' ' ∉ method) (oneWord' : ' ' ∉ version) :
    request? ((method ++ ' ' :: uri) ++ ' ' :: version) = some start ↔
      (IsVersion version ∧ method ≠ [] ∧ uri ≠ []) ∧
        start = .request (String.ofList method) (String.ofList uri) (String.ofList version) := by
  have refused : ((!isVersion version) = true ∨ method.isEmpty = true ∨ uri.isEmpty = true) ↔
      ¬(IsVersion version ∧ method ≠ [] ∧ uri ≠ []) := by
    simp only [Bool.not_eq_true', ← Bool.not_eq_true, isVersion_iff, List.isEmpty_iff, not_and_or, ne_eq, not_not]
  simp only [request?, cutLast?_append _ oneWord', cut?_append oneWord, Option.bind_eq_bind, Option.bind_some]
  by_cases sound : IsVersion version ∧ method ≠ [] ∧ uri ≠ []
  · rw [if_neg (refused.not.2 (not_not_intro sound))]
    simp [sound, eq_comm]
  · rw [if_pos (refused.2 sound)]
    simp [sound]

theorem request?_complete (h : IsRequestLine line method uri version) :
    request? line.toList = some (.request method uri version) := by
  rw [h.toList, request?_eq_some_iff h.oneWord h.isVersion.oneWord]
  simp only [String.ofList_toList, ne_eq, String.toList_eq_nil_iff, and_true]
  exact ⟨h.isVersion, h.hasMethod, h.hasTarget⟩

theorem request?_sound (other : ¬ "HTTP/".toList <+: line.toList) (read : request? line.toList = some start) :
    ∃ method uri version, IsRequestLine line method uri version ∧ start = .request method uri version := by
  obtain ⟨⟨rest, version⟩, foundLast, later⟩ := Option.bind_eq_some_iff.1 read
  obtain ⟨⟨method, uri⟩, found, -⟩ := Option.bind_eq_some_iff.1 later
  obtain ⟨oneWord', cutLast⟩ := cutLast?_eq_some_iff.1 foundLast
  obtain ⟨oneWord, rfl⟩ := cut?_eq_some_iff.1 found
  rw [cutLast, request?_eq_some_iff oneWord oneWord'] at read
  obtain ⟨⟨isVersion, hasMethod, hasTarget⟩, rfl⟩ := read
  refine ⟨String.ofList method, String.ofList uri, String.ofList version, ⟨other, ?_, ?_, ?_, ?_, ?_⟩, rfl⟩
  · simpa using hasMethod
  · rwa [String.toList_ofList]
  · simpa using hasTarget
  · rwa [String.toList_ofList]
  · apply String.toList_injective
    simp [cutLast]

/-! ## Start lines -/

theorem IsStatusLine.starts (h : IsStatusLine line version code reason) : "HTTP/".toList <+: line.toList := by
  rw [h.toList]
  exact h.isVersion.starts.trans (List.prefix_append _ _)

theorem parse?_of_isStatusLine (h : IsStatusLine line version code reason) :
    parse? line = some (.status version (Nat.ofDigitChars 10 code.toList 0) (reason.getD "")) := by
  rw [parse?, versionStart_eq, if_pos (List.isPrefixOf_iff_prefix.2 h.starts)]
  exact status?_complete h

theorem parse?_of_isRequestLine (h : IsRequestLine line method uri version) :
    parse? line = some (.request method uri version) := by
  rw [parse?, versionStart_eq, if_neg (List.isPrefixOf_iff_prefix.not.2 h.other)]
  exact request?_complete h

theorem parse?_sound (read : parse? line = some start) :
    (∃ version code reason, IsStatusLine line version code reason ∧
      start = .status version (Nat.ofDigitChars 10 code.toList 0) (reason.getD "")) ∨
    ∃ method uri version, IsRequestLine line method uri version ∧ start = .request method uri version := by
  unfold parse? at read
  split at read
  · exact .inl (status?_sound read)
  · next other =>
    rw [List.isPrefixOf_iff_prefix, versionStart_eq] at other
    exact .inr (request?_sound other read)

theorem parse?_eq_status_iff {reason : String} {code : Nat} :
    parse? line = some (.status version code reason) ↔
      ∃! given, IsStatusLine line version (padded 3 code) given ∧ reason = given.getD "" := by
  constructor
  · intro read
    rcases parse?_sound read with ⟨version, digits, given, h, same⟩ | ⟨_, _, _, _, same⟩
    · cases same
      rw [h.isCode.padded_eq]
      exact ⟨given, ⟨h, rfl⟩, fun _ h' => h'.1.unique h⟩
    · cases same
  · rintro ⟨given, ⟨h, rfl⟩, -⟩
    rw [parse?_of_isStatusLine h, Decimal.ofDigitChars_padded]

theorem parse?_eq_request_iff :
    parse? line = some (.request method uri version) ↔ IsRequestLine line method uri version := by
  constructor
  · intro read
    rcases parse?_sound read with ⟨_, _, _, _, same⟩ | ⟨method, uri, version, h, same⟩
    · cases same
    · cases same
      exact h
  · exact parse?_of_isRequestLine

/-- A line is read as a status line just if it is one, and then it is the version, the code in three digits and, if
there is one, the reason, with single spaces between them; as a request line just if it is one, and then it is the
method, the target and the version with single spaces between them; and as neither just if it is neither. -/
theorem parse?_exactly (line : String) :
    ((∃ version code reason, parse? line = some (.status version code reason)) ↔
      ∃ version code reason, IsStatusLine line version code reason) ∧
    (∀ version code reason, parse? line = some (.status version code reason) ↔
      ∃! given, IsStatusLine line version (padded 3 code) given ∧ reason = given.getD "") ∧
    (∀ method uri version, parse? line = some (.request method uri version) ↔
      IsRequestLine line method uri version) ∧
    (parse? line = none ↔ (∀ version code reason, ¬ IsStatusLine line version code reason) ∧
      ∀ method uri version, ¬ IsRequestLine line method uri version) := by
  refine ⟨⟨?_, ?_⟩, fun _ _ _ => parse?_eq_status_iff, fun _ _ _ => parse?_eq_request_iff, ?_, ?_⟩
  · rintro ⟨version, code, reason, read⟩
    obtain ⟨given, ⟨h, -⟩, -⟩ := parse?_eq_status_iff.1 read
    exact ⟨version, padded 3 code, given, h⟩
  · rintro ⟨version, code, reason, h⟩
    exact ⟨version, Nat.ofDigitChars 10 code.toList 0, reason.getD "", parse?_of_isStatusLine h⟩
  · intro none
    constructor
    · intro version code reason h
      rw [parse?_of_isStatusLine h] at none
      cases none
    · intro method uri version h
      rw [parse?_of_isRequestLine h] at none
      cases none
  · rintro ⟨noStatus, noRequest⟩
    rw [Option.eq_none_iff_forall_ne_some]
    intro start read
    rcases parse?_sound read with ⟨version, code, reason, h, -⟩ | ⟨method, uri, version, h, -⟩
    · exact noStatus version code reason h
    · exact noRequest method uri version h

/-- All between the first space and the last is the target. -/
example : parse? "GET /a  b  HTTP/1.0" = some (.request "GET" "/a  b " "HTTP/1.0") := by decide +kernel

end ArcFile.Http.StartLine
