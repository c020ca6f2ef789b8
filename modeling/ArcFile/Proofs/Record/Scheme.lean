import ArcFile.Proofs.Record.Fields
/-!
The two schemes of a header line. One is found in the text of the URL as it stands, the other in the text that
a URL is read from, which has no blank ends and no breaks. The name in front of the colon is the same in both unless
a blank or a control character stands there too; then the text as it stands has no scheme.
-/
namespace ArcFile

open Text

namespace Url

section Name

variable {name rest : List Char}

/-- What may stand in front of the colon: a letter, and then characters of schemes. -/
def isSchemeName : List Char → Bool
  | [] => false
  | c :: more => c.isAlpha && more.all isSchemeChar

theorem scheme?_append (none : ':' ∉ name) (rest : List Char) : scheme? (name ++ ':' :: rest) =
    if isSchemeName name then some (String.ofList (lower name), rest) else .none := by
  rw [scheme?, cut?_append none]
  cases name with
  | nil => rfl
  | cons c more => rfl

theorem colon_mem_of_scheme? {text : List Char} {found : String × List Char} (h : scheme? text = some found) :
    ':' ∈ text := by
  apply Classical.byContradiction
  intro none
  rw [scheme?, cut?_eq_none_iff.2 none] at h
  cases h

/-- A blank or a control character: what is taken from the ends of a URL. -/
def isOutside (c : Char) : Bool := c.toNat ≤ 32

/-- Something that is no part of the URL stands in front of the first colon of the text. -/
def isHidden (text : String) : Bool := (text.toList.takeWhile (· ≠ ':')).any isOutside

theorem isSchemeChar_of_isAlpha {c : Char} (letter : c.isAlpha = true) : isSchemeChar c = true := by
  simp [isSchemeChar, Char.isAlphanum, letter]

theorem isOutside_of_le {c least : Char} (above : 32 < least.toNat) (le : least ≤ c) : isOutside c = false := by
  have : least.toNat ≤ c.toNat := UInt32.le_iff_toNat_le.1 le
  exact decide_eq_false (by omega)

theorem isOutside_of_isSchemeChar {c : Char} (h : isSchemeChar c = true) : isOutside c = false := by
  simp only [isSchemeChar, Bool.or_eq_true, beq_iff_eq] at h
  rcases h with ((alphanumeric | rfl) | rfl) | rfl
  · rcases Bool.or_eq_true_iff.1 alphanumeric with letter | digit
    · rcases Bool.or_eq_true_iff.1 letter with upper | lower
      · exact isOutside_of_le (by decide) (of_decide_eq_true upper).1
      · exact isOutside_of_le (by decide) (of_decide_eq_true (Bool.and_eq_true_iff.1 lower).1)
    · exact isOutside_of_le (by decide) (of_decide_eq_true (Bool.and_eq_true_iff.1 digit).1)
  · rfl
  · rfl
  · rfl

theorem isOutside_of_isBreak {c : Char} (h : isBreak c = true) : isOutside c = true := by
  simp only [isBreak, Bool.or_eq_true, beq_iff_eq] at h
  rcases h with (rfl | rfl) | rfl <;> rfl

/-- A name is made of characters of schemes. -/
theorem isSchemeChar_of_mem {c : Char} (named : isSchemeName name = true) (among : c ∈ name) :
    isSchemeChar c = true := by
  cases name with
  | nil => cases among
  | cons first more =>
    obtain ⟨letter, all⟩ := Bool.and_eq_true_iff.1 named
    rcases List.mem_cons.1 among with rfl | later
    · exact isSchemeChar_of_isAlpha letter
    · exact List.all_eq_true.1 all c later

theorem dropWhile_append_cons {p : Char → Bool} {c : Char} (stops : p c = false) :
    (name ++ c :: rest).dropWhile p = name.dropWhile p ++ c :: rest := by
  rw [List.dropWhile_append, List.dropWhile_cons_of_neg (by simp [stops])]
  split
  · next none => rw [List.isEmpty_iff.1 none, List.nil_append]
  · rfl

theorem trim_append {c : Char} (inside : isOutside c = false) (name rest : List Char) :
    trim (name ++ c :: rest) = name.dropWhile isOutside ++ c :: (rest.reverse.dropWhile isOutside).reverse := by
  change (((name ++ c :: rest).dropWhile isOutside).reverse.dropWhile isOutside).reverse = _
  rw [dropWhile_append_cons inside, List.reverse_append, List.reverse_cons, List.append_assoc, List.singleton_append,
    dropWhile_append_cons inside, List.reverse_append, List.reverse_cons, List.reverse_reverse, List.append_assoc,
    List.singleton_append]

end Name

section Parse

variable {toAscii? : List Char → Option (List Char)} {scheme : String} {text : List Char} {url : Url}

theorem scheme_special? (h : special? toAscii? scheme text = some url) : url.scheme = scheme := by
  obtain ⟨⟨authority, rest⟩, -, made⟩ := Option.bind_eq_some_iff.1 h
  exact Option.some.inj made ▸ rfl

theorem scheme_other? (h : other? toAscii? scheme text = some url) : url.scheme = scheme := by
  unfold other? at h
  split at h
  · obtain ⟨⟨authority, rest⟩, -, made⟩ := Option.bind_eq_some_iff.1 h
    exact Option.some.inj made ▸ rfl
  · exact Option.some.inj h ▸ rfl
  · exact Option.some.inj h ▸ rfl

theorem scheme_file? (h : file? toAscii? text = some url) : url.scheme = "file" := by
  unfold file? at h
  split at h
  · exact Option.some.inj h ▸ rfl
  · split at h
    · exact Option.some.inj h ▸ rfl
    · dsimp only at h
      split at h
      · exact Option.some.inj h ▸ rfl
      · split at h
        · exact Option.some.inj h ▸ rfl
        · obtain ⟨host, -, made⟩ := Option.map_eq_some_iff.1 h
          rw [← made]
          split <;> rfl

/-- A URL has the scheme that its text without breaks and blank ends begins with, whatever names are in ASCII. -/
theorem scheme_of_parse? {text : String} (h : parse? toAscii? text = some url) :
    ∃ rest, scheme? (withoutBreaks (trim text.toList)) = some (url.scheme, rest) := by
  obtain ⟨⟨scheme, rest⟩, found, read⟩ := Option.bind_eq_some_iff.1 h
  refine ⟨rest, ?_⟩
  have own : url.scheme = scheme := by
    dsimp only at read
    split at read
    · next is => rw [scheme_file? read, is]
    · split at read
      · exact scheme_special? read
      · exact scheme_other? read
  rw [own, found]

instance (toAscii? : List Char → Option (List Char)) : @LawfulReader (.ofNames toAscii?) :=
  @LawfulReader.mk (.ofNames toAscii?) scheme_of_parse?

/-- With a name that the tables know. -/
example : (parse? (fun name => if name = "münchen.de".toList then some "xn--mnchen-3ya.de".toList else none)
    "HTTP://m%C3%BCnchen.de/a").map render = some "http://xn--mnchen-3ya.de/a" := by decide +kernel

end Parse

theorem mem_of_mem_trim {c : Char} {text : List Char} (among : c ∈ trim text) : c ∈ text := by
  have later := (List.dropWhile_sublist _).subset (List.mem_reverse.1 among)
  exact (List.dropWhile_sublist _).subset (List.mem_reverse.1 later)

/-- Nothing is taken from a name in which all characters are inside. -/
theorem withoutBreaks_of_inside {name : List Char} (inside : name.any isOutside = false) :
    withoutBreaks (name.dropWhile isOutside) = name := by
  have all : ∀ c ∈ name, ¬ isOutside c = true := List.any_eq_false.1 inside
  have kept : name.dropWhile isOutside = name := by
    cases name with
    | nil => rfl
    | cons c name => exact List.dropWhile_cons_of_neg (all c List.mem_cons_self)
  rw [kept, withoutBreaks, List.filter_eq_self]
  intro c among
  simpa using mt isOutside_of_isBreak (all c among)

theorem isSchemeName_of_outside {name : List Char} (outside : name.any isOutside = true) :
    isSchemeName name = false := by
  obtain ⟨c, among, is⟩ := List.any_eq_true.1 outside
  rw [Bool.eq_false_iff]
  intro named
  rw [isOutside_of_isSchemeChar (isSchemeChar_of_mem named among)] at is
  cases is

/-- The text of a URL as it stands has the scheme of the URL, unless that is hidden. -/
theorem schemeOf?_of_parse? [Reader] [LawfulReader] {text : String} {url : Url} (h : kind.parse? text = some url) :
    schemeOf? text = if isHidden text then none else some url.scheme := by
  obtain ⟨more, found⟩ := LawfulReader.scheme_of_read? (Option.filter_eq_some_iff.1 h).1
  have colon : ':' ∈ text.toList := mem_of_mem_trim (List.mem_filter.1 (colon_mem_of_scheme? found)).1
  obtain ⟨name, rest, cut, none⟩ := List.eq_append_cons_of_mem colon
  have before : text.toList.takeWhile (· ≠ ':') = name := by
    have all : ∀ c ∈ name, decide (c ≠ ':') = true :=
      fun c among => decide_eq_true fun same => none (same ▸ among)
    rw [cut, List.takeWhile_append_of_pos all, List.takeWhile_cons_of_neg (by simp), List.append_nil]
  rw [isHidden, before, schemeOf?, cut, scheme?_append none]
  cases outside : name.any isOutside with
  | true =>
    rw [isSchemeName_of_outside outside]
    rfl
  | false =>
    rw [cut, trim_append (by decide), withoutBreaks, List.filter_append, List.filter_cons_of_pos (by decide),
      ← withoutBreaks, withoutBreaks_of_inside outside, scheme?_append none] at found
    cases named : isSchemeName name with
    | true =>
      rw [named] at found
      exact congrArg (Option.map Prod.fst) found
    | false =>
      rw [named] at found
      cases found

end Url

namespace RecordHeader

section Reader

variable [Url.Reader] {line : String} {header : RecordHeader} {errors : List Finding} {url : Url}

/-- The URL of a header line is read from the text that the line has for it. -/
theorem url_of_parse? (h : parse? line = some (header, errors)) (value : header.url.value = some url) :
    ∃ text, header.url.text = some text ∧ Url.kind.parse? text = some url ∧ header.scheme = Url.schemeOf? text := by
  obtain ⟨size, text, address, date, mediaType, extra, length, same, -⟩ := ofFields_of_parse? h
  obtain rfl : header = (ofFields size text address date mediaType extra length).1 := congrArg Prod.fst same
  exact ⟨text, rfl, ValueKind.parse?_of_readSlot value, rfl⟩

/-- A line has the scheme that its URL is read with, and is the line of a version block if that is the scheme of
version blocks. Only where the scheme is hidden in the text the line has none, and is never that of a version block. So
it is with every reader of URLs that goes by the standard, whatever hosts it knows. -/
theorem scheme_of_url [Url.LawfulReader] (h : parse? line = some (header, errors)) (value : header.url.value = some url) :
    ∃ text, header.url.text = some text ∧
      header.scheme = (if Url.isHidden text then none else some url.scheme) ∧
      (header.isVersionBlock = true ↔ url.scheme = versionScheme ∧ Url.isHidden text = false) := by
  obtain ⟨text, isText, parsed, scheme⟩ := url_of_parse? h value
  rw [Url.schemeOf?_of_parse? parsed] at scheme
  refine ⟨text, isText, scheme, ?_⟩
  rw [isVersionBlock, scheme]
  cases Url.isHidden text with
  | true => simp
  | false => simp

end Reader

theorem scheme_of_url_mixed :
    let line := "FileDesc://a.arc 0.0.0.0 20200101000000 text/plain 0"
    ∃ header errors url, parse? line = some (header, errors) ∧ header.url.value = some url ∧
      header.scheme = some url.scheme ∧ header.isVersionBlock = true := by
  let header := (ofFields 53 "FileDesc://a.arc" "0.0.0.0" "20200101000000" "text/plain" none "0").1
  let url : Url := ⟨"filedesc", some ⟨"", "", .name "a.arc", none⟩, "", none, none⟩
  have parsed : parse? "FileDesc://a.arc 0.0.0.0 20200101000000 text/plain 0" = some (header, []) := by decide +kernel
  have value : header.url.value = some url := by decide +kernel
  obtain ⟨text, isText, scheme, block⟩ := scheme_of_url parsed value
  obtain rfl : "FileDesc://a.arc" = text := Option.some.inj isText
  exact ⟨header, [], url, parsed, value, scheme, block.2 (by decide)⟩

/-- The scheme of version blocks behind a control character: the URL has it and the line has none. Nothing is found
wrong with the line. -/
theorem exists_scheme_missing :
    let line := "\x01filedesc://a.arc 0.0.0.0 20200101000000 text/plain 0"
    ∃ header url, parse? line = some (header, []) ∧ header.url.value = some url ∧ url.scheme = versionScheme ∧
      header.scheme = none ∧ header.isVersionBlock = false := by
  let header := (ofFields 54 "\x01filedesc://a.arc" "0.0.0.0" "20200101000000" "text/plain" none "0").1
  let url : Url := ⟨"filedesc", some ⟨"", "", .name "a.arc", none⟩, "", none, none⟩
  exact ⟨header, url, by decide +kernel, by decide +kernel, by decide, by decide, by decide⟩

end RecordHeader
end ArcFile
