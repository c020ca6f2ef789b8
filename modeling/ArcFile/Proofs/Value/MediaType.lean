import ArcFile.Proofs.Text.Ascii
import ArcFile.Proofs.Value.MediaType.Descent
/-!
Content types by their grammar. Which texts are tokens, values and parameters, and what they say, is told here without a
reader: a text may be taken apart in any way that the grammar allows. A reader that never goes back takes
it apart in one way only; the two agree because no part of the grammar can begin with what the part before it could
go on with.
-/
namespace ArcFile.MediaType

open Text

variable {text token name value written spaces rest after : List Char} {pairs : List (List Char × List Char)}

/-! ## The grammar -/

/-- One or more token characters. -/
def IsToken (text : List Char) : Prop := text ≠ [] ∧ ∀ c ∈ text, isTokenChar c = true

/-- Spaces and tabs, or nothing. -/
def IsSpaces (text : List Char) : Prop := ∀ c ∈ text, isSpace c = true

/-- What a text between quotes stands for. -/
inductive Quotes : List Char → List Char → Prop
  | nil : Quotes [] []
  | pair (c : Char) {written value : List Char} (more : Quotes written value) : Quotes ('\\' :: c :: written) (c :: value)
  | plain {c : Char} {written value : List Char} (noQuote : c ≠ '"') (noBackslash : c ≠ '\\')
      (sound : isControl c = true → c = '\t') (more : Quotes written value) : Quotes (c :: written) (c :: value)

/-- What a text stands for as a value. -/
inductive Denotes : List Char → List Char → Prop
  | token {text : List Char} (isToken : IsToken text) : Denotes text text
  | quoted {written value : List Char} (quotes : Quotes written value) : Denotes ('"' :: (written ++ ['"'])) value

/-- Parameters, each after a semicolon, with their names and values. One more semicolon may end them. -/
inductive IsParameters : List Char → List (List Char × List Char) → Prop
  | nil : IsParameters [] []
  | semicolon {spaces : List Char} (blank : IsSpaces spaces) : IsParameters (';' :: spaces) []
  | cons {before name written value behind rest : List Char} {pairs : List (List Char × List Char)}
      (blankBefore : IsSpaces before) (isToken : IsToken name) (denotes : Denotes written value)
      (blankBehind : IsSpaces behind) (more : IsParameters rest pairs) :
      IsParameters (';' :: (before ++ (name ++ '=' :: (written ++ (behind ++ rest))))) ((name, value) :: pairs)

/-- The text is a content type, in which this type, this subtype and these parameters stand. -/
def IsMediaType (text type subtype : List Char) (pairs : List (List Char × List Char)) : Prop :=
  ∃ before behind parameters, IsSpaces before ∧ IsToken type ∧ IsToken subtype ∧ IsSpaces behind ∧
    IsParameters parameters pairs ∧ text = before ++ (type ++ '/' :: (subtype ++ (behind ++ parameters)))

/-- A parameter as it is kept: the name in lower case, the value as it is. -/
def kept (pair : List Char × List Char) : String × String := (String.ofList (lower pair.1), String.ofList pair.2)

/-- The parameters that these pairs make: the names by where each stands first, with the value that stands with it
last. -/
structure Gathers (pairs parameters : List (String × String)) : Prop where
  names : parameters.map Prod.fst = (pairs.map Prod.fst).eraseDups
  values : ∀ name value, (name, value) ∈ parameters → pairs.reverse.lookup name = some value

/-! ## Where a part ends -/

theorem stops_cons {c : Char} (other : isTokenChar c = false) (rest : List Char) : Stops (c :: rest) := by
  intro c' is
  exact Option.some.inj is ▸ other

theorem dropWhile_of_head {p : Char → Bool} (ends : ∀ c, rest.head? = some c → p c = false) :
    rest.dropWhile p = rest := by
  cases rest with
  | nil => rfl
  | cons c rest => rw [List.dropWhile_cons, ends c rfl, if_neg Bool.false_ne_true]

theorem stops_append (blank : IsSpaces spaces) (stops : Stops rest) : Stops (spaces ++ rest) := by
  cases spaces with
  | nil => exact stops
  | cons c more => exact stops_cons (isTokenChar_of_isSpace (blank c List.mem_cons_self)) _

theorem IsToken.not_space (isToken : IsToken text) (rest : List Char) : NoSpace (text ++ rest) := by
  obtain ⟨nonempty, all⟩ := isToken
  obtain ⟨b, more, rfl⟩ := List.exists_cons_of_ne_nil nonempty
  intro c is
  exact isSpace_of_isTokenChar (all c (Option.some.inj is ▸ List.mem_cons_self))

/-- What begins a list of parameters goes on with neither a token nor a run of spaces. -/
theorem IsParameters.head_eq (h : IsParameters text pairs) {c : Char} (is : text.head? = some c) : c = ';' := by
  cases h with
  | nil => cases is
  | semicolon => exact (Option.some.inj is).symm
  | cons => exact (Option.some.inj is).symm

theorem IsParameters.stops (h : IsParameters text pairs) : Stops text := by
  intro c is
  rw [h.head_eq is]
  decide

theorem IsParameters.not_space (h : IsParameters text pairs) : NoSpace text := by
  intro c is
  rw [h.head_eq is]
  decide

/-! ## What is read stands in the text -/

theorem isSpaces_takeWhile (text : List Char) : IsSpaces (text.takeWhile isSpace) :=
  List.all_eq_true.1 List.all_takeWhile

theorem token?_sound (read : token? text = some (token, after)) : text = token ++ after ∧ IsToken token := by
  obtain ⟨cut, nonempty⟩ := append_of_token? read
  refine ⟨cut, nonempty, ?_⟩
  unfold token? at read
  split at read
  · cases read
  · next found =>
    cases read
    exact found ▸ List.all_eq_true.1 List.all_takeWhile

theorem quoted?_sound (read : quoted? text = some (value, after)) :
    ∃ written, text = written ++ '"' :: after ∧ Quotes written value := by
  fun_induction quoted? text generalizing value with
  | case1 => cases read
  | case2 rest =>
    cases read
    exact ⟨[], rfl, .nil⟩
  | case3 c rest ih =>
    obtain ⟨⟨v, a⟩, found, same⟩ := Option.map_eq_some_iff.1 read
    cases same
    obtain ⟨written, rfl, quotes⟩ := ih found
    exact ⟨'\\' :: c :: written, rfl, .pair c quotes⟩
  | case4 => cases read
  | case5 c rest noQuote _ sound ih =>
    obtain ⟨⟨v, a⟩, found, same⟩ := Option.map_eq_some_iff.1 read
    cases same
    obtain ⟨written, rfl, quotes⟩ := ih found
    obtain ⟨noBackslash, sound⟩ := not_or.1 sound
    refine ⟨c :: written, rfl, .plain noQuote noBackslash (fun control => ?_) quotes⟩
    exact Decidable.byContradiction fun other => sound ⟨control, other⟩

theorem value?_sound (read : value? text = some (value, after)) :
    ∃ written, text = written ++ after ∧ Denotes written value := by
  unfold value? at read
  split at read
  · obtain ⟨written, rfl, quotes⟩ := quoted?_sound read
    exact ⟨'"' :: written ++ ['"'], by simp, .quoted quotes⟩
  · obtain ⟨rfl, token⟩ := token?_sound read
    exact ⟨value, rfl, .token token⟩

theorem parameter?_sound {pair : List Char × List Char} (read : parameter? text = some (pair, after)) :
    ∃ name written value, text = name ++ '=' :: (written ++ after) ∧ IsToken name ∧ Denotes written value ∧
      pair = (lower name, value) := by
  unfold parameter? at read
  split at read
  · next name rest found =>
    obtain ⟨⟨value, a⟩, valued, same⟩ := Option.map_eq_some_iff.1 read
    cases same
    obtain ⟨rfl, token⟩ := token?_sound found
    obtain ⟨written, rfl, denotes⟩ := value?_sound valued
    exact ⟨name, written, value, rfl, token, denotes, rfl⟩
  · cases read

/-- The pairs that are read have their names in lower case. -/
theorem parameters?_sound (read : parameters? text = some pairs) :
    ∃ standing, IsParameters text standing ∧ pairs = standing.map fun pair => (lower pair.1, pair.2) := by
  fun_induction parameters? text generalizing pairs with
  | case1 =>
    cases read
    exact ⟨[], .nil, rfl⟩
  | case2 rest none =>
    cases read
    have spaces : IsSpaces rest := by
      have cut := List.takeWhile_append_dropWhile (p := isSpace) (l := rest)
      rw [List.isEmpty_iff.1 none, List.append_nil] at cut
      exact cut ▸ isSpaces_takeWhile rest
    exact ⟨[], .semicolon spaces, rfl⟩
  | case3 => cases read
  | case4 rest _ pair after found _ ih =>
    obtain ⟨others, later, rfl⟩ := Option.map_eq_some_iff.1 read
    obtain ⟨standing, parameters, rfl⟩ := ih later
    obtain ⟨name, written, value, cut, token, denotes, rfl⟩ := parameter?_sound found
    have whole : rest = rest.takeWhile isSpace ++
        (name ++ '=' :: (written ++ (after.takeWhile isSpace ++ after.dropWhile isSpace))) := by
      rw [List.takeWhile_append_dropWhile, ← cut, List.takeWhile_append_dropWhile]
    rw [whole]
    exact ⟨(name, value) :: standing,
      .cons (isSpaces_takeWhile rest) token denotes (isSpaces_takeWhile after) parameters, rfl⟩
  | case5 => cases read

/-! ## What stands in the text is read -/

theorem token?_complete (isToken : IsToken text) (stops : Stops rest) : token? (text ++ rest) = some (text, rest) := by
  obtain ⟨nonempty, all⟩ := isToken
  obtain ⟨c, more, rfl⟩ := List.exists_cons_of_ne_nil nonempty
  obtain ⟨taken, left⟩ := span_append all stops
  rw [token?, taken, left]

theorem quoted?_plain {c : Char} (noQuote : c ≠ '"') (noBackslash : c ≠ '\\') (rest : List Char) :
    quoted? (c :: rest) = if isControl c ∧ c ≠ '\t' then none
      else (quoted? rest).map fun (value, after) => (c :: value, after) := by
  rw [quoted?]
  · simp [noBackslash]
  · exact noQuote
  · intro _ _ is
    exact absurd is noBackslash

theorem quoted?_complete (quotes : Quotes written value) (after : List Char) :
    quoted? (written ++ '"' :: after) = some (value, after) := by
  induction quotes with
  | nil => rfl
  | pair c _ ih => simp [quoted?, ih]
  | @plain c _ _ noQuote noBackslash sound _ ih =>
    have allowed : ¬(isControl c = true ∧ c ≠ '\t') := fun ⟨control, other⟩ => other (sound control)
    rw [List.cons_append, quoted?_plain noQuote noBackslash, if_neg allowed, ih]
    rfl

theorem value?_complete (denotes : Denotes written value) (stops : Stops rest) :
    value? (written ++ rest) = some (value, rest) := by
  cases denotes with
  | token isToken =>
    have noQuote (rest' : List Char) (is : value ++ rest = '"' :: rest') : False := by
      obtain ⟨c, more, rfl⟩ := List.exists_cons_of_ne_nil isToken.1
      obtain ⟨rfl, -⟩ := List.cons.inj is
      have quote := isToken.2 _ List.mem_cons_self
      exact absurd quote (by decide)
    rw [value?]
    · exact token?_complete isToken stops
    · exact noQuote
  | quoted quotes =>
    rw [List.cons_append, List.append_assoc]
    exact quoted?_complete quotes rest

theorem parameter?_complete (isToken : IsToken name) (denotes : Denotes written value) (stops : Stops rest) :
    parameter? (name ++ '=' :: (written ++ rest)) = some ((lower name, value), rest) := by
  have equals : Stops ('=' :: (written ++ rest)) := stops_cons (by decide) _
  simp only [parameter?, token?_complete isToken equals, value?_complete denotes stops, Option.map_some]

theorem parameters?_semicolon (rest : List Char) : parameters? (';' :: rest) =
    if (rest.dropWhile isSpace).isEmpty then some []
    else (parameter? (rest.dropWhile isSpace)).bind fun (pair, after) =>
      (parameters? (after.dropWhile isSpace)).map (pair :: ·) := by
  rw [parameters?]
  congr 1
  split
  · next none => simp only [none, Option.bind_none]
  · next found => simp only [found, Option.bind_some]

theorem parameters?_complete (parameters : IsParameters text pairs) :
    parameters? text = some (pairs.map fun pair => (lower pair.1, pair.2)) := by
  induction parameters with
  | nil => rw [parameters?]; rfl
  | @semicolon spaces blank =>
    have none : spaces.dropWhile isSpace = [] := by
      rw [← List.append_nil spaces, List.dropWhile_append_of_pos blank]
      rfl
    rw [parameters?_semicolon, none]
    rfl
  | @cons before name written value behind rest pairs blankBefore isToken denotes blankBehind more ih =>
    have found := parameter?_complete isToken denotes (stops_append blankBehind more.stops)
    obtain ⟨-, begins⟩ := span_append blankBefore (isToken.not_space ('=' :: (written ++ (behind ++ rest))))
    obtain ⟨-, goesOn⟩ := span_append blankBehind more.not_space
    have some : (name ++ '=' :: (written ++ (behind ++ rest))).isEmpty = false := by simp
    simp only [parameters?_semicolon, begins, some, Bool.false_eq_true, ↓reduceIte, found, Option.bind_some, goesOn, ih,
      Option.map_some, List.map_cons]

/-! ## The parameters that are kept -/

section Gathers

variable {pairs all all' : List (String × String)} {name value : String}

theorem nodup_eraseDups (names : List String) : names.eraseDups.Nodup := by
  induction len : names.length using Nat.strongRecOn generalizing names with
  | ind len ih =>
    cases names with
    | nil => simp
    | cons name names =>
      rw [List.eraseDups_cons, List.nodup_cons, List.mem_eraseDups, List.mem_filter]
      have shorter := List.length_filter_le (fun other => !other == name) names
      refine ⟨by simp, ih _ ?_ _ rfl⟩
      rw [← len, List.length_cons]
      omega

theorem names_put (name value : String) (all : List (String × String)) : (put name value all).map Prod.fst =
    if name ∈ all.map Prod.fst then all.map Prod.fst else all.map Prod.fst ++ [name] := by
  induction all with
  | nil => rfl
  | cons first rest ih =>
    obtain ⟨n, v⟩ := first
    by_cases same : n = name
    · simp [put, same]
    · rw [put, if_neg same, List.map_cons, ih]
      simp only [List.map_cons, List.mem_cons, Ne.symm same, false_or]
      split <;> rfl

/-- Among different names, the one that is put has its value and the others keep theirs. -/
theorem mem_put {n v : String} (distinct : (all.map Prod.fst).Nodup) (among : (n, v) ∈ put name value all) :
    n = name ∧ v = value ∨ n ≠ name ∧ (n, v) ∈ all := by
  induction all with
  | nil => simpa [put] using among
  | cons first rest ih =>
    obtain ⟨n', v'⟩ := first
    obtain ⟨new, distinct⟩ := List.nodup_cons.1 distinct
    unfold put at among
    split at among
    · next same =>
      rcases List.mem_cons.1 among with is | later
      · cases is
        exact .inl ⟨same, rfl⟩
      · refine .inr ⟨fun is => ?_, List.mem_cons_of_mem _ later⟩
        have old : n ∈ rest.map Prod.fst := List.mem_map_of_mem later
        exact new (by rwa [same, ← is])
    · next other =>
      rcases List.mem_cons.1 among with is | later
      · cases is
        exact .inr ⟨other, List.mem_cons_self⟩
      · rcases ih distinct later with is | ⟨other, old⟩
        · exact .inl is
        · exact .inr ⟨other, List.mem_cons_of_mem _ old⟩

theorem Gathers.distinct (h : Gathers pairs all) : (all.map Prod.fst).Nodup := by
  rw [h.names]
  exact nodup_eraseDups _

theorem Gathers.put (h : Gathers pairs all) (name value : String) :
    Gathers (pairs ++ [(name, value)]) (put name value all) where
  names := by
    rw [names_put, List.map_append, List.eraseDups_append, ← h.names]
    by_cases old : name ∈ pairs.map Prod.fst
    · have among : name ∈ all.map Prod.fst := by rwa [h.names, List.mem_eraseDups]
      rw [if_pos among]
      simp [List.removeAll, old]
    · have new : name ∉ all.map Prod.fst := by rwa [h.names, List.mem_eraseDups]
      rw [if_neg new]
      simp only [List.map_cons, List.map_nil, List.removeAll, List.elem_eq_mem, old, decide_false, Bool.not_false,
        List.filter_cons_of_pos, List.filter_nil]
      rfl
  values := by
    intro n v is
    rw [List.reverse_append, List.reverse_singleton, List.singleton_append, List.lookup_cons]
    rcases mem_put h.distinct is with ⟨rfl, rfl⟩ | ⟨other, old⟩
    · rw [beq_self_eq_true]
    · rw [beq_false_of_ne other]
      exact h.values n v old

theorem gathers_foldl (h : Gathers pairs all) (more : List (String × String)) :
    Gathers (pairs ++ more) (more.foldl (fun all pair => put pair.1 pair.2 all) all) := by
  induction more generalizing pairs all with
  | nil => rwa [List.append_nil]
  | cons pair more ih =>
    have := ih (h.put pair.1 pair.2)
    rwa [List.append_assoc] at this

theorem gathers_collect (pairs : List (List Char × List Char)) :
    Gathers (pairs.map fun pair => (String.ofList pair.1, String.ofList pair.2)) (collect pairs) := by
  have none : Gathers [] [] := ⟨rfl, fun _ _ among => by cases among⟩
  have := gathers_foldl none (pairs.map fun pair => (String.ofList pair.1, String.ofList pair.2))
  rwa [List.nil_append, List.foldl_map] at this

/-- The pairs leave no choice. -/
theorem Gathers.unique (h : Gathers pairs all) (h' : Gathers pairs all') : all = all' := by
  have names : all.map Prod.fst = all'.map Prod.fst := h.names.trans h'.names.symm
  apply List.ext_getElem
  · simpa using congrArg List.length names
  · intro i bound bound'
    have name : all[i].1 = all'[i].1 := by
      have := List.getElem_of_eq names (by simpa using bound)
      simpa using this
    have value := h.values all[i].1 all[i].2 (List.getElem_mem bound)
    have value' := h'.values all'[i].1 all'[i].2 (List.getElem_mem bound')
    rw [name, value'] at value
    exact Prod.ext name (Option.some.inj value).symm

end Gathers

/-! ## Whole texts -/

section Whole

variable {text : String} {media : MediaType} {type subtype : List Char}

/-- The content type that these parts make. -/
def ofParts (type subtype : List Char) (pairs : List (List Char × List Char)) : MediaType :=
  ⟨String.ofList (lower type), String.ofList (lower subtype), collect (pairs.map fun pair => (lower pair.1, pair.2))⟩

theorem gathers_ofParts (type subtype : List Char) (pairs : List (List Char × List Char)) :
    Gathers (pairs.map kept) (ofParts type subtype pairs).parameters := by
  have gathers := gathers_collect (pairs.map fun pair => (lower pair.1, pair.2))
  rwa [List.map_map] at gathers

theorem parse?_sound (read : parse? text = some media) :
    ∃ type subtype pairs, IsMediaType text.toList type subtype pairs ∧ media = ofParts type subtype pairs := by
  rw [parse?_eq_descend?] at read
  obtain ⟨⟨type, rest⟩, typed, read⟩ := Option.bind_eq_some_iff.1 read
  dsimp only at read
  split at read
  · obtain ⟨_, ⟨⟩, read⟩ := Option.bind_eq_some_iff.1 read
    obtain ⟨⟨subtype, behind⟩, subtyped, read⟩ := Option.bind_eq_some_iff.1 read
    obtain ⟨pairs, listed, read⟩ := Option.bind_eq_some_iff.1 read
    obtain ⟨cut, isType⟩ := token?_sound typed
    obtain ⟨rfl, isSubtype⟩ := token?_sound subtyped
    obtain ⟨standing, parameters, rfl⟩ := parameters?_sound listed
    refine ⟨type, subtype, standing, ⟨text.toList.takeWhile isSpace, behind.takeWhile isSpace, behind.dropWhile isSpace,
      isSpaces_takeWhile _, isType, isSubtype, isSpaces_takeWhile _, parameters, ?_⟩, (Option.some.inj read).symm⟩
    rw [List.takeWhile_append_dropWhile, ← cut, List.takeWhile_append_dropWhile]
  · cases read

theorem parse?_complete {pairs : List (List Char × List Char)} (h : IsMediaType text.toList type subtype pairs) :
    parse? text = some (ofParts type subtype pairs) := by
  obtain ⟨before, behind, parameters, blankBefore, isType, isSubtype, blankBehind, listed, cut⟩ := h
  obtain ⟨-, begins⟩ := span_append blankBefore (isType.not_space ('/' :: (subtype ++ (behind ++ parameters))))
  have typed := token?_complete isType (stops_cons (by decide) _ : Stops ('/' :: (subtype ++ (behind ++ parameters))))
  have subtyped := token?_complete isSubtype (stops_append blankBehind listed.stops)
  obtain ⟨-, goesOn⟩ := span_append blankBehind listed.not_space
  simp only [parse?_eq_descend?, descend?, cut, begins, typed, subtyped, goesOn, parameters?_complete listed,
    Option.bind_eq_bind, Option.bind_some, ofParts]
  rfl

/-- A text is a content type just if the grammar makes it one. Its type, its subtype and the names of its parameters are
those that stand in it, in lower case, and every name has the value that stands with it last. -/
theorem parse?_eq_some_iff_grammar (text : String) (media : MediaType) :
    ((parse? text).isSome ↔ ∃ type subtype pairs, IsMediaType text.toList type subtype pairs) ∧
    (parse? text = some media ↔ ∃ type subtype pairs, IsMediaType text.toList type subtype pairs ∧
      media.type = String.ofList (lower type) ∧ media.subtype = String.ofList (lower subtype) ∧
      Gathers (pairs.map kept) media.parameters) := by
  refine ⟨⟨fun some => ?_, fun ⟨type, subtype, pairs, h⟩ => ?_⟩, fun read => ?_,
    fun ⟨type, subtype, pairs, h, isType, isSubtype, gathers⟩ => ?_⟩
  · obtain ⟨media, read⟩ := Option.isSome_iff_exists.1 some
    obtain ⟨type, subtype, pairs, h, -⟩ := parse?_sound read
    exact ⟨type, subtype, pairs, h⟩
  · rw [parse?_complete h]
    rfl
  · obtain ⟨type, subtype, pairs, h, rfl⟩ := parse?_sound read
    exact ⟨type, subtype, pairs, h, rfl, rfl, gathers_ofParts type subtype pairs⟩
  · obtain ⟨t, s, parameters⟩ := media
    obtain rfl : t = String.ofList (lower type) := isType
    obtain rfl : s = String.ofList (lower subtype) := isSubtype
    obtain rfl : parameters = (ofParts type subtype pairs).parameters :=
      gathers.unique (gathers_ofParts type subtype pairs)
    exact parse?_complete h

end Whole

end ArcFile.MediaType
