import ArcFile.Proofs.Value.MediaType
/-!
The canonical text of a content type. It is read as the same content type, as long as no value holds a control
character: inside quotes a backslash lets any character in, but only quotes and backslashes get one when a value is
written.
-/
namespace ArcFile.MediaType

open Text

/-- There is no control character in the value but tabs. -/
def isPlain (value : List Char) : Bool := value.all fun c => !isControl c || c == '\t'

/-- The lower case of a token character is one, too. -/
theorem toLower_of_isTokenChar {c : Char} (token : isTokenChar c = true) :
    isTokenChar c.toLower = true ∧ c.toLower.toLower = c.toLower := by
  have ascii : ∀ n : Fin 128, isTokenChar (Char.ofNat n) = true →
      isTokenChar (Char.ofNat n).toLower = true ∧ (Char.ofNat n).toLower.toLower = (Char.ofNat n).toLower := by decide
  have small : c.toNat < 128 := by
    simp only [isTokenChar, Bool.and_eq_true, decide_eq_true_eq] at token
    exact token.1.1
  have here := ascii ⟨c.toNat, small⟩
  rw [Char.ofNat_toNat] at here
  exact here token

/-- A token in lower case. -/
def IsName (text : String) : Prop := IsToken text.toList ∧ lower text.toList = text.toList

theorem isName_lower {text : List Char} (h : IsToken text) : IsName (String.ofList (lower text)) := by
  unfold IsName
  rw [String.toList_ofList]
  refine ⟨⟨by simpa [lower] using h.1, fun c among => ?_⟩, ?_⟩
  · obtain ⟨c, stands, rfl⟩ := List.mem_map.1 among
    exact (toLower_of_isTokenChar (h.2 c stands)).1
  · rw [lower, lower, List.map_map]
    exact List.map_congr_left fun c among => (toLower_of_isTokenChar (h.2 c among)).2

/-- The type, the subtype and the names of the parameters are tokens in lower case, and no name stands twice. -/
structure IsCanonical (media : MediaType) : Prop where
  type : IsName media.type
  subtype : IsName media.subtype
  names : ∀ pair ∈ media.parameters, IsName pair.1
  distinct : (media.parameters.map Prod.fst).Nodup

theorem IsParameters.isToken {text : List Char} {pairs : List (List Char × List Char)} (h : IsParameters text pairs) :
    ∀ pair ∈ pairs, IsToken pair.1 := by
  induction h with
  | nil => exact fun _ none => by cases none
  | semicolon => exact fun _ none => by cases none
  | cons _ isToken _ _ _ ih =>
    intro pair among
    rcases List.mem_cons.1 among with rfl | later
    · exact isToken
    · exact ih pair later

/-- What is read is canonical, however it was written. -/
theorem isCanonical_of_parse? {text : String} {media : MediaType} (read : parse? text = some media) :
    media.IsCanonical := by
  obtain ⟨type, subtype, pairs, ⟨_, _, _, _, isType, isSubtype, _, parameters, _⟩, rfl⟩ := parse?_sound read
  have gathers := gathers_ofParts type subtype pairs
  refine ⟨isName_lower isType, isName_lower isSubtype, fun pair among => ?_, gathers.distinct⟩
  have name : pair.1 ∈ (pairs.map kept).map Prod.fst := by
    rw [← List.mem_eraseDups, ← gathers.names]
    exact List.mem_map_of_mem among
  obtain ⟨_, isKept, same⟩ := List.mem_map.1 name
  obtain ⟨standing, stands, rfl⟩ := List.mem_map.1 isKept
  exact same ▸ isName_lower (parameters.isToken standing stands)

/-! ## Reading what was written -/

section Render

variable {name value rest : List Char}

theorem quoted?_escape (value rest : List Char) :
    quoted? (escape value ++ '"' :: rest) = if isPlain value then some (value, rest) else none := by
  induction value with
  | nil => rfl
  | cons c value ih =>
    have whole : isPlain (c :: value) = ((!isControl c || c == '\t') && isPlain value) := rfl
    rw [escape, whole]
    by_cases escaped : c = '"' ∨ c = '\\'
    · have plain : (!isControl c || c == '\t') = true := by rcases escaped with rfl | rfl <;> decide
      rw [if_pos escaped, List.cons_append, List.cons_append, quoted?, ih, plain, Bool.true_and]
      split <;> rfl
    · obtain ⟨noQuote, noBackslash⟩ := not_or.1 escaped
      rw [if_neg escaped, List.cons_append, quoted?_plain noQuote noBackslash, ih]
      by_cases plain : isControl c = true ∧ c ≠ '\t'
      · have other : (!isControl c || c == '\t') = false := by simp [plain.1, plain.2]
        rw [if_pos plain, other, Bool.false_and]
        rfl
      · have allowed : (!isControl c || c == '\t') = true := by
          cases control : isControl c with
          | false => rfl
          | true => simpa [control] using plain
        rw [if_neg plain, allowed, Bool.true_and]
        split <;> rfl

theorem IsToken.isPlain (h : IsToken value) : isPlain value = true := by
  refine List.all_eq_true.2 fun c among => ?_
  have token := h.2 c among
  simp only [isTokenChar, Bool.and_eq_true] at token
  rw [token.1.2]
  rfl

theorem value?_renderValue (stops : Stops rest) :
    value? (renderValue value ++ rest) = if isPlain value then some (value, rest) else none := by
  unfold renderValue
  split
  · next token =>
    have isToken : IsToken value := by simpa [IsToken] using token
    rw [isToken.isPlain, if_pos rfl]
    exact value?_complete (.token isToken) stops
  · rw [List.append_assoc, List.singleton_append]
    exact quoted?_escape value rest

theorem parameter?_render (isToken : IsToken name) (same : lower name = name) (stops : Stops rest) :
    parameter? (name ++ '=' :: (renderValue value ++ rest)) =
      if isPlain value then some ((name, value), rest) else none := by
  have equals : Stops ('=' :: (renderValue value ++ rest)) := stops_cons (by decide) _
  simp only [parameter?, token?_complete isToken equals, value?_renderValue stops, same]
  split <;> rfl

variable {parameters : List (String × String)}

/-- The text of some parameters. -/
def renderAll (parameters : List (String × String)) : List Char :=
  parameters.flatMap fun (name, value) => renderParameter name value

theorem head_renderAll {c : Char} (is : (renderAll parameters).head? = some c) : c = ';' := by
  cases parameters with
  | nil => cases is
  | cons pair parameters => exact (Option.some.inj is).symm

theorem stops_renderAll (parameters : List (String × String)) : Stops (renderAll parameters) := by
  intro c is
  rw [head_renderAll is]
  decide

theorem dropWhile_renderAll (parameters : List (String × String)) :
    (renderAll parameters).dropWhile isSpace = renderAll parameters := by
  apply dropWhile_of_head
  intro c is
  rw [head_renderAll is]
  decide

theorem parameters?_renderAll (names : ∀ pair ∈ parameters, IsName pair.1) : parameters? (renderAll parameters) =
    if parameters.all fun pair => isPlain pair.2.toList then
      some (parameters.map fun pair => (pair.1.toList, pair.2.toList))
    else none := by
  induction parameters with
  | nil => rw [renderAll, List.flatMap_nil, parameters?]; rfl
  | cons pair parameters ih =>
    obtain ⟨name, value⟩ := pair
    obtain ⟨isToken, same⟩ := names (name, value) List.mem_cons_self
    have later := ih fun pair among => names pair (List.mem_cons_of_mem _ among)
    have cut : renderAll ((name, value) :: parameters) =
        ';' :: ([' '] ++ (name.toList ++ '=' :: (renderValue value.toList ++ renderAll parameters))) := by
      simp [renderAll, renderParameter]
    have blank : IsSpaces [' '] := by simp [IsSpaces, isSpace]
    obtain ⟨-, begins⟩ := span_append blank (isToken.not_space ('=' :: (renderValue value.toList ++ renderAll parameters)))
    have some : (name.toList ++ '=' :: (renderValue value.toList ++ renderAll parameters)).isEmpty = false := by simp
    rw [cut, parameters?_semicolon, begins, some, if_neg Bool.false_ne_true,
      parameter?_render isToken same (stops_renderAll parameters), List.all_cons]
    cases isPlain value.toList with
    | false => rfl
    | true =>
      simp only [↓reduceIte, Option.bind_some, dropWhile_renderAll, later, Bool.true_and]
      split <;> rfl

theorem put_of_not_mem {all : List (String × String)} {name value : String} (new : name ∉ all.map Prod.fst) :
    put name value all = all ++ [(name, value)] := by
  induction all with
  | nil => rfl
  | cons first all ih =>
    obtain ⟨other, later⟩ := not_or.1 fun among => new (List.mem_cons.2 among)
    rw [put, if_neg (Ne.symm other), ih later]
    rfl

/-- Different names are kept as they stand. -/
theorem foldl_put {all : List (String × String)} (distinct : ((all ++ parameters).map Prod.fst).Nodup) :
    parameters.foldl (fun all pair => put pair.1 pair.2 all) all = all ++ parameters := by
  induction parameters generalizing all with
  | nil => exact (List.append_nil all).symm
  | cons pair parameters ih =>
    have new : pair.1 ∉ all.map Prod.fst := by
      rw [List.map_append, List.nodup_append] at distinct
      exact fun among => distinct.2.2 _ among _ (List.mem_map_of_mem List.mem_cons_self) rfl
    rw [List.append_cons] at distinct ⊢
    rw [List.foldl_cons, put_of_not_mem new, ih distinct]

theorem collect_eq_self (distinct : (parameters.map Prod.fst).Nodup) :
    collect (parameters.map fun pair => (pair.1.toList, pair.2.toList)) = parameters := by
  rw [collect, List.foldl_map]
  simp only [String.ofList_toList]
  exact foldl_put (by rwa [List.nil_append])

/-- What a canonical content type is read as, once it is written. -/
theorem parse?_render {media : MediaType} (h : media.IsCanonical) : parse? media.render =
    if media.parameters.all fun pair => isPlain pair.2.toList then some media else none := by
  obtain ⟨type, subtype, parameters⟩ := media
  obtain ⟨isType, sameType⟩ := h.type
  obtain ⟨isSubtype, sameSubtype⟩ := h.subtype
  have cut : (render ⟨type, subtype, parameters⟩).toList =
      type.toList ++ '/' :: (subtype.toList ++ renderAll parameters) := by
    simp [render, renderAll]
  have begins : (type.toList ++ '/' :: (subtype.toList ++ renderAll parameters)).dropWhile isSpace =
      type.toList ++ '/' :: (subtype.toList ++ renderAll parameters) := dropWhile_of_head (isType.not_space _)
  have typed := token?_complete isType (stops_cons (by decide) _ : Stops ('/' :: (subtype.toList ++ renderAll parameters)))
  have subtyped := token?_complete isSubtype (stops_renderAll parameters)
  have collected : collect (parameters.map fun pair => (pair.1.toList, pair.2.toList)) = parameters :=
    collect_eq_self h.distinct
  simp only [parse?_eq_descend?, descend?, cut, begins, typed, subtyped, dropWhile_renderAll,
    parameters?_renderAll h.names, Option.bind_eq_bind, Option.bind_some, sameType, sameSubtype, String.ofList_toList]
  split
  · rw [Option.bind_some, collected]
    rfl
  · rfl

end Render

/-- What is read from a text has a canonical text that is read as the same again if it is plain, and cannot be read at
all if a value holds a control character. -/
theorem parse?_render_of_parse? {text : String} {media : MediaType} (read : parse? text = some media) :
    parse? media.render = if media.parameters.all fun pair => isPlain pair.2.toList then some media else none :=
  parse?_render (isCanonical_of_parse? read)

/-- Case and order are kept, and a name that stands twice has its last value. -/
theorem parse?_render_of_parse?_mixed :
    parse? " TEXT/Plain ;b=\"x \\\"y\\\\\";Charset=utf-8;B=\"\"" = some ⟨"text", "plain", [("b", ""), ("charset", "utf-8")]⟩ ∧
    parse? (render ⟨"text", "plain", [("b", ""), ("charset", "utf-8")]⟩) =
      some ⟨"text", "plain", [("b", ""), ("charset", "utf-8")]⟩ := by
  have read : parse? " TEXT/Plain ;b=\"x \\\"y\\\\\";Charset=utf-8;B=\"\"" =
    some ⟨"text", "plain", [("b", ""), ("charset", "utf-8")]⟩ := by decide +kernel
  exact ⟨read, parse?_render_of_parse? read⟩

/-- A backslash lets a control character into a value, but none is written for it. -/
theorem control_character_not_read_back :
    parse? "a/b;c=\"\\\x01\"" = some ⟨"a", "b", [("c", "\x01")]⟩ ∧ parse? (render ⟨"a", "b", [("c", "\x01")]⟩) = none := by
  decide +kernel

end ArcFile.MediaType
