import ArcFile.Value.MediaType
/-!
A content type read by descent: a token, a slash, a token, then the parameters one after the other, each part by a
function of its own that also gives what follows it. The machine that reads character by character reads the same. For
each of its places one lemma says what it makes of the text that is left; whatever a place has in common with others,
such as the spaces or the tokens that can stand there, is said once.
-/
namespace ArcFile.MediaType

open Text

/-- The rest of a quoted string after its opening quote, and what follows it. A backslash takes the
next character as it is. -/
def quoted? : List Char → Option (List Char × List Char)
  | [] => none
  | '"' :: rest => some ([], rest)
  | '\\' :: c :: rest => (quoted? rest).map fun (value, after) => (c :: value, after)
  | c :: rest =>
    if c = '\\' ∨ (isControl c ∧ c ≠ '\t') then none
    else (quoted? rest).map fun (value, after) => (c :: value, after)

/-- A token, which is never empty, and what follows it. -/
def token? (text : List Char) : Option (List Char × List Char) :=
  match text.takeWhile isTokenChar with
  | [] => none
  | c :: token => some (c :: token, text.dropWhile isTokenChar)

/-- A token or a quoted string, and what follows it. -/
def value? : List Char → Option (List Char × List Char)
  | '"' :: rest => quoted? rest
  | text => token? text

/-- A parameter without the blanks around it, and what follows it. -/
def parameter? (text : List Char) : Option ((List Char × List Char) × List Char) :=
  match token? text with
  | some (name, '=' :: rest) => (value? rest).map fun (value, after) => ((lower name, value), after)
  | _ => none

theorem length_of_quoted? {text value after : List Char} (h : quoted? text = some (value, after)) :
    after.length < text.length := by
  fun_induction quoted? text generalizing value after with
  | case1 => cases h
  | case2 rest =>
    obtain ⟨_, rfl⟩ := by simpa using h
    simp
  | case3 c rest ih =>
    obtain ⟨⟨v, a⟩, found, eq⟩ := Option.map_eq_some_iff.1 h
    have := ih found
    simp at eq
    simp [← eq.2]
    omega
  | case4 => cases h
  | case5 c rest _ _ _ ih =>
    obtain ⟨⟨v, a⟩, found, eq⟩ := Option.map_eq_some_iff.1 h
    have := ih found
    simp at eq
    simp [← eq.2]
    omega

theorem append_of_token? {text token after : List Char} (h : token? text = some (token, after)) :
    text = token ++ after ∧ token ≠ [] := by
  unfold token? at h
  split at h
  · cases h
  · next c tail found =>
    obtain ⟨rfl, rfl⟩ := by simpa using h
    exact ⟨by rw [← found, List.takeWhile_append_dropWhile], by simp⟩

theorem length_of_token? {text token after : List Char} (h : token? text = some (token, after)) :
    after.length < text.length := by
  obtain ⟨eq, nonempty⟩ := append_of_token? h
  have := List.length_pos_iff.2 nonempty
  rw [eq, List.length_append]
  omega

theorem length_of_value? {text value after : List Char} (h : value? text = some (value, after)) :
    after.length < text.length := by
  unfold value? at h
  split at h
  · have := length_of_quoted? h
    simp
    omega
  · exact length_of_token? h

theorem length_of_parameter? {text : List Char} {pair : List Char × List Char} {after : List Char}
    (h : parameter? text = some (pair, after)) : after.length < text.length := by
  unfold parameter? at h
  split at h
  · next name rest found =>
    obtain ⟨⟨v, a⟩, value, eq⟩ := Option.map_eq_some_iff.1 h
    have short := length_of_token? found
    have shorter := length_of_value? value
    simp at eq short
    rw [← eq.2]
    omega
  · cases h

/-- The parameters at the end of a content type, each after a semicolon. -/
def parameters? : List Char → Option (List (List Char × List Char))
  | [] => some []
  | ';' :: rest =>
    if (rest.dropWhile isSpace).isEmpty then some []
    else
      match found : parameter? (rest.dropWhile isSpace) with
      | none => none
      | some (pair, after) =>
        have : (after.dropWhile isSpace).length < rest.length + 1 := by
          have := length_of_parameter? found
          have := (List.dropWhile_suffix isSpace (l := after)).length_le
          have := (List.dropWhile_suffix isSpace (l := rest)).length_le
          omega
        (parameters? (after.dropWhile isSpace)).map (pair :: ·)
  | _ => none
termination_by text => text.length

/-- The pairs by the order of the first place of each name, with the last value of each. -/
def collect (pairs : List (List Char × List Char)) : List (String × String) :=
  pairs.foldl (fun all pair => put (String.ofList pair.1) (String.ofList pair.2) all) []

def descend? (text : String) : Option MediaType := do
  let (type, rest) ← token? (text.toList.dropWhile isSpace)
  let rest ← match rest with
    | '/' :: rest => some rest
    | _ => none
  let (subtype, rest) ← token? rest
  let pairs ← parameters? (rest.dropWhile isSpace)
  return ⟨String.ofList (lower type), String.ofList (lower subtype), collect pairs⟩

/-! ## Where a part ends -/

/-- No token goes on with this. -/
def Stops (text : List Char) : Prop := ∀ c, text.head? = some c → isTokenChar c = false

/-- No run of spaces goes on with this. -/
def NoSpace (text : List Char) : Prop := ∀ c, text.head? = some c → isSpace c = false

theorem isTokenChar_of_isSpace {c : Char} (space : isSpace c = true) : isTokenChar c = false := by
  simp only [isSpace, Bool.or_eq_true, beq_iff_eq] at space
  rcases space with rfl | rfl <;> decide

theorem isSpace_of_isTokenChar {c : Char} (token : isTokenChar c = true) : isSpace c = false := by
  cases space : isSpace c with
  | false => rfl
  | true => rw [isTokenChar_of_isSpace space] at token; cases token

theorem stops_dropWhile (text : List Char) : Stops (text.dropWhile isTokenChar) := by
  intro c is
  have ends := List.head?_dropWhile_not isTokenChar text
  rw [is] at ends
  exact ends

theorem noSpace_dropWhile (text : List Char) : NoSpace (text.dropWhile isSpace) := by
  intro c is
  have ends := List.head?_dropWhile_not isSpace text
  rw [is] at ends
  exact ends

theorem stops_of_token? {text token rest : List Char} (found : token? text = some (token, rest)) : Stops rest := by
  unfold token? at found
  split at found
  · cases found
  · obtain ⟨-, rfl⟩ := Prod.mk.inj (Option.some.inj found)
    exact stops_dropWhile text

theorem token?_cons {c : Char} (token : isTokenChar c = true) (rest : List Char) :
    token? (c :: rest) = some (c :: rest.takeWhile isTokenChar, rest.dropWhile isTokenChar) := by
  rw [token?, List.takeWhile_cons_of_pos token, List.dropWhile_cons_of_pos token]

theorem token?_of_stops {text : List Char} (stops : Stops text) : token? text = none := by
  cases text with
  | nil => rfl
  | cons c rest => rw [token?, List.takeWhile_cons_of_neg (by simp [stops c rfl])]

namespace Draft

/-- What the reader makes of the text that is left. -/
def run (text : List Char) (draft : Draft) : Option MediaType := (text.foldlM step draft).bind finish

theorem run_cons (c : Char) (rest : List Char) (draft : Draft) :
    run (c :: rest) draft = (draft.step c).bind (run rest) := by
  rw [run, List.foldlM_cons]
  exact Option.bind_assoc ..

/-- Drafts that do the same with the next character, and at the end, read the same. -/
theorem run_congr {text : List Char} {draft draft' : Draft} (ends : draft.finish = draft'.finish)
    (goes : ∀ c, text.head? = some c → draft.step c = draft'.step c) : run text draft = run text draft' := by
  cases text with
  | nil => exact ends
  | cons c rest => rw [run_cons, run_cons, goes c rfl]

/-! ## What places have in common -/

theorem run_spaces {draft : Draft} (stays : ∀ c, isSpace c = true → draft.step c = some draft) (text : List Char) :
    run text draft = run (text.dropWhile isSpace) draft := by
  induction text with
  | nil => rfl
  | cons c rest ih =>
    cases space : isSpace c with
    | false => rw [List.dropWhile_cons_of_neg (by simp [space])]
    | true => rw [List.dropWhile_cons_of_pos space, run_cons, stays c space, Option.bind_some, ih]

/-- The characters of a token are taken one by one, as `f` has them. -/
theorem run_span {f : Char → Char} (taken : String → Draft)
    (grows : ∀ s c, isTokenChar c = true → (taken s).step c = some (taken (s.push (f c)))) (text : List Char)
    (s : String) : run text (taken s) =
      run (text.dropWhile isTokenChar) (taken (s ++ String.ofList ((text.takeWhile isTokenChar).map f))) := by
  induction text generalizing s with
  | nil => simp
  | cons c rest ih =>
    cases token : isTokenChar c with
    | false =>
      have other : ¬isTokenChar c = true := by simp [token]
      simp [List.dropWhile_cons_of_neg other, List.takeWhile_cons_of_neg other]
    | true =>
      have whole : s.push (f c) ++ String.ofList ((rest.takeWhile isTokenChar).map f) =
          s ++ String.ofList ((c :: rest.takeWhile isTokenChar).map f) := by
        apply String.toList_injective
        simp
      rw [List.dropWhile_cons_of_pos token, List.takeWhile_cons_of_pos token, run_cons, grows s c token,
        Option.bind_some, ih, whole]

/-- Where a token has to stand, one is read. -/
theorem run_token {f : Char → Char} {draft : Draft} {text : List Char} (taken : String → Draft)
    (begins : ∀ c, isTokenChar c = true → draft.step c = some (taken (String.singleton (f c))))
    (grows : ∀ s c, isTokenChar c = true → (taken s).step c = some (taken (s.push (f c))))
    (ends : text = [] → draft.finish = none)
    (refuses : ∀ c, text.head? = some c → isTokenChar c = false → draft.step c = none) :
    run text draft = (token? text).bind fun (token, rest) => run rest (taken (String.ofList (token.map f))) := by
  cases text with
  | nil => exact ends rfl
  | cons c rest =>
    rw [run_cons]
    cases token : isTokenChar c with
    | false =>
      have stops : Stops (c :: rest) := fun c' is => Option.some.inj is ▸ token
      rw [refuses c rfl token, token?_of_stops stops]
      rfl
    | true =>
      have whole : String.singleton (f c) ++ String.ofList ((rest.takeWhile isTokenChar).map f) =
          String.ofList ((c :: rest.takeWhile isTokenChar).map f) := by
        apply String.toList_injective
        simp
      rw [begins c token, token?_cons token, Option.bind_some, Option.bind_some, run_span taken grows, whole]

/-! ## The places -/

variable {type subtype name value : String} {parameters : List (String × String)} {text : List Char}

theorem run_quoted (text : List Char) (value : String) : run text ⟨.quoted, type, subtype, parameters, name, value⟩ =
    (quoted? text).bind fun (more, after) =>
      run after ⟨.behindValue, type, subtype, put name (value ++ String.ofList more) parameters, "", ""⟩ := by
  -- one more character of the value, whether it is taken by the draft or in front of what is read later
  have longer (c : Char) (rest : List Char) (value : String) : ((quoted? rest).bind fun (more, after) =>
      run after ⟨.behindValue, type, subtype, put name (value.push c ++ String.ofList more) parameters, "", ""⟩) =
      ((quoted? rest).map fun (more, after) => (c :: more, after)).bind fun (more, after) =>
        run after ⟨.behindValue, type, subtype, put name (value ++ String.ofList more) parameters, "", ""⟩ := by
    cases quoted? rest with
    | none => rfl
    | some found =>
      have same : value.push c ++ String.ofList found.1 = value ++ String.ofList (c :: found.1) := by
        apply String.toList_injective
        simp
      simp only [Option.bind_some, Option.map_some, same]
  fun_induction quoted? text generalizing value with
  | case1 => rfl
  | case2 rest =>
    rw [run_cons]
    simp [step, keep]
  | case3 c rest ih => rw [← longer, ← ih, run_cons, step, if_pos rfl, Option.bind_some, run_cons, step, Option.bind_some]
  | case4 c rest _ last refused =>
    rcases refused with rfl | ⟨control, other⟩
    · cases rest with
      | nil => rfl
      | cons c' rest => exact (last c' rest rfl rfl).elim
    · have noQuote : c ≠ '"' := by
        rintro rfl
        cases control
      have noBackslash : c ≠ '\\' := by
        rintro rfl
        cases control
      simp only [run_cons, step, if_neg noBackslash, if_neg noQuote, if_pos (And.intro other control), Option.bind_none]
  | case5 c rest noQuote _ sound ih =>
    obtain ⟨noBackslash, allowed⟩ := not_or.1 sound
    have allowed : ¬(c ≠ '\t' ∧ isControl c = true) := fun h => allowed h.symm
    rw [← longer, ← ih]
    simp only [run_cons, step, if_neg noBackslash, if_neg noQuote, if_neg allowed, Option.bind_some]

/-- Behind a token that is a value it is as if the value had been closed. -/
theorem run_behindToken (stops : Stops text) : run text ⟨.token, type, subtype, parameters, name, value⟩ =
    run text ⟨.behindValue, type, subtype, put name value parameters, "", ""⟩ :=
  run_congr rfl fun c is => by simp only [step, stops c is, keep, Bool.false_eq_true, ↓reduceIte]

theorem run_behindEquals (text : List Char) : run text ⟨.behindEquals, type, subtype, parameters, name, ""⟩ =
    (value? text).bind fun (value, after) =>
      run after ⟨.behindValue, type, subtype, put name (String.ofList value) parameters, "", ""⟩ := by
  by_cases quote : ∃ rest, text = '"' :: rest
  · obtain ⟨rest, rfl⟩ := quote
    have empty (more : List Char) : "" ++ String.ofList more = String.ofList more := String.empty_append ..
    rw [run_cons, step, if_pos rfl, Option.bind_some, run_quoted, value?]
    simp only [empty]
  · have noQuote {c : Char} (is : text.head? = some c) : c ≠ '"' := by
      rintro rfl
      obtain ⟨rest, rfl⟩ := List.head?_eq_some_iff.1 is
      exact quote ⟨rest, rfl⟩
    have plain : value? text = token? text := by
      rw [value?]
      exact fun rest is => quote ⟨rest, is⟩
    have begins (c : Char) (token : isTokenChar c = true) :
        step ⟨.behindEquals, type, subtype, parameters, name, ""⟩ c =
          some ⟨.token, type, subtype, parameters, name, String.singleton c⟩ := by
      have noQuote : c ≠ '"' := by
        rintro rfl
        cases token
      simp only [step, if_neg noQuote, if_pos token]
      rfl
    have grows (value : String) (c : Char) (token : isTokenChar c = true) :
        step ⟨.token, type, subtype, parameters, name, value⟩ c =
          some ⟨.token, type, subtype, parameters, name, value.push c⟩ := by
      simp only [step, if_pos token]
    have refuses (c : Char) (is : text.head? = some c) (other : isTokenChar c = false) :
        step ⟨.behindEquals, type, subtype, parameters, name, ""⟩ c = none := by
      simp only [step, if_neg (noQuote is), other, Bool.false_eq_true, ↓reduceIte]
    rw [run_token (f := id) (fun value => ⟨.token, type, subtype, parameters, name, value⟩) begins grows (fun _ => rfl)
      refuses, plain]
    cases found : token? text with
    | none => rfl
    | some token =>
      simp only [Option.bind_some, List.map_id, run_behindToken (stops_of_token? found)]

/-- A parameter without the blanks around it. -/
theorem run_parameter (some : text ≠ []) (noSpace : NoSpace text) :
    run text ⟨.beforeParameter, type, subtype, parameters, "", ""⟩ =
      (parameter? text).bind fun (pair, after) => run after
        ⟨.behindValue, type, subtype, put (String.ofList pair.1) (String.ofList pair.2) parameters, "", ""⟩ := by
  have begins (c : Char) (token : isTokenChar c = true) :
      step ⟨.beforeParameter, type, subtype, parameters, "", ""⟩ c =
        .some ⟨.name, type, subtype, parameters, String.singleton c.toLower, ""⟩ := by
    simp only [step, isSpace_of_isTokenChar token, token, Bool.false_eq_true, ↓reduceIte]
    rfl
  have grows (name : String) (c : Char) (token : isTokenChar c = true) :
      step ⟨.name, type, subtype, parameters, name, ""⟩ c =
        .some ⟨.name, type, subtype, parameters, name.push c.toLower, ""⟩ := by
    simp only [step, if_pos token]
  have refuses (c : Char) (is : text.head? = .some c) (other : isTokenChar c = false) :
      step ⟨.beforeParameter, type, subtype, parameters, "", ""⟩ c = none := by
    simp only [step, noSpace c is, other, Bool.false_eq_true, ↓reduceIte]
  rw [run_token (fun name => ⟨.name, type, subtype, parameters, name, ""⟩) begins grows (fun none => absurd none some)
    refuses, parameter?]
  cases found : token? text with
  | none => rfl
  | some token =>
    obtain ⟨name, rest⟩ := token
    have stops := stops_of_token? found
    cases rest with
    | nil => rfl
    | cons c rest =>
      by_cases equals : c = '='
      · subst equals
        simp only [Option.bind_some, run_cons, step, stops '=' rfl, Bool.false_eq_true, ↓reduceIte, run_behindEquals]
        cases value? rest <;> rfl
      · simp only [Option.bind_some, run_cons, step, stops c rfl, if_neg equals, Bool.false_eq_true, ↓reduceIte,
          Option.bind_none]
        split
        · next same => simp at same; exact absurd same.2.1 equals
        · rfl

/-- The parameters, and the end of the text with them. -/
theorem run_parameters (parameters : List (String × String)) (noSpace : NoSpace text) :
    run text ⟨.behindValue, type, subtype, parameters, "", ""⟩ = (parameters? text).map fun pairs =>
      ⟨type, subtype, pairs.foldl (fun all pair => put (String.ofList pair.1) (String.ofList pair.2) all) parameters⟩ := by
  have semicolon (rest : List Char) (parameters : List (String × String)) :
      run (';' :: rest) ⟨.behindValue, type, subtype, parameters, "", ""⟩ =
        run (rest.dropWhile isSpace) ⟨.beforeParameter, type, subtype, parameters, "", ""⟩ := by
    rw [run_cons, ← run_spaces fun c space => by simp only [step, if_pos space]]
    rfl
  have stays (c : Char) (space : isSpace c = true) (parameters : List (String × String)) :
      step ⟨.behindValue, type, subtype, parameters, "", ""⟩ c = some ⟨.behindValue, type, subtype, parameters, "", ""⟩ := by
    have other : c ≠ ';' := by
      rintro rfl
      cases space
    simp only [step, if_neg other, if_pos space]
  fun_induction parameters? text generalizing parameters with
  | case1 => rfl
  | case2 rest none =>
    rw [semicolon, List.isEmpty_iff.1 none]
    rfl
  | case3 rest some refused =>
    rw [semicolon, run_parameter (by simpa using some) (noSpace_dropWhile rest), refused]
    rfl
  | case4 rest some pair after found _ ih =>
    rw [semicolon, run_parameter (by simpa using some) (noSpace_dropWhile rest), found]
    simp only [Option.bind_some]
    rw [run_spaces fun c space => stays c space _, ih _ (noSpace_dropWhile after)]
    cases parameters? (after.dropWhile isSpace) <;> rfl
  | case5 text noEnd noSemicolon =>
    cases text with
    | nil => exact (noEnd rfl).elim
    | cons c rest =>
      have other : c ≠ ';' := by
        rintro rfl
        exact noSemicolon rest rfl
      simp only [run_cons, step, if_neg other, noSpace c rfl, Bool.false_eq_true, ↓reduceIte]
      rfl

theorem run_behindSubtype (some : subtype ≠ "") (text : List Char) :
    run text ⟨.behindSubtype, type, subtype, parameters, "", ""⟩ =
      run (text.dropWhile isSpace) ⟨.behindValue, type, subtype, parameters, "", ""⟩ := by
  have stays (c : Char) (space : isSpace c = true) : step ⟨.behindSubtype, type, subtype, parameters, "", ""⟩ c =
      .some ⟨.behindSubtype, type, subtype, parameters, "", ""⟩ := by
    simp [step, some, space]
  rw [run_spaces stays]
  refine run_congr rfl fun c is => ?_
  simp [step, some, noSpace_dropWhile text c is]

/-- What follows a subtype is the same, whether spaces are in front of it or not. -/
theorem run_endOfSubtype (some : subtype ≠ "") (stops : Stops text) :
    run text ⟨.subtype, type, subtype, parameters, "", ""⟩ =
      run text ⟨.behindSubtype, type, subtype, parameters, "", ""⟩ := by
  refine run_congr (by simp [finish, some]) fun c is => ?_
  simp [step, stops c is, some]

theorem run_subtype (text : List Char) : run text ⟨.subtype, type, "", parameters, "", ""⟩ =
    (token? text).bind fun (subtype, rest) =>
      run (rest.dropWhile isSpace) ⟨.behindValue, type, String.ofList (lower subtype), parameters, "", ""⟩ := by
  have grows (subtype : String) (c : Char) (token : isTokenChar c = true) :
      step ⟨.subtype, type, subtype, parameters, "", ""⟩ c =
        some ⟨.subtype, type, subtype.push c.toLower, parameters, "", ""⟩ := by
    simp only [step, if_pos token]
  have refuses (c : Char) (_ : text.head? = some c) (other : isTokenChar c = false) :
      step ⟨.subtype, type, "", parameters, "", ""⟩ c = none := by
    simp [step, other]
  rw [run_token (fun subtype => ⟨.subtype, type, subtype, parameters, "", ""⟩) (grows "") grows (fun _ => rfl) refuses]
  cases found : token? text with
  | none => rfl
  | some token =>
    obtain ⟨subtype, rest⟩ := token
    have some : String.ofList (lower subtype) ≠ "" := by
      have nonempty := (append_of_token? found).2
      simpa [lower] using nonempty
    exact (run_endOfSubtype some (stops_of_token? found)).trans (run_behindSubtype some rest)

/-- Spaces, a type and a slash. -/
theorem run_start (text : List Char) : run text start = (token? (text.dropWhile isSpace)).bind fun (type, rest) =>
    match rest with
    | '/' :: rest => run rest ⟨.subtype, String.ofList (lower type), "", [], "", ""⟩
    | _ => none := by
  have begins (c : Char) (token : isTokenChar c = true) :
      step start c = some ⟨.type, String.singleton c.toLower, "", [], "", ""⟩ := by
    simp only [step, start, isSpace_of_isTokenChar token, token, Bool.false_eq_true, ↓reduceIte]
    rfl
  have grows (type : String) (c : Char) (token : isTokenChar c = true) :
      step ⟨.type, type, "", [], "", ""⟩ c = some ⟨.type, type.push c.toLower, "", [], "", ""⟩ := by
    simp only [step, if_pos token]
  have refuses (c : Char) (is : (text.dropWhile isSpace).head? = some c) (other : isTokenChar c = false) :
      step start c = none := by
    simp only [step, start, noSpace_dropWhile text c is, other, Bool.false_eq_true, ↓reduceIte]
  rw [run_spaces fun c space => by simp only [step, start, if_pos space],
    run_token (fun type => ⟨.type, type, "", [], "", ""⟩) begins grows (fun _ => rfl) refuses]
  cases found : token? (text.dropWhile isSpace) with
  | none => rfl
  | some token =>
    obtain ⟨type, rest⟩ := token
    have stops := stops_of_token? found
    cases rest with
    | nil => rfl
    | cons c rest =>
      by_cases slash : c = '/'
      · subst slash
        simp only [Option.bind_some, run_cons, step, stops '/' rfl, Bool.false_eq_true, ↓reduceIte]
        rfl
      · simp only [Option.bind_some, run_cons, step, stops c rfl, if_neg slash, Bool.false_eq_true, ↓reduceIte]
        split
        · next same => simp at same; exact absurd same.1 slash
        · rfl

end Draft

/-- The machine and the descent read the same. -/
theorem parse?_eq_descend? (text : String) : parse? text = descend? text := by
  have machine : parse? text = Draft.run text.toList .start := rfl
  rw [machine, Draft.run_start, descend?]
  cases token? (text.toList.dropWhile isSpace) with
  | none => rfl
  | some token =>
    obtain ⟨type, rest⟩ := token
    simp only [Option.bind_some, Option.bind_eq_bind]
    split
    · next rest =>
      simp only [Draft.run_subtype, Draft.run_parameters [] (noSpace_dropWhile _)]
      cases token? rest with
      | none => rfl
      | some token => exact Option.map_eq_bind
    · rfl

end ArcFile.MediaType
