import ArcFile.Proofs.Text.Numeral
import ArcFile.Value.Address
/-!
The texts of IP addresses by their grammar. An IPv4 address is spelled in one way only, which is the one it is written
in; an IPv6 address has eight groups of up to four hexadecimal digits, of which `::` may leave out a run of zeros, and
the last two may be spelled as an IPv4 address. `spelled?_eq_some_iff` shows that just these texts are read, and
`looksRight_of_spells` that each of them has the shape of an address.
-/
namespace ArcFile.Address

open Text

variable {text run rest spelled : List Char} {gs : List UInt16} {g : UInt16} {a : V4} {dotted : Bool}

/-! ## The grammar -/

/-- One to four hexadecimal digits. -/
def IsGroup (g : UInt16) (text : List Char) : Prop := text.length ≤ 4 ∧ Decimal.readNat? 16 text = some g.toNat

/-- Groups with colons between them. If they are `dotted`, the last two are spelled as an IPv4 address. -/
inductive IsGroups : Bool → List UInt16 → List Char → Prop
  | one {g : UInt16} {text : List Char} (group : IsGroup g text) : IsGroups false [g] text
  | dotted (a : V4) : IsGroups true a.toGroups a.render.toList
  | more {g : UInt16} {text rest : List Char} {dotted : Bool} {gs : List UInt16} (group : IsGroup g text)
      (later : IsGroups dotted gs rest) : IsGroups dotted (g :: gs) (text ++ ':' :: rest)

/-- Such groups, or none. -/
def IsRun (dotted : Bool) (gs : List UInt16) (text : List Char) : Prop :=
  gs = [] ∧ dotted = false ∧ text = [] ∨ IsGroups dotted gs text

/-- The text is one that spells this address. -/
inductive Spells : Address → List Char → Prop
  | v4 (a : V4) : Spells (.v4 a) a.render.toList
  | whole {dotted : Bool} {gs : List UInt16} {text : List Char} (groups : IsGroups dotted gs text)
      (eight : gs.length = 8) : Spells (.v6 (.ofGroups gs)) text
  | shortened {dotted : Bool} {front back : List UInt16} {before after : List Char} (first : IsRun false front before)
      (last : IsRun dotted back after) (fewer : front.length + back.length < 8) :
      Spells (.v6 (.ofGroups (front ++ List.replicate (8 - front.length - back.length) 0 ++ back)))
        (before ++ ':' :: ':' :: after)

/-! ## Numbers -/

/-- No digit of this base goes on with the text. -/
def Ends (base : Nat) (text : List Char) : Prop := ∀ c, text.head? = some c → (Decimal.digitIn? base c).isSome = false

theorem ends_nil (base : Nat) : Ends base [] := by
  intro c none
  cases none

theorem ends_cons {base : Nat} {c : Char} (other : (Decimal.digitIn? base c).isSome = false) (rest : List Char) :
    Ends base (c :: rest) := by
  intro d is
  cases is
  exact other

theorem digits?_eq_some_iff {base most : Nat} : digits? base most text = some (run, rest) ↔
    text = run ++ rest ∧ run ≠ [] ∧ run.length ≤ most ∧ (∀ c ∈ run, (Decimal.digitIn? base c).isSome = true) ∧
      Ends base rest := by
  unfold digits?
  constructor
  · intro found
    dsimp only at found
    split at found
    · cases found
    · next within =>
      obtain ⟨rfl, rfl⟩ := Prod.mk.inj (Option.some.inj found)
      obtain ⟨nonempty, short⟩ : text.takeWhile (fun c => (Decimal.digitIn? base c).isSome) ≠ [] ∧
          (text.takeWhile fun c => (Decimal.digitIn? base c).isSome).length ≤ most := by simpa using within
      refine ⟨List.takeWhile_append_dropWhile.symm, nonempty, short, fun c among => List.all_eq_true.1 List.all_takeWhile c among, ?_⟩
      intro c is
      have := List.head?_dropWhile_not (fun c => (Decimal.digitIn? base c).isSome) text
      rw [is] at this
      simpa using this
  · rintro ⟨rfl, nonempty, short, all, ends⟩
    obtain ⟨taken, left⟩ := span_append all ends
    rw [taken, left]
    have within : ¬ (run.isEmpty || decide (most < run.length)) = true := by simp [nonempty, short]
    exact if_neg within

theorem length_toDigits_octet (b : UInt8) : (Nat.toDigits 10 b.toNat).length ≤ 3 := by
  have small : b.toNat < 256 := b.toNat_lt
  rw [Nat.length_toDigits_le_iff (by decide) (by decide)]
  omega

theorem octet?_eq_some_iff {b : UInt8} :
    octet? text = some (b, rest) ↔ text = Nat.toDigits 10 b.toNat ++ rest ∧ Ends 10 rest := by
  simp only [octet?, Option.bind_eq_bind, Option.bind_eq_some_iff, Prod.exists, digits?_eq_some_iff]
  constructor
  · rintro ⟨run, rest', ⟨rfl, nonempty, short, all, ends⟩, n, read, found⟩
    split at found
    · cases found
    · next fits =>
      obtain ⟨rfl, rfl⟩ := Prod.mk.inj (Option.some.inj found)
      obtain ⟨leading, small⟩ := not_or.1 fits
      have digits : ∀ c ∈ run, c.isDigit = true := fun c among => Decimal.isDigit_of_digitIn? (all c among)
      rw [Decimal.readNat?_of_isDigit nonempty digits] at read
      obtain rfl := Option.some.inj read
      obtain ⟨c, more, rfl⟩ := List.exists_cons_of_ne_nil nonempty
      have own : (UInt8.ofNat (Nat.ofDigitChars 10 (c :: more) 0)).toNat = Nat.ofDigitChars 10 (c :: more) 0 := by
        rw [UInt8.toNat_ofNat']
        omega
      have alone : c = '0' → more = [] := by
        rintro rfl
        simpa using leading
      rw [own, Decimal.toDigits_ofDigitChars digits alone]
      exact ⟨rfl, ends⟩
  · rintro ⟨rfl, ends⟩
    have small : b.toNat < 256 := b.toNat_lt
    have all : ∀ c ∈ Nat.toDigits 10 b.toNat, (Decimal.digitIn? 10 c).isSome = true := fun c among =>
      Decimal.isSome_digitIn?_of_isDigit (Nat.le_refl 10) (Decimal.isDigit_of_mem_toDigits among)
    refine ⟨_, rest, ⟨rfl, Nat.toDigits_ne_nil, length_toDigits_octet b, all, ends⟩, b.toNat, Decimal.readNat?_toDigits _, ?_⟩
    have fits : ¬ ((Nat.toDigits 10 b.toNat).head? = some '0' ∧ 1 < (Nat.toDigits 10 b.toNat).length ∨ 255 < b.toNat) := by
      rintro (⟨zero, two⟩ | large)
      · rw [Decimal.eq_zero_of_head? zero] at two
        exact absurd two (by decide)
      · omega
    rw [if_neg fits, UInt8.ofNat_toNat]
    rfl

theorem group?_eq_some_iff :
    group? text = some (g, rest) ↔ ∃ run, IsGroup g run ∧ text = run ++ rest ∧ Ends 16 rest := by
  simp only [group?, Option.bind_eq_bind, Option.bind_eq_some_iff, Prod.exists, digits?_eq_some_iff]
  constructor
  · rintro ⟨run, rest', ⟨rfl, nonempty, short, -, ends⟩, n, read, found⟩
    obtain ⟨rfl, rfl⟩ := Prod.mk.inj (Option.some.inj found)
    refine ⟨run, ⟨short, ?_⟩, rfl, ends⟩
    have within : n < 1 * 16 ^ run.length := by
      unfold Decimal.readNat? at read
      split at read
      · cases read
      · exact Decimal.lt_of_continue? read
    have most : 16 ^ run.length ≤ 16 ^ 4 := Nat.pow_le_pow_right (by decide) short
    rw [read, UInt16.toNat_ofNat', Nat.mod_eq_of_lt (by omega)]
  · rintro ⟨run, ⟨short, read⟩, rfl, ends⟩
    have digits := read
    unfold Decimal.readNat? at digits
    split at digits
    · cases digits
    · next nonempty =>
      refine ⟨run, rest, ⟨rfl, by simpa using nonempty, short, Decimal.isSome_of_continue? digits, ends⟩, _, read, ?_⟩
      rw [UInt16.ofNat_toNat]
      rfl

/-! ## IPv4 addresses -/

theorem skip?_eq_some_iff {c : Char} : skip? c text = some rest ↔ text = c :: rest := by
  cases text with
  | nil => simp [skip?]
  | cons first more => by_cases same : first = c <;> simp [skip?, same]

theorem toList_render (p q r s : UInt8) : (⟨#v[p, q, r, s]⟩ : V4).render.toList =
    Nat.toDigits 10 p.toNat ++ '.' :: (Nat.toDigits 10 q.toNat ++ '.' ::
      (Nat.toDigits 10 r.toNat ++ '.' :: Nat.toDigits 10 s.toNat)) := by
  simp [V4.render, String.intercalate_cons_cons]

/-- An address is written as its four octets with points between them. -/
theorem exists_render (a : V4) : ∃ p q r s : UInt8, a = ⟨#v[p, q, r, s]⟩ ∧ a.render.toList =
    Nat.toDigits 10 p.toNat ++ '.' :: (Nat.toDigits 10 q.toNat ++ '.' ::
      (Nat.toDigits 10 r.toNat ++ '.' :: Nat.toDigits 10 s.toNat)) := by
  obtain ⟨⟨⟨octets⟩, four⟩⟩ := a
  match octets, four with
  | [p, q, r, s], _ => exact ⟨p, q, r, s, rfl, toList_render p q r s⟩

/-- An IPv4 address is spelled as it is written. -/
theorem v4?_eq_some_iff : v4? text = some (a, rest) ↔ text = a.render.toList ++ rest ∧ Ends 10 rest := by
  have point (more : List Char) : Ends 10 ('.' :: more) := ends_cons (by decide) more
  simp only [v4?, Option.bind_eq_bind, Option.bind_eq_some_iff, Prod.exists, octet?_eq_some_iff, skip?_eq_some_iff]
  constructor
  · rintro ⟨p, _, ⟨rfl, -⟩, _, rfl, q, _, ⟨rfl, -⟩, _, rfl, r, _, ⟨rfl, -⟩, _, rfl, s, _, ⟨rfl, ends⟩, found⟩
    cases found
    rw [toList_render]
    exact ⟨by simp, ends⟩
  · rintro ⟨rfl, ends⟩
    obtain ⟨p, q, r, s, rfl, is⟩ := exists_render a
    rw [is]
    refine ⟨p, _, ⟨?_, point _⟩, _, rfl, q, _, ⟨rfl, point _⟩, _, rfl, r, _, ⟨rfl, point _⟩, _, rfl, s, rest,
      ⟨rfl, ends⟩, rfl⟩
    simp

/-! ## Groups -/

/-- Nothing more is read: the text is over, or zeros are left out. -/
def Closes (text : List Char) : Prop := text = [] ∨ ∃ more, text = ':' :: ':' :: more

/-- What may follow a group of an IPv6 address. -/
def Follows (text : List Char) : Prop := text = [] ∨ ∃ more, text = ':' :: more

theorem Closes.follows (closes : Closes text) : Follows text := by
  rcases closes with rfl | ⟨more, rfl⟩
  · exact .inl rfl
  · exact .inr ⟨':' :: more, rfl⟩

theorem Follows.ends {base : Nat} (follows : Follows text) : Ends base text := by
  rcases follows with rfl | ⟨more, rfl⟩
  · exact ends_nil base
  · exact ends_cons rfl more

theorem IsGroup.all (group : IsGroup g text) : text ≠ [] ∧ ∀ c ∈ text, isHexDigit c = true := by
  have read := group.2
  unfold Decimal.readNat? at read
  split at read
  · cases read
  · next nonempty => exact ⟨by simpa using nonempty, Decimal.isSome_of_continue? read⟩

/-- What an IPv4 address begins with. -/
theorem exists_point (a : V4) : ∃ digits more, a.render.toList = digits ++ '.' :: more ∧
    ∀ c ∈ digits, isHexDigit c = true := by
  obtain ⟨p, q, r, s, -, is⟩ := exists_render a
  refine ⟨_, _, is, ?_⟩
  intro c among
  exact Decimal.isSome_digitIn?_of_isDigit (by decide) (Decimal.isDigit_of_mem_toDigits among)

/-- An IPv4 address does not begin with hexadecimal digits that a colon or the end follows. -/
theorem v4?_eq_none (all : ∀ c ∈ run, isHexDigit c = true) (follows : Follows rest) : v4? (run ++ rest) = none := by
  cases found : v4? (run ++ rest) with
  | none => rfl
  | some read =>
    obtain ⟨a, after⟩ := read
    obtain ⟨same, -⟩ := v4?_eq_some_iff.1 found
    obtain ⟨digits, more, is, hex⟩ := exists_point a
    rw [is, List.append_assoc, List.cons_append] at same
    have left := congrArg (List.dropWhile isHexDigit) same
    rw [(span_append all follows.ends).2, (span_append hex (ends_cons (by decide) _)).2] at left
    rcases follows with rfl | ⟨_, rfl⟩ <;> cases left

theorem group?_eq_none (follows : Follows text) : group? text = none := by
  cases found : group? text with
  | none => rfl
  | some read =>
    obtain ⟨g, after⟩ := read
    obtain ⟨run, group, rfl, -⟩ := group?_eq_some_iff.1 found
    obtain ⟨nonempty, all⟩ := group.all
    obtain ⟨c, more, rfl⟩ := List.exists_cons_of_ne_nil nonempty
    have ends : Ends 16 (c :: more ++ after) := follows.ends
    have other := ends c rfl
    rw [← isHexDigit, all c List.mem_cons_self] at other
    cases other

/-- Where the next group begins: behind a colon, but for the first. -/
def start? (first : Bool) (text : List Char) : Option (List Char) := if first then some text else skip? ':' text

/-- Where there is no group, none is read. -/
theorem groups_none (first : Bool) (most : Nat) (closes : ∀ start, start? first text = some start → Follows start) :
    groups first most text = ([], false, text) := by
  cases most with
  | zero => rfl
  | succ most =>
    unfold groups
    split
    · rfl
    · next start begins =>
      have follows := closes start begins
      have nothing : ∀ c ∈ ([] : List Char), isHexDigit c = true := by simp
      have noAddress : v4? start = none := v4?_eq_none nothing follows
      rw [noAddress, ite_self, group?_eq_none follows]

/-- Groups that are read stand there. -/
theorem groups_sound {first : Bool} {most : Nat} (read : groups first most text = (gs, dotted, rest)) :
    gs.length ≤ most ∧ (gs = [] ∧ dotted = false ∧ rest = text ∨
      ∃ spelled, IsGroups dotted gs spelled ∧ start? first text = some (spelled ++ rest)) := by
  induction most generalizing first text gs with
  | zero =>
    cases read
    exact ⟨Nat.le_refl 0, .inl ⟨rfl, rfl, rfl⟩⟩
  | succ most ih =>
    unfold groups at read
    split at read
    · cases read
      exact ⟨Nat.zero_le _, .inl ⟨rfl, rfl, rfl⟩⟩
    · next start begins =>
      split at read
      · next a after address =>
        obtain ⟨rfl, rest'⟩ := Prod.mk.inj read
        obtain ⟨rfl, rfl⟩ := Prod.mk.inj rest'
        split at address
        · cases address
        · next two =>
          obtain ⟨rfl, -⟩ := v4?_eq_some_iff.1 address
          refine ⟨?_, .inr ⟨_, .dotted a, begins⟩⟩
          rw [V4.toGroups, List.length_cons, List.length_cons, List.length_nil]
          omega
      · split at read
        · cases read
          exact ⟨Nat.zero_le _, .inl ⟨rfl, rfl, rfl⟩⟩
        · next g after found =>
          obtain ⟨run, group, rfl, -⟩ := group?_eq_some_iff.1 found
          generalize others : groups false most after = result at read
          obtain ⟨more, ended, left⟩ := result
          cases read
          obtain ⟨fits, none | ⟨spelled, later, goesOn⟩⟩ := ih others
          · obtain ⟨rfl, rfl, rfl⟩ := none
            exact ⟨Nat.succ_le_succ fits, .inr ⟨run, .one group, begins⟩⟩
          · refine ⟨Nat.succ_le_succ fits, .inr ⟨_, .more group later, begins.trans ?_⟩⟩
            have colon : after = ':' :: (spelled ++ rest) := skip?_eq_some_iff.1 goesOn
            rw [colon, List.append_assoc, List.cons_append]

/-- Groups that stand there are read, up to where they close. -/
theorem groups_complete {first : Bool} {most : Nat} (isGroups : IsGroups dotted gs spelled) (fits : gs.length ≤ most)
    (closes : Closes rest) (begins : start? first text = some (spelled ++ rest)) :
    groups first most text = (gs, dotted, rest) := by
  induction isGroups generalizing first most text with
  | @one g run group =>
    obtain ⟨most, rfl⟩ := Nat.exists_eq_succ_of_ne_zero (Nat.ne_of_gt fits)
    have found : group? (run ++ rest) = some (g, rest) := group?_eq_some_iff.2 ⟨run, group, rfl, closes.follows.ends⟩
    have others : groups false most rest = ([], false, rest) := by
      apply groups_none
      intro start goesOn
      rcases closes with rfl | ⟨more, rfl⟩
      · cases goesOn
      · cases goesOn
        exact .inr ⟨more, rfl⟩
    rw [start?] at begins
    rw [groups, begins]
    simp only [v4?_eq_none group.all.2 closes.follows, ite_self, found, others]
  | dotted a =>
    obtain ⟨most, rfl⟩ : ∃ n, most = n + 2 := Nat.exists_eq_add_of_le' fits
    have found : v4? (a.render.toList ++ rest) = some (a, rest) := v4?_eq_some_iff.2 ⟨rfl, closes.follows.ends⟩
    rw [start?] at begins
    rw [groups, begins]
    simp only [Nat.succ_ne_zero, if_false, found]
  | @more g run spelled dotted gs group later ih =>
    obtain ⟨most, rfl⟩ : ∃ n, most = n + 1 := Nat.exists_eq_add_of_le' (Nat.le_trans (by simp) fits)
    have follows : Follows (':' :: (spelled ++ rest)) := .inr ⟨_, rfl⟩
    have found : group? (run ++ ':' :: (spelled ++ rest)) = some (g, ':' :: (spelled ++ rest)) :=
      group?_eq_some_iff.2 ⟨run, group, rfl, follows.ends⟩
    have others : groups false most (':' :: (spelled ++ rest)) = (gs, dotted, rest) :=
      ih (Nat.le_of_succ_le_succ fits) rfl
    rw [start?, List.append_assoc, List.cons_append] at begins
    rw [groups, begins]
    simp only [v4?_eq_none group.all.2 follows, ite_self, found, others]

theorem isRun_of_groups {most : Nat} (read : groups true most text = (gs, dotted, rest)) :
    gs.length ≤ most ∧ ∃ spelled, IsRun dotted gs spelled ∧ text = spelled ++ rest := by
  obtain ⟨fits, ⟨rfl, rfl, rfl⟩ | ⟨spelled, isGroups, begins⟩⟩ := groups_sound read
  · exact ⟨fits, [], .inl ⟨rfl, rfl, rfl⟩, rfl⟩
  · exact ⟨fits, spelled, .inr isGroups, Option.some.inj begins⟩

theorem groups_of_isRun {most : Nat} (isRun : IsRun dotted gs spelled) (fits : gs.length ≤ most)
    (closes : Closes rest) : groups true most (spelled ++ rest) = (gs, dotted, rest) := by
  rcases isRun with ⟨rfl, rfl, rfl⟩ | isGroups
  · apply groups_none
    intro start begins
    cases begins
    exact closes.follows
  · exact groups_complete isGroups fits closes rfl

/-! ## Whole texts -/

theorem v6?_sound {b : V6} (read : v6? text = some (b, [])) : Spells (.v6 b) text := by
  unfold v6? at read
  generalize first : groups true 8 text = result at read
  obtain ⟨front, dotted, after⟩ := result
  obtain ⟨fits, before, isRun, rfl⟩ := isRun_of_groups first
  dsimp only at read
  split at read
  · next eight =>
    cases read
    rcases isRun with ⟨rfl, -, -⟩ | isGroups
    · cases eight
    · rw [List.append_nil]
      exact .whole isGroups eight
  · next notEight =>
    split at read
    · cases read
    · next plain =>
      obtain rfl : dotted = false := by simpa using plain
      simp only [Option.bind_eq_bind, Option.bind_eq_some_iff, skip?_eq_some_iff] at read
      obtain ⟨_, rfl, more, rfl, read⟩ := read
      generalize last : groups true (7 - front.length) more = result at read
      obtain ⟨back, dotted, left⟩ := result
      obtain ⟨within, behind, isRun', rfl⟩ := isRun_of_groups last
      cases read
      have within : back.length ≤ 7 - front.length := within
      have fewer : front.length + back.length < 8 := by omega
      rw [List.append_nil]
      exact .shortened isRun isRun' fewer

theorem v6?_complete {b : V6} (spells : Spells (.v6 b) text) : v6? text = some (b, []) := by
  cases spells with
  | whole isGroups eight =>
    have read : groups true 8 (text ++ []) = _ := groups_of_isRun (.inr isGroups) (Nat.le_of_eq eight) (.inl rfl)
    rw [List.append_nil] at read
    simp only [v6?, read, eight, if_true]
  | @shortened dotted front back before after first last fewer =>
    have read : groups true 8 (before ++ ':' :: ':' :: after) = _ :=
      groups_of_isRun first (by omega) (.inr ⟨after, rfl⟩)
    have others : groups true (7 - front.length) (after ++ []) = _ := groups_of_isRun last (by omega) (.inl rfl)
    rw [List.append_nil] at others
    have notEight : ¬ front.length = 8 := by omega
    simp [v6?, read, notEight, skip?, others]

/-- A character that may stand behind the first colon. -/
def isLater (c : Char) : Bool := isHexDigit c || c == ':' || c == '.'

theorem isLater_of_isHexDigit {c : Char} (hex : isHexDigit c = true) : isLater c = true := by simp [isLater, hex]

theorem isLater_render (a : V4) : ∀ c ∈ a.render.toList, isLater c = true := by
  have digits (b : UInt8) : ∀ c ∈ Nat.toDigits 10 b.toNat, isLater c = true := by
    intro c among
    have digit := Decimal.isDigit_of_mem_toDigits among
    exact isLater_of_isHexDigit (Decimal.isSome_digitIn?_of_isDigit (by decide) digit)
  have point : isLater '.' = true := by decide
  obtain ⟨p, q, r, s, -, is⟩ := exists_render a
  simp only [is, List.forall_mem_append, List.forall_mem_cons]
  exact ⟨digits _, point, digits _, point, digits _, point, digits _⟩

theorem IsGroups.isLater (isGroups : IsGroups dotted gs text) : ∀ c ∈ text, Address.isLater c = true := by
  induction isGroups with
  | one group => exact fun c among => isLater_of_isHexDigit (group.all.2 c among)
  | dotted a => exact isLater_render a
  | more group later ih =>
    simp only [List.forall_mem_append, List.forall_mem_cons]
    exact ⟨fun c among => isLater_of_isHexDigit (group.all.2 c among), by decide, ih⟩

theorem IsRun.isLater (isRun : IsRun dotted gs text) : ∀ c ∈ text, Address.isLater c = true := by
  rcases isRun with ⟨-, -, rfl⟩ | isGroups
  · exact fun c none => by cases none
  · exact isGroups.isLater

/-- What spells an IPv6 address begins with hexadecimal digits and a colon. -/
theorem exists_colon {b : V6} (spells : Spells (.v6 b) text) : ∃ run more, text = run ++ ':' :: more ∧
    run.length ≤ 4 ∧ (∀ c ∈ run, isHexDigit c = true) ∧ ∀ c ∈ more, isLater c = true := by
  cases spells with
  | whole isGroups eight =>
    -- one group alone, or an IPv4 address alone, are not eight
    cases isGroups with
    | one => cases eight
    | dotted => cases eight
    | more group later => exact ⟨_, _, rfl, group.1, group.all.2, later.isLater⟩
  | @shortened _ front back before after first last fewer =>
    have colon : isLater ':' = true := by decide
    have behind : ∀ c ∈ ':' :: after, isLater c = true := List.forall_mem_cons.2 ⟨colon, last.isLater⟩
    rcases first with ⟨-, -, rfl⟩ | isGroups
    · exact ⟨[], ':' :: after, rfl, by decide, by simp, behind⟩
    · cases isGroups with
      | one group => exact ⟨before, ':' :: after, rfl, group.1, group.all.2, behind⟩
      | @more g run rest _ gs group later =>
        refine ⟨run, rest ++ ':' :: ':' :: after, by simp, group.1, group.all.2, ?_⟩
        exact List.forall_mem_append.2 ⟨later.isLater, List.forall_mem_cons.2 ⟨colon, behind⟩⟩

theorem spelled?_eq_some_iff {b : Address} : spelled? text = some b ↔ Spells b text := by
  constructor
  · intro read
    unfold spelled? at read
    split at read
    · next a rest found =>
      split at read
      · next ended =>
        cases read
        obtain ⟨rfl, -⟩ := v4?_eq_some_iff.1 found
        rw [List.isEmpty_iff.1 ended, List.append_nil]
        exact .v4 a
      · cases read
    · split at read
      · next a rest found =>
        split at read
        · next ended =>
          cases read
          rw [List.isEmpty_iff.1 ended] at found
          exact v6?_sound found
        · cases read
      · cases read
  · intro spells
    cases b with
    | v4 a =>
      cases spells
      have found : v4? a.render.toList = some (a, []) := v4?_eq_some_iff.2 ⟨(List.append_nil _).symm, ends_nil 10⟩
      rw [spelled?, found]
      rfl
    | v6 b =>
      obtain ⟨run, more, is, -, hex, -⟩ := exists_colon spells
      have noV4 : v4? text = none := is ▸ v4?_eq_none hex (.inr ⟨more, rfl⟩)
      rw [spelled?, noV4, v6?_complete spells]
      rfl

/-! ## The shape -/

theorem looksDotted_render (a : V4) : looksDotted a.render.toList = true := by
  have noPoint (b : UInt8) : '.' ∉ Nat.toDigits 10 b.toNat := by
    intro among
    cases Decimal.isDigit_of_mem_toDigits among
  obtain ⟨p, q, r, s, -, is⟩ := exists_render a
  have cut : pieces '.' a.render.toList =
      [Nat.toDigits 10 p.toNat, Nat.toDigits 10 q.toNat, Nat.toDigits 10 r.toNat, Nat.toDigits 10 s.toNat] := by
    simp only [is, pieces_append, pieces_of_not_mem (noPoint _), List.singleton_append]
  have run (b : UInt8) : (1 ≤ (Nat.toDigits 10 b.toNat).length && (Nat.toDigits 10 b.toNat).length ≤ 3 &&
      (Nat.toDigits 10 b.toNat).all Char.isDigit) = true := by
    have some : 0 < (Nat.toDigits 10 b.toNat).length := List.length_pos_iff.2 Nat.toDigits_ne_nil
    have all : (Nat.toDigits 10 b.toNat).all Char.isDigit = true :=
      List.all_eq_true.2 fun _ among => Decimal.isDigit_of_mem_toDigits among
    rw [all, Bool.and_true, Bool.and_eq_true, decide_eq_true_eq, decide_eq_true_eq]
    exact ⟨some, length_toDigits_octet b⟩
  simp only [looksDotted, cut, List.all_cons, run, List.all_nil]
  rfl

theorem looksGrouped_of_spells {b : V6} (spells : Spells (.v6 b) text) : looksGrouped text = true := by
  obtain ⟨run, more, rfl, short, hex, later⟩ := exists_colon spells
  have ends : Ends 16 (':' :: more) := ends_cons (by decide) more
  obtain ⟨taken, left⟩ := span_append hex ends
  have all : more.all isLater = true := List.all_eq_true.2 later
  unfold looksGrouped
  rw [taken, left]
  exact Bool.and_eq_true_iff.2 ⟨decide_eq_true short, all⟩

theorem looksRight_of_spells {b : Address} (spells : Spells b text) : looksRight text = true := by
  unfold looksRight
  cases b with
  | v4 a =>
    cases spells
    rw [looksDotted_render, Bool.true_or]
  | v6 b => rw [looksGrouped_of_spells spells, Bool.or_true]

/-- The look at the shape changes no answer: the texts that are read are those of the grammar, each of them has the
shape of an address, and so reading a text is reading it without a look at its shape. -/
theorem parse?_eq_spelled? (text : String) :
    parse? text = spelled? text.toList ∧
      ∀ b, (spelled? text.toList = some b ↔ Spells b text.toList) ∧ (Spells b text.toList → looksRight text.toList = true) := by
  refine ⟨?_, fun b => ⟨spelled?_eq_some_iff, looksRight_of_spells⟩⟩
  unfold parse?
  by_cases shaped : looksRight text.toList = true
  · rw [if_pos shaped]
  · rw [if_neg shaped]
    cases read : spelled? text.toList with
    | none => rfl
    | some b => exact absurd (looksRight_of_spells (spelled?_eq_some_iff.1 read)) shaped

/-- Zeros are left out between two groups, and the last two groups are spelled as an IPv4 address. -/
theorem parse?_eq_spelled?_dotted :
    let b : Address := .v6 ⟨#v[1, 0, 0, 0, 0, 0xAB, 0x0102, 0x0304]⟩
    parse? "1::aB:1.2.3.4" = some b ∧ Spells b "1::aB:1.2.3.4".toList ∧ looksRight "1::aB:1.2.3.4".toList = true := by
  intro b
  have read : parse? "1::aB:1.2.3.4" = some b := by decide +kernel
  obtain ⟨same, shapes⟩ := parse?_eq_spelled? "1::aB:1.2.3.4"
  have spells : Spells b "1::aB:1.2.3.4".toList := (shapes b).1.1 (same ▸ read)
  exact ⟨read, spells, (shapes b).2 spells⟩

end ArcFile.Address
