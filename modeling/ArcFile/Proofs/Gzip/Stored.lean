import ArcFile.Proofs.Gzip.Unpacking
/-!
Members made of stored blocks. What `pack` gives is a member with the content that was packed.
-/
namespace ArcFile.Gzip

namespace Bits

/-- The lowest `width` bits of a number, the lowest first. -/
def ofNat (width n : Nat) : Bits := (List.range width).map n.testBit

theorem ofNat_succ (width n : Nat) : ofNat (width + 1) n = n.testBit 0 :: ofNat width (n / 2) := by
  simp only [ofNat, List.range_succ_eq_map, List.map_cons, List.map_map]
  congr 1
  exact List.map_congr_left fun i _ => Nat.testBit_succ n i

theorem ofBytes_toLittleEndian (width n : Nat) :
    ofBytes (Bytes.toLittleEndian width n) = ofNat (8 * width) n := by
  induction width generalizing n with
  | zero => rfl
  | succ width ih =>
    have low : ofByte (UInt8.ofNat (n % 256)) = ofNat 8 n := by
      apply List.map_congr_left
      intro i small
      have small := List.mem_range.1 small
      rw [UInt8.toNat_ofNat', Nat.mod_mod]
      rw [show (256 : Nat) = 2 ^ 8 from rfl, Nat.testBit_mod_two_pow]
      simp [small]
    have high : ofNat (8 * (width + 1)) n = ofNat 8 n ++ ofNat (8 * width) (n / 256) := by
      rw [show 8 * (width + 1) = 8 + 8 * width by omega]
      simp only [ofNat, List.range_add, List.map_append, List.map_map]
      congr 1
      apply List.map_congr_left
      intro i _
      rw [Function.comp_apply, Nat.add_comm]
      exact (Nat.testBit_div_two_pow n i).symm
    rw [high, ← ih, ← low]
    rfl

end Bits

namespace BitReader

theorem number_ofNat {width n : Nat} (fits : n < 1 <<< width) (rest : Bits) :
    ∃ value le, number width (Bits.ofNat width n ++ rest) = .done value rest le ∧ value.val = n := by
  induction width generalizing n with
  | zero =>
    obtain rfl : 0 = n := (Nat.lt_one_iff.1 fits).symm
    exact ⟨⟨0, fits⟩, Nat.le_refl _, rfl, rfl⟩
  | succ width ih =>
    rw [Nat.shiftLeft_succ] at fits
    obtain ⟨value, le, found, low⟩ := ih (Nat.div_lt_of_lt_mul fits)
    rw [Bits.ofNat_succ]
    have one : bit (n.testBit 0 :: Bits.ofNat width (n / 2) ++ rest) =
      .done (n.testBit 0) (Bits.ofNat width (n / 2) ++ rest) (Nat.le_succ _) := rfl
    refine ⟨_, _, bind_done one (bind_done found rfl), ?_⟩
    simp only [low, Nat.testBit_zero]
    rcases Nat.mod_two_eq_zero_or_one n with even | odd
    · simp [even]
      omega
    · simp [odd]
      omega

end BitReader

namespace BlockHeader

/-- The size of a stored block stands there twice, the second time with all bits flipped. -/
theorem flipped_size {size : Nat} (fits : size ≤ longestStored) :
    (Bytes.toLittleEndian 2 size).map (255 - ·) = Bytes.toLittleEndian 2 (65535 - size) := by
  simp only [longestStored] at fits
  simp only [Bytes.toLittleEndian, List.map_cons, List.map_nil, List.cons.injEq, and_true]
  constructor <;> refine UInt8.toNat_inj.1 ?_ <;>
    simp only [UInt8.toNat_sub, UInt8.toNat_ofNat', UInt8.reduceToNat] <;> omega

theorem align_header (rest : Bits) (whole : rest.length % 8 = 0) :
    ∃ le, align ([false, false, false, false, false] ++ rest) = .done () rest le := by
  have five : ([false, false, false, false, false] ++ rest).length % 8 = 5 := by
    rw [List.length_append, List.length_cons]
    simp only [List.length_cons, List.length_nil]
    omega
  refine ⟨by simp; omega, ?_⟩
  unfold align
  congr 1
  rw [five]
  rfl

theorem readSize_stored {size : Nat} (fits : size ≤ longestStored) (rest : Bits)
    (whole : rest.length % 8 = 0) :
    ∃ le, readSize ([false, false, false, false, false] ++
      (Bits.ofNat 16 size ++ (Bits.ofNat 16 (65535 - size) ++ rest))) = .done size rest le := by
  obtain ⟨_, aligned⟩ := align_header
    (Bits.ofNat 16 size ++ (Bits.ofNat 16 (65535 - size) ++ rest)) (by
      simp only [List.length_append, Bits.ofNat, List.length_map, List.length_range]
      omega)
  have below : size < 1 <<< 16 := Nat.lt_succ_of_le fits
  obtain ⟨low, _, one, isLow⟩ := BitReader.number_ofNat below (Bits.ofNat 16 (65535 - size) ++ rest)
  obtain ⟨high, _, two, isHigh⟩ :=
    BitReader.number_ofNat (Nat.lt_of_le_of_lt (Nat.sub_le 65535 size) (by decide : 65535 < 1 <<< 16)) rest
  simp only [longestStored] at fits
  have sum : low.val + high.val = 65535 := by omega
  obtain rfl : low.val = size := isLow
  have agree : (if low.val + high.val = 65535 then pure low.val else .fail : BitReader Nat) rest =
      .done low.val rest (Nat.le_refl _) := by
    rw [if_pos sum]
    rfl
  exact ⟨_, BitReader.bind_done aligned (BitReader.bind_done one (BitReader.bind_done two agree))⟩

theorem read_stored (final : Bool) {size : Nat} (fits : size ≤ longestStored) (more : Bytes) :
    ∃ le, read (Bits.ofBytes (cond final 1 0 :: (Bytes.toLittleEndian 2 size ++
      (Bytes.toLittleEndian 2 size).map (255 - ·)) ++ more)) =
      .done ⟨final, .stored size⟩ (Bits.ofBytes more) le := by
  have first : Bits.ofByte (cond final 1 0) = [final, false, false, false, false, false, false, false] := by
    cases final <;> decide
  have bits : Bits.ofBytes (cond final 1 0 :: (Bytes.toLittleEndian 2 size ++
      (Bytes.toLittleEndian 2 size).map (255 - ·)) ++ more) = final :: false :: false ::
      ([false, false, false, false, false] ++
        (Bits.ofNat 16 size ++ (Bits.ofNat 16 (65535 - size) ++ Bits.ofBytes more))) := by
    rw [flipped_size fits, ← Bits.ofBytes_toLittleEndian 2, ← Bits.ofBytes_toLittleEndian 2,
      ← Bits.ofBytes_append, ← Bits.ofBytes_append, ← List.append_assoc]
    have : Bits.ofBytes (cond final 1 0 :: (Bytes.toLittleEndian 2 size ++
        Bytes.toLittleEndian 2 (65535 - size)) ++ more) = Bits.ofByte (cond final 1 0) ++
        Bits.ofBytes (Bytes.toLittleEndian 2 size ++ Bytes.toLittleEndian 2 (65535 - size) ++ more) := rfl
    rw [this, first]
    rfl
  obtain ⟨_, sized⟩ := readSize_stored fits (Bits.ofBytes more) (by
    rw [Bits.length_ofBytes]
    omega)
  have kind : (pure ⟨final, .stored size⟩ : BitReader BlockHeader) (Bits.ofBytes more) =
      .done ⟨final, .stored size⟩ (Bits.ofBytes more) (Nat.le_refl _) := rfl
  have bit (b : Bool) (rest : Bits) : BitReader.bit (b :: rest) = .done b rest (Nat.le_succ _) := rfl
  rw [bits]
  exact ⟨_, BitReader.bind_done (bit final _) (BitReader.bind_done (bit false _)
    (BitReader.bind_done (bit false _) (BitReader.bind_done sized kind)))⟩

end BlockHeader

namespace Inflater

variable {last : Bool} {window : Array UInt8} {data more : Bytes}

/-- The bytes of a stored block are the output as they are. -/
theorem steps_stored : Steps ⟨last, .stored data.length, Bits.ofBytes (data ++ more), window⟩
    ⟨last, .stored 0, Bits.ofBytes more, window ++ data.toArray⟩ := by
  induction data generalizing window with
  | nil => simpa using Steps.refl _
  | cons b rest ih =>
    have bits : Bits.ofBytes (b :: rest ++ more) = Bits.ofNat 8 b.toNat ++ Bits.ofBytes (rest ++ more) := rfl
    have small : b.toNat < 1 <<< 8 := b.toNat_lt
    obtain ⟨value, le, found, is⟩ := BitReader.number_ofNat small (Bits.ofBytes (rest ++ more))
    have same : UInt8.ofNat value.val = b := by
      rw [is, UInt8.ofNat_toNat]
    have next : step ⟨last, .stored (rest.length + 1), Bits.ofBytes (b :: rest ++ more), window⟩ =
        .next ⟨last, .stored rest.length, Bits.ofBytes (rest ++ more), window.push b⟩ := by
      rw [bits]
      simp only [step, advance, found, same]
    have pushed : window ++ (b :: rest).toArray = window.push b ++ rest.toArray := by simp
    rw [pushed]
    exact .step next ih

theorem step_header (final : Bool) {size : Nat} (fits : size ≤ longestStored) :
    step ⟨last, .start, Bits.ofBytes (cond final 1 0 :: (Bytes.toLittleEndian 2 size ++
      (Bytes.toLittleEndian 2 size).map (255 - ·)) ++ more), window⟩ =
      .next ⟨final, .stored size, Bits.ofBytes more, window⟩ := by
  obtain ⟨le, found⟩ := BlockHeader.read_stored final fits more
  simp only [step, advance, found]
  rfl

/-- A stored block adds its data to the output. -/
theorem steps_block (final : Bool) (fits : data.length ≤ longestStored) :
    Steps ⟨last, .start, Bits.ofBytes (cond final 1 0 :: (Bytes.toLittleEndian 2 data.length ++
      (Bytes.toLittleEndian 2 data.length).map (255 - ·)) ++ (data ++ more)), window⟩
      ⟨final, .afterBlock final, Bits.ofBytes more, window ++ data.toArray⟩ :=
  .step (step_header final fits) (steps_stored.trans (.step rfl (.refl _)))

/-- The last stored block has what is left of the data. -/
theorem storedBlocks_of_le (final : Bool) (fits : data.length ≤ longestStored) :
    storedBlocks final data = cond final 1 0 :: (Bytes.toLittleEndian 2 data.length ++
      (Bytes.toLittleEndian 2 data.length).map (255 - ·)) ++ data := by
  unfold storedBlocks
  rw [if_pos fits, Nat.min_eq_left fits, List.take_of_length_le fits]
  rfl

/-- Any other stored block is full. -/
theorem storedBlocks_of_not_le (final : Bool) (long : ¬ data.length ≤ longestStored) :
    storedBlocks final data = cond false 1 0 :: (Bytes.toLittleEndian 2 (data.take longestStored).length ++
      (Bytes.toLittleEndian 2 (data.take longestStored).length).map (255 - ·)) ++
        (data.take longestStored ++ storedBlocks final (data.drop longestStored)) := by
  conv => lhs; unfold storedBlocks
  rw [if_neg long, List.length_take, Nat.min_comm longestStored, ← List.append_assoc]
  rfl

theorem steps_storedBlocks (final : Bool) (data more : Bytes) (last : Bool) (window : Array UInt8) :
    Steps ⟨last, .start, Bits.ofBytes (storedBlocks final data ++ more), window⟩
      ⟨final, .afterBlock final, Bits.ofBytes more, window ++ data.toArray⟩ := by
  induction len : data.length using Nat.strongRecOn generalizing data last window with
  | ind len ih =>
    by_cases fits : data.length ≤ longestStored
    · rw [storedBlocks_of_le final fits, List.append_assoc]
      exact steps_block final fits
    · have shorter : (data.drop longestStored).length < data.length := by
        rw [List.length_drop]
        simp only [longestStored] at fits ⊢
        omega
      have later := ih _ (len ▸ shorter) (data.drop longestStored) false
        (window ++ (data.take longestStored).toArray) rfl
      have joined : window ++ (data.take longestStored).toArray ++ (data.drop longestStored).toArray =
          window ++ data.toArray := by
        rw [Array.append_assoc]
        simp only [List.append_toArray, List.take_append_drop]
      rw [storedBlocks_of_not_le final fits, List.append_assoc, List.append_assoc, ← joined]
      exact (steps_block false (by rw [List.length_take]; exact Nat.min_le_left _ _)).trans later

/-- Pieces may be stored one by one, as long as the last block is not among them. -/
theorem steps_pieces (pieces : List Bytes) (more : Bytes) (window : Array UInt8) :
    Steps ⟨false, .start, Bits.ofBytes ((pieces.map (storedBlocks false)).flatten ++ more), window⟩
      ⟨false, .start, Bits.ofBytes more, window ++ pieces.flatten.toArray⟩ := by
  induction pieces generalizing window with
  | nil => simpa using Steps.refl _
  | cons data rest ih =>
    have joined : window ++ data.toArray ++ rest.flatten.toArray = window ++ (data :: rest).flatten.toArray := by
      simp
    rw [List.map_cons, List.flatten_cons, List.append_assoc, ← joined]
    exact (steps_storedBlocks false data _ false window).trans (ih _)

end Inflater

theorem inflates_storedBlocks (pieces : List Bytes) (data : Bytes) :
    Inflates ((pieces.map (storedBlocks false)).flatten ++ storedBlocks true data) (pieces.flatten ++ data) := by
  have last := Inflater.steps_storedBlocks true data [] false (#[] ++ pieces.flatten.toArray)
  rw [List.append_nil] at last
  have steps := (Inflater.steps_pieces pieces (storedBlocks true data) #[]).trans last
  exact ⟨_, steps, rfl, by simp, by simp [Bits.ofBytes]⟩

theorem isHeader_plainHeader : Member.IsHeader plainHeader :=
  ⟨plainHeader, [], [], [], [], ⟨rfl, by decide, by decide⟩, rfl, rfl, rfl, rfl, rfl⟩

/-- Stored blocks between header and trailer are a member, however the content is split among them. -/
theorem decodes_storedBlocks (pieces : List Bytes) (data : Bytes) :
    Decodes (plainHeader ++ ((pieces.map (storedBlocks false)).flatten ++ storedBlocks true data) ++
      Member.trailer (pieces.flatten ++ data)) (pieces.flatten ++ data) :=
  ⟨plainHeader, _, isHeader_plainHeader, inflates_storedBlocks pieces data, rfl⟩

/-- A packed content is a member with this content. -/
theorem decodes_pack (content : Bytes) : Decodes (pack content) content := by
  rw [pack, body, ← List.append_assoc]
  exact decodes_storedBlocks [] content

end ArcFile.Gzip
