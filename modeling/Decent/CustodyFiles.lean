import Decent.CustodyWrapped

/-!
When the signer and the prover read one file. Both positions are products of 32-bit numbers, so a file
is cut into its numbers as long as its blocks end below 2³²; behind, the prover starts over at the front.
-/
namespace Decent.Custody

/-! ### What a number depends on -/

theorem limbs_injective {a b : List UInt8} (lengths : a.length = b.length) (same : limbs a = limbs b) : a = b := by
  have bytes : a.map UInt8.toNat = b.map UInt8.toNat := by
    refine Nat.ofDigits_inj_of_len_eq (by decide : 1 < 256) (by simpa using lengths) ?_ ?_ same
    · intro d member
      obtain ⟨x,-,rfl⟩ := List.mem_map.mp member
      exact x.toNat_lt
    · intro d member
      obtain ⟨x,-,rfl⟩ := List.mem_map.mp member
      exact x.toNat_lt
  exact List.map_injective_iff.mpr (fun x y => UInt8.toNat_inj.mp) bytes

/-- The file with another byte at a place. -/
def File.put (file : File) (p : ℕ) (b : UInt8) : File := { file with byte := Function.update file.byte p b }

theorem at?_put (file : File) {p q : ℕ} (b : UInt8) (inside : p < file.length) :
    (file.put p b).at? q = if q = p then b else file.at? q := by
  show (if q < file.length then Function.update file.byte p b q else 0) = _
  by_cases here : q = p
  · subst here
    rw [if_pos inside,if_pos rfl,Function.update_self]
  · rw [if_neg here,Function.update_of_ne here]
    rfl

/-- A number depends on the bytes from its place on. -/
theorem number_put_iff (file : File) {p q : ℕ} (inside : p < file.length) :
    (∃ b, (file.put p b).number q ≠ file.number q) ↔ q ≤ p ∧ p < q + DECENT_SIZE_OF_NUMBER_IN_THE_FIELD := by
  constructor
  · rintro ⟨b,differ⟩
    by_contra outside
    refine differ (congrArg limbs (List.map_congr_left fun k member => ?_))
    have below := List.mem_range.mp member
    rw [at?_put file b inside,if_neg (by omega)]
  · rintro ⟨from_q,below⟩
    refine ⟨file.byte p + 1,fun same => ?_⟩
    have bytes := limbs_injective (by rw [List.length_map,List.length_map]) same
    have byte := List.map_inj_left.mp bytes (p - q) (List.mem_range.mpr (by omega))
    rw [Nat.add_sub_cancel' from_q,at?_put file _ inside,if_pos rfl,File.at?,if_pos inside] at byte
    exact absurd byte (by simp)

/-! ### Reading a file -/

/-- The number that the prover reads for a block and a sector depends on the byte. -/
def Shows (file : File) (sectors p i j : ℕ) : Prop := ∃ b, get_m (file.put p b) i j sectors ≠ get_m file i j sectors

/-- Signer and prover read the same numbers; they are those of the file, with zeros behind its end, and
    every byte is in one of them. -/
structure ReadAlike (file : File) (sectors : ℕ) : Prop where
  equal : ∀ i < get_n file sectors, ∀ j < sectors,
    (block_numbers (get_data file i sectors) sectors)[j]? = some (get_m file i j sectors)
  padded : ∀ i < get_n file sectors, ∀ j < sectors,
    get_m file i j sectors = file.number (DECENT_SIZE_OF_NUMBER_IN_THE_FIELD * (j + sectors * i))
  once : ∀ p < file.length, ∃! place : ℕ × ℕ,
    (place.1 < get_n file sectors ∧ place.2 < sectors) ∧ Shows file sectors p place.1 place.2

section
variable {file : File} {sectors : ℕ}

theorem shows_iff {p i j : ℕ} (inside : p < file.length) : Shows file sectors p i j ↔
    DECENT_SIZE_OF_NUMBER_IN_THE_FIELD * (j + sectors * i) % 2 ^ 32 ≤ p ∧
      p < DECENT_SIZE_OF_NUMBER_IN_THE_FIELD * (j + sectors * i) % 2 ^ 32 + DECENT_SIZE_OF_NUMBER_IN_THE_FIELD := by
  rw [← number_put_iff file inside]
  exact exists_congr fun b => by rw [get_m_eq,get_m_eq]

/-- The blocks of a file that ends with a block below 2³² lie below it. -/
theorem position_small {i j : ℕ} (some : 0 < sectors)
    (short : file.length ≤ DECENT_SIZE_OF_NUMBER_IN_THE_FIELD * sectors * (2 ^ 32 / (DECENT_SIZE_OF_NUMBER_IN_THE_FIELD * sectors)))
    (inside : i < get_n file sectors) (below : j < sectors) :
    DECENT_SIZE_OF_NUMBER_IN_THE_FIELD * (j + sectors * i) < 2 ^ 32 := by
  have bounds := (get_n_bounds file sectors some).2
  have whole := Nat.mul_div_le (2 ^ 32) (DECENT_SIZE_OF_NUMBER_IN_THE_FIELD * sectors)
  generalize 2 ^ 32 / (DECENT_SIZE_OF_NUMBER_IN_THE_FIELD * sectors) = blocks at short whole
  have few : get_n file sectors < blocks + 1 := by
    refine Nat.lt_of_mul_lt_mul_left (a := DECENT_SIZE_OF_NUMBER_IN_THE_FIELD * sectors) ?_
    rw [Nat.mul_succ]
    omega
  have next : j + sectors * i < sectors * blocks :=
    calc j + sectors * i < sectors * (i + 1) := by rw [Nat.mul_succ]; omega
      _ ≤ sectors * blocks := Nat.mul_le_mul_left _ (by omega)
  calc DECENT_SIZE_OF_NUMBER_IN_THE_FIELD * (j + sectors * i)
      < DECENT_SIZE_OF_NUMBER_IN_THE_FIELD * (sectors * blocks) := Nat.mul_lt_mul_of_pos_left next (by decide)
    _ ≤ 2 ^ 32 := by rwa [← Nat.mul_assoc]

/-- A place of the file is one sector of one block. -/
theorem place_iff {p i j : ℕ} (below : j < sectors) :
    DECENT_SIZE_OF_NUMBER_IN_THE_FIELD * (j + sectors * i) ≤ p ∧
      p < DECENT_SIZE_OF_NUMBER_IN_THE_FIELD * (j + sectors * i) + DECENT_SIZE_OF_NUMBER_IN_THE_FIELD ↔
    (i,j) = (p / DECENT_SIZE_OF_NUMBER_IN_THE_FIELD / sectors,p / DECENT_SIZE_OF_NUMBER_IN_THE_FIELD % sectors) := by
  have number : (DECENT_SIZE_OF_NUMBER_IN_THE_FIELD * (j + sectors * i) ≤ p ∧
      p < DECENT_SIZE_OF_NUMBER_IN_THE_FIELD * (j + sectors * i) + DECENT_SIZE_OF_NUMBER_IN_THE_FIELD) ↔
      p / DECENT_SIZE_OF_NUMBER_IN_THE_FIELD = j + sectors * i := by
    rw [DECENT_SIZE_OF_NUMBER_IN_THE_FIELD]
    omega
  rw [number,Prod.mk.injEq,eq_comm (a := i),eq_comm (a := j),Nat.div_mod_unique (Nat.zero_lt_of_lt below)]
  exact ⟨fun same => ⟨same.symm,below⟩,fun same => same.1.symm⟩

theorem readAlike_of_short (some : 0 < sectors)
    (short : file.length ≤ DECENT_SIZE_OF_NUMBER_IN_THE_FIELD * sectors * (2 ^ 32 / (DECENT_SIZE_OF_NUMBER_IN_THE_FIELD * sectors))) :
    ReadAlike file sectors := by
  have small := fun {i j : ℕ} => position_small (i := i) (j := j) some short
  refine ⟨fun i inside j below => ?_,fun i inside j below => ?_,fun p inside => ?_⟩
  · have start : DECENT_SIZE_OF_NUMBER_IN_THE_FIELD * sectors * i < 2 ^ 32 := by
      have first := small inside some
      rwa [Nat.zero_add,← Nat.mul_assoc] at first
    rw [block_numbers_eq,List.getElem?_map,List.getElem?_range below,get_m_eq,Nat.mod_eq_of_lt (small inside below),
      Nat.mod_eq_of_lt start,Nat.add_comm j,Nat.mul_add,Nat.mul_assoc]
    rfl
  · rw [get_m_eq,Nat.mod_eq_of_lt (small inside below)]
  · have bounds := (get_n_bounds file sectors some).1
    refine ⟨(p / DECENT_SIZE_OF_NUMBER_IN_THE_FIELD / sectors,p / DECENT_SIZE_OF_NUMBER_IN_THE_FIELD % sectors),?_,?_⟩
    · have block : p / DECENT_SIZE_OF_NUMBER_IN_THE_FIELD / sectors < get_n file sectors := by
        rw [Nat.div_div_eq_div_mul]
        exact Nat.div_lt_of_lt_mul (inside.trans_le bounds)
      have sector := Nat.mod_lt (p / DECENT_SIZE_OF_NUMBER_IN_THE_FIELD) some
      refine ⟨⟨block,sector⟩,(shows_iff inside).mpr ?_⟩
      rw [Nat.mod_eq_of_lt (small block sector)]
      exact (place_iff sector).mpr rfl
    · rintro ⟨i,j⟩ ⟨⟨block,sector⟩,shown⟩
      have here := (shows_iff inside).mp shown
      rw [Nat.mod_eq_of_lt (small block sector)] at here
      exact (place_iff sector).mp here

/-- In a longer file the first byte is read again for the sector at 2³². -/
theorem short_of_readAlike (some : 0 < sectors) (alike : ReadAlike file sectors) :
    file.length ≤ DECENT_SIZE_OF_NUMBER_IN_THE_FIELD * sectors * (2 ^ 32 / (DECENT_SIZE_OF_NUMBER_IN_THE_FIELD * sectors)) := by
  by_contra long
  have long := Nat.lt_of_not_le long
  have bounds := (get_n_bounds file sectors some).1
  have parts := Nat.div_add_mod (2 ^ 32) (DECENT_SIZE_OF_NUMBER_IN_THE_FIELD * sectors)
  have rest := Nat.mod_lt (2 ^ 32) (Nat.mul_pos (by decide : 0 < DECENT_SIZE_OF_NUMBER_IN_THE_FIELD) some)
  generalize 2 ^ 32 / (DECENT_SIZE_OF_NUMBER_IN_THE_FIELD * sectors) = i at *
  have inside : i < get_n file sectors := Nat.lt_of_mul_lt_mul_left (long.trans_le bounds)
  obtain ⟨j,sector⟩ : DECENT_SIZE_OF_NUMBER_IN_THE_FIELD ∣ 2 ^ 32 % (DECENT_SIZE_OF_NUMBER_IN_THE_FIELD * sectors) :=
    (Nat.dvd_mod_iff (Nat.dvd_mul_right _ _)).mpr (by decide)
  rw [sector] at parts rest
  have below : j < sectors := Nat.lt_of_mul_lt_mul_left rest
  have around : DECENT_SIZE_OF_NUMBER_IN_THE_FIELD * (j + sectors * i) = 2 ^ 32 := by
    rw [Nat.mul_add,Nat.add_comm,← Nat.mul_assoc,parts]
  have first : 0 < file.length := Nat.zero_lt_of_lt long
  obtain ⟨place,-,only⟩ := alike.once 0 first
  have front : Shows file sectors 0 0 0 := (shows_iff first).mpr (by simp [DECENT_SIZE_OF_NUMBER_IN_THE_FIELD])
  have again : Shows file sectors 0 i j := by
    refine (shows_iff first).mpr ?_
    rw [around,Nat.mod_self]
    exact ⟨Nat.le_refl 0,by decide⟩
  have same := (only (0,0) ⟨⟨Nat.zero_lt_of_lt inside,some⟩,front⟩).trans (only (i,j) ⟨⟨inside,below⟩,again⟩).symm
  cases same
  exact absurd around (by simp)

end

/-- A file is read alike exactly when it ends with its last whole block below 2³². -/
theorem read_alike_iff (file : File) (sectors : ℕ) (choice : sectors = DECENT_SECTORS ∨ sectors = DECENT_SECTORS_BIG) :
    ReadAlike file sectors ↔
      file.length ≤ DECENT_SIZE_OF_NUMBER_IN_THE_FIELD * sectors * (2 ^ 32 / (DECENT_SIZE_OF_NUMBER_IN_THE_FIELD * sectors)) := by
  have some : 0 < sectors := by rcases choice with rfl | rfl <;> decide
  exact ⟨short_of_readAlike some,readAlike_of_short some⟩

/-- Four blocks. -/
theorem read_alike_shortFile : ReadAlike shortFile DECENT_SECTORS :=
  (read_alike_iff shortFile DECENT_SECTORS (.inl rfl)).mpr (by decide)

/-- The byte at 2³² is signed, and the first byte is read in its place. -/
theorem longFile_not_alike : longFile.length ≤ DECENT_MAX_FILE_SIZE * 1024 * 1024 ∧ ¬ ReadAlike longFile DECENT_SECTORS := by
  refine ⟨by decide,fun alike => ?_⟩
  have equal := alike.equal 13421772 (by decide +kernel) 16 (by decide)
  rw [block_numbers_eq,get_m_eq] at equal
  have signed : longFile.number (DECENT_SIZE_OF_NUMBER_IN_THE_FIELD * DECENT_SECTORS * 13421772 % 2 ^ 32 +
      DECENT_SIZE_OF_NUMBER_IN_THE_FIELD * 16) = 1 := by decide +kernel
  have read : longFile.number (DECENT_SIZE_OF_NUMBER_IN_THE_FIELD * (16 + DECENT_SECTORS * 13421772) % 2 ^ 32) = 0 := by
    decide +kernel
  rw [List.getElem?_map,List.getElem?_range (by decide),Option.map_some,signed,read] at equal
  exact absurd equal (by decide)

end Decent.Custody
