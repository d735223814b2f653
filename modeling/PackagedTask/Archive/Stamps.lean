import PackagedTask.Archive.Packing

namespace PackagedTask.Archive

/-! The DOS words of a time, and the time that is rebuilt from them. -/

/-- A time whose local form, perhaps in a leap second, is in a year from 1980 to 2107. -/
structure Stamp (env : Environment) where
  rawtime : Int
  year : 80 ≤ (env.localtime rawtime).tm_year.toInt ∧ (env.localtime rawtime).tm_year.toInt ≤ 207
  mon : 0 ≤ (env.localtime rawtime).tm_mon.toInt ∧ (env.localtime rawtime).tm_mon.toInt ≤ 11
  mday : 1 ≤ (env.localtime rawtime).tm_mday.toInt ∧ (env.localtime rawtime).tm_mday.toInt ≤ 31
  hour : 0 ≤ (env.localtime rawtime).tm_hour.toInt ∧ (env.localtime rawtime).tm_hour.toInt ≤ 23
  min : 0 ≤ (env.localtime rawtime).tm_min.toInt ∧ (env.localtime rawtime).tm_min.toInt ≤ 59
  sec : 0 ≤ (env.localtime rawtime).tm_sec.toInt ∧ (env.localtime rawtime).tm_sec.toInt ≤ 60

namespace Tm

/-- The shifted fields that make up the time word, and those of the date word. -/
def timeFields (tm : Tm) : List Int32 := [tm.tm_hour <<< 11, tm.tm_min <<< 5, tm.tm_sec >>> 1]

def dateFields (tm : Tm) : List Int32 :=
  [(tm.tm_year - 80) <<< 9, (tm.tm_mon + 1) <<< 5, tm.tm_mday]

end Tm

/-- No two fields share a bit, and none has a bit that a word of 16 lacks. -/
def Apart (fields : List Int32) : Prop :=
  fields.Pairwise (fun first second => first &&& second = 0) ∧
    ∀ field ∈ fields, field &&& 0xFFFF = field

namespace Stamp
variable {env : Environment} (stamp : Stamp env)

def tm : Tm := env.localtime stamp.rawtime

/-- What `loadZipFile` makes of the words that `GetDosTime` makes of the time. -/
def rebuilt : Tm := dosTm (getDosTime env stamp.rawtime).1 (getDosTime env stamp.rawtime).2

/-- The words keep the time, the second rounded down to an even one. -/
structure Survives : Prop where
  same : stamp.rebuilt = { stamp.tm with tm_sec := stamp.tm.tm_sec / 2 * 2 }
  timeApart : Apart stamp.tm.timeFields
  dateApart : Apart stamp.tm.dateFields

end Stamp

section Words
variable {high middle low shift : Nat}

theorem ofNat_or (first second : Nat) :
    Int32.ofNat first ||| Int32.ofNat second = .ofNat (first ||| second) := by
  rw [← Int32.toBitVec_inj]
  apply BitVec.eq_of_toNat_eq
  simp

theorem ofNat_and (first second : Nat) :
    Int32.ofNat first &&& Int32.ofNat second = .ofNat (first &&& second) := by
  rw [← Int32.toBitVec_inj]
  apply BitVec.eq_of_toNat_eq
  simp

theorem shiftLeft_and_of_lt (fits : low < 2 ^ shift) : high <<< shift &&& low = 0 := by
  apply Nat.eq_of_testBit_eq
  intro i
  rw [Nat.testBit_and, Nat.testBit_shiftLeft, Nat.zero_testBit]
  by_cases above : shift ≤ i
  · have clear : low.testBit i = false :=
      Nat.testBit_lt_two_pow (fits.trans_le (Nat.pow_le_pow_right (by decide) above))
    rw [clear, Bool.and_false]
  · simp [above]

theorem middle_lt (five : 5 ≤ shift) (middleFits : middle < 2 ^ (shift - 5)) :
    middle <<< 5 < 2 ^ shift := by
  rw [Nat.shiftLeft_eq, ← Nat.sub_add_cancel five, pow_add]
  exact Nat.mul_lt_mul_of_pos_right middleFits (by decide)

theorem or_or_eq_add (five : 5 ≤ shift) (middleFits : middle < 2 ^ (shift - 5))
    (lowFits : low < 2 ^ 5) :
    high <<< shift ||| middle <<< 5 ||| low = high * 2 ^ shift + middle * 2 ^ 5 + low := by
  have together : high <<< shift + middle <<< 5 = (high * 2 ^ (shift - 5) + middle) <<< 5 := by
    simp only [Nat.shiftLeft_eq, add_mul, mul_assoc, ← pow_add, Nat.sub_add_cancel five]
  rw [← Nat.shiftLeft_add_eq_or_of_lt (middle_lt five middleFits), together,
    ← Nat.shiftLeft_add_eq_or_of_lt lowFits, ← together, Nat.shiftLeft_eq, Nat.shiftLeft_eq]

theorem toUInt16_ofNat (value : Nat) : toUInt16 (.ofNat value) = .ofNat value := by
  rw [← UInt16.toBitVec_inj]
  apply BitVec.eq_of_toNat_eq
  simp [toUInt16]

theorem word_apart (five : 5 ≤ shift) (middleFits : middle < 2 ^ (shift - 5))
    (lowFits : low < 2 ^ 5) (fits : high <<< shift < 2 ^ 16) (within : shift ≤ 16) :
    Apart [.ofNat (high <<< shift), .ofNat (middle <<< 5), .ofNat low] := by
  have middleShifted := middle_lt five middleFits
  have size : 2 ^ shift ≤ 2 ^ 16 := Nat.pow_le_pow_right (by decide) within
  have lowShifted : low < 2 ^ shift :=
    lowFits.trans_le (Nat.pow_le_pow_right (by decide) five)
  have inWord {value : Nat} (small : value < 2 ^ 16) :
      Int32.ofNat value &&& 0xFFFF = .ofNat value := by
    have masked := ofNat_and value 0xFFFF
    rw [Nat.and_two_pow_sub_one_of_lt_two_pow (n := 16) small] at masked
    exact masked
  constructor
  · simp only [List.pairwise_cons, List.forall_mem_cons, ofNat_and, List.not_mem_nil]
    rw [shiftLeft_and_of_lt middleShifted, shiftLeft_and_of_lt lowShifted,
      shiftLeft_and_of_lt lowFits]
    simp
  · simp only [List.forall_mem_cons]
    exact ⟨inWord fits, inWord (by omega), inWord (by omega), by simp⟩

theorem masked_toNat (word mask : UInt16) (width : Nat)
    (bits : mask.toNat = (2 ^ width - 1) <<< shift) (within : shift < 16) :
    ((word &&& mask) >>> .ofNat shift).toNat = word.toNat / 2 ^ shift % 2 ^ width := by
  have shifted : (UInt16.ofNat shift).toNat % 16 = shift := by
    rw [UInt16.toNat_ofNat', Nat.mod_eq_of_lt (within.trans (by decide)), Nat.mod_eq_of_lt within]
  rw [UInt16.toNat_shiftRight, shifted, UInt16.toNat_and, bits, Nat.shiftRight_and_distrib,
    Nat.shiftLeft_shiftRight, Nat.and_two_pow_sub_one_eq_mod, Nat.shiftRight_eq_div_pow]

theorem exists_ofNat {field : Int32} {bound : Nat} (lower : 0 ≤ field.toInt)
    (upper : field.toInt ≤ bound) : ∃ value ≤ bound, field = .ofNat value := by
  refine ⟨field.toInt.toNat, by omega, ?_⟩
  have below := field.toInt_lt
  rw [← Int32.toInt_inj, Int32.toInt_ofNat_of_lt (by omega)]
  omega

theorem ofNat_shiftLeft (value : Nat) :
    Int32.ofNat value <<< 5 = .ofNat (value <<< 5) ∧
      Int32.ofNat value <<< 9 = .ofNat (value <<< 9) ∧
        Int32.ofNat value <<< 11 = .ofNat (value <<< 11) := by
  simp only [← Int32.toBitVec_inj]
  refine ⟨?_, ?_, ?_⟩ <;>
    apply BitVec.eq_of_toNat_eq <;>
    simp [Nat.shiftLeft_eq]

theorem halved : ∀ sec ≤ 60, Int32.ofNat sec >>> 1 = .ofNat (sec / 2) ∧
    Int32.ofNat sec / 2 * 2 = .ofNat (sec / 2 * 2) := by
  decide

theorem word_parts {highMask middleMask : UInt16} (five : 5 ≤ shift) (within : shift < 16)
    (highFits : high < 2 ^ (16 - shift)) (middleFits : middle < 2 ^ (shift - 5))
    (lowFits : low < 2 ^ 5) (highBits : highMask.toNat = (2 ^ (16 - shift) - 1) <<< shift)
    (middleBits : middleMask.toNat = (2 ^ (shift - 5) - 1) <<< 5) :
    let word := UInt16.ofNat (high <<< shift ||| middle <<< 5 ||| low)
    ((word &&& highMask) >>> .ofNat shift).toNat = high ∧
      ((word &&& middleMask) >>> 5).toNat = middle ∧ (word &&& 0x001F).toNat = low := by
  intro word
  have split : 2 ^ shift = 2 ^ (shift - 5) * 2 ^ 5 := by
    rw [← pow_add, Nat.sub_add_cancel five]
  have whole : 2 ^ 16 = 2 ^ (16 - shift) * 2 ^ shift := by
    rw [← pow_add, Nat.sub_add_cancel within.le]
  have sum : high <<< shift ||| middle <<< 5 ||| low =
      (high * 2 ^ (shift - 5) + middle) * 2 ^ 5 + low := by
    rw [or_or_eq_add five middleFits lowFits, split]
    ring
  have value : word.toNat = (high * 2 ^ (shift - 5) + middle) * 2 ^ 5 + low := by
    have middleLt := (middle_lt five middleFits).trans_le
      (Nat.pow_le_pow_right (by decide) within.le : 2 ^ shift ≤ 2 ^ 16)
    have highLt : high <<< shift < 2 ^ 16 := by
      rw [Nat.shiftLeft_eq, whole]
      exact Nat.mul_lt_mul_of_pos_right highFits (by positivity)
    rw [UInt16.toNat_ofNat_of_lt', sum]
    exact Nat.or_lt_two_pow (Nat.or_lt_two_pow highLt middleLt) (by omega)
  have upper : word.toNat / 2 ^ 5 = high * 2 ^ (shift - 5) + middle := by omega
  have top : word.toNat / 2 ^ shift = high := by
    rw [split, Nat.mul_comm, ← Nat.div_div_eq_div_mul, upper, Nat.mul_comm,
      Nat.mul_add_div (by positivity), Nat.div_eq_of_lt middleFits, Nat.add_zero]
  refine ⟨?_, ?_, ?_⟩
  · rw [masked_toNat word highMask _ highBits within, top, Nat.mod_eq_of_lt highFits]
  · have middles := masked_toNat word middleMask _ middleBits (by decide)
    rw [upper, Nat.mul_comm, Nat.mul_add_mod, Nat.mod_eq_of_lt middleFits] at middles
    exact middles
  · have lows := Nat.and_two_pow_sub_one_eq_mod word.toNat 5
    rw [UInt16.toNat_and]
    exact lows.trans (by omega)

end Words

namespace Stamp
variable {env : Environment} (stamp : Stamp env)

theorem exists_fields : ∃ year ≤ 127, ∃ mon ≤ 11, ∃ mday ≤ 31, ∃ hour ≤ 23, ∃ min ≤ 59, ∃ sec ≤ 60,
    stamp.tm =
      ⟨.ofNat sec, .ofNat min, .ofNat hour, .ofNat mday, .ofNat mon, .ofNat year + 80⟩ := by
  have recent := stamp.year.1
  have begun := stamp.mday.1
  obtain ⟨past, pastLe, year⟩ := @exists_ofNat _ 207 (by omega) stamp.year.2
  obtain ⟨mon, monLe, isMon⟩ := @exists_ofNat _ 11 stamp.mon.1 stamp.mon.2
  obtain ⟨mday, mdayLe, isMday⟩ := @exists_ofNat _ 31 (by omega) stamp.mday.2
  obtain ⟨hour, hourLe, isHour⟩ := @exists_ofNat _ 23 stamp.hour.1 stamp.hour.2
  obtain ⟨min, minLe, isMin⟩ := @exists_ofNat _ 59 stamp.min.1 stamp.min.2
  obtain ⟨sec, secLe, isSec⟩ := @exists_ofNat _ 60 stamp.sec.1 stamp.sec.2
  rw [year, Int32.toInt_ofNat_of_lt (by omega)] at recent
  refine ⟨past - 80, by omega, mon, monLe, mday, mdayLe, hour, hourLe, min, minLe, sec, secLe, ?_⟩
  have later : Int32.ofNat (past - 80) + 80 = .ofNat past := by
    rw [show (80 : Int32) = .ofNat 80 from rfl, ← Int32.ofNat_add, Nat.sub_add_cancel (by omega)]
  rw [later, ← year, ← isMon, ← isMday, ← isHour, ← isMin, ← isSec]
  rfl

theorem timeApart : Apart stamp.tm.timeFields := by
  obtain ⟨year, -, mon, -, mday, -, hour, hourLe, min, minLe, sec, secLe, shape⟩ :=
    stamp.exists_fields
  rw [shape, Tm.timeFields]
  dsimp only
  rw [(halved sec secLe).1, (ofNat_shiftLeft hour).2.2,
    (ofNat_shiftLeft min).1]
  exact word_apart (by decide) (by omega) (by omega) (by omega) (by decide)

theorem dateApart : Apart stamp.tm.dateFields := by
  obtain ⟨year, yearLe, mon, monLe, mday, mdayLe, hour, -, min, -, sec, -, shape⟩ :=
    stamp.exists_fields
  rw [shape, Tm.dateFields]
  dsimp only
  rw [Int32.add_sub_cancel, show Int32.ofNat mon + 1 = .ofNat (mon + 1) from
    (Int32.ofNat_add mon 1).symm, (ofNat_shiftLeft year).2.1, (ofNat_shiftLeft (mon + 1)).1]
  exact word_apart (by decide) (by omega) (by omega) (by omega) (by decide)

theorem rebuilt_eq : stamp.rebuilt = { stamp.tm with
    tm_year := stamp.tm.tm_year + 1900
    tm_mon := stamp.tm.tm_mon + 1
    tm_sec := stamp.tm.tm_sec / 2 * 2 } := by
  obtain ⟨year, yearLe, mon, monLe, mday, mdayLe, hour, hourLe, min, minLe, sec, secLe, shape⟩ :=
    stamp.exists_fields
  have words : getDosTime env stamp.rawtime =
      (.ofNat (hour <<< 11 ||| min <<< 5 ||| sec / 2),
        .ofNat (year <<< 9 ||| (mon + 1) <<< 5 ||| mday)) := by
    rw [getDosTime, ← tm, shape]
    dsimp only
    rw [(halved sec secLe).1, (ofNat_shiftLeft hour).2.2, (ofNat_shiftLeft min).1,
      Int32.add_sub_cancel, show Int32.ofNat mon + 1 = .ofNat (mon + 1) from
        (Int32.ofNat_add mon 1).symm, (ofNat_shiftLeft year).2.1, (ofNat_shiftLeft (mon + 1)).1,
      ofNat_or, ofNat_or, ofNat_or, ofNat_or, toUInt16_ofNat, toUInt16_ofNat]
  obtain ⟨hours, minutes, seconds⟩ := @word_parts hour min (sec / 2) 11 0xF800 0x07E0
    (by decide) (by decide) (by omega) (by omega) (by omega) rfl rfl
  obtain ⟨years, months, days⟩ := @word_parts year (mon + 1) mday 9 0xFE00 0x01E0
    (by decide) (by decide) (by omega) (by omega) (by omega) rfl rfl
  rw [rebuilt, words, shape, dosTm]
  dsimp only
  have lateYear : Int32.ofNat year + 80 + 1900 = .ofNat (year + 1980) := by
    rw [Int32.add_assoc, Int32.ofNat_add]
    rfl
  rw [(halved sec secLe).2, lateYear, show Int32.ofNat mon + 1 = .ofNat (mon + 1) from
    (Int32.ofNat_add mon 1).symm, Tm.mk.injEq]
  exact ⟨congrArg (fun value => Int32.ofNat (value * 2)) seconds, congrArg Int32.ofNat minutes,
    congrArg Int32.ofNat hours, congrArg Int32.ofNat days, congrArg Int32.ofNat months,
    congrArg (fun value => Int32.ofNat (value + 1980)) years⟩

theorem moved : ¬ stamp.Survives ∧ Apart stamp.tm.timeFields ∧ Apart stamp.tm.dateFields ∧
    stamp.rebuilt = { stamp.tm with
      tm_year := stamp.tm.tm_year + 1900
      tm_mon := stamp.tm.tm_mon + 1
      tm_sec := stamp.tm.tm_sec / 2 * 2 } := by
  refine ⟨fun survives => ?_, stamp.timeApart, stamp.dateApart, stamp.rebuilt_eq⟩
  have years := congrArg Tm.tm_year (stamp.rebuilt_eq.symm.trans survives.same)
  exact absurd (Int32.add_eq_left.mp years) (by decide)

end Stamp

def winter : Environment := { sample with localtime := fun _ => ⟨45, 30, 12, 15, 0, 120⟩ }

def winterNoon : Stamp winter where
  rawtime := 0
  year := by decide
  mon := by decide
  mday := by decide
  hour := by decide
  min := by decide
  sec := by decide

theorem winterNoon_moved : winterNoon.rebuilt = ⟨44, 30, 12, 15, 1, 2020⟩ ∧
    ¬ winterNoon.Survives := by
  have rebuilt : winterNoon.rebuilt = ⟨44, 30, 12, 15, 1, 2020⟩ := by decide
  refine ⟨rebuilt, fun survives => ?_⟩
  exact absurd (rebuilt.symm.trans survives.same) (by decide)

end PackagedTask.Archive
