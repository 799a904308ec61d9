import Mathlib

/-!
# The civil calendar and its texts

`gmtime_r` breaks a time into the fields of the proleptic Gregorian calendar, and times are
stored as fixed-width texts of these fields. As long as years have four digits, the
texts compare as the times do.
-/

namespace Calendar

/-! ## From days to dates -/

/-- The days of a 400-year cycle before one of its years; the first is a leap year. -/
def yearStart (y : Nat) : Nat := 365 * y + (y + 3) / 4 - (y + 99) / 100 + (y + 399) / 400

/-- Whether a year of the cycle has a 29th of February. -/
def isLeap (y : Nat) : Bool := decide (y % 4 = 0) && (decide (y % 100 ≠ 0) || decide (y % 400 = 0))

/-- The days of a year before one of its months, counted from 0. -/
def monthStart (leap : Bool) (m : Nat) : Nat :=
  [0, 31, 59, 90, 120, 151, 181, 212, 243, 273, 304, 334].getD m 365 +
    if leap && decide (2 ≤ m) then 1 else 0

/-- `struct tm`, the year counted from 0 and the month from 1. -/
structure Tm where
  year : Int
  mon : Int
  mday : Int
  hour : Int
  min : Int
  sec : Int
  deriving DecidableEq, Repr

/-- The days between the first day of year 0 and the epoch. -/
def epochDays : Int := 719528

/-- The days of a 400-year cycle. -/
def cycleDays : Int := 146097

/-- The day within its 400-year cycle. -/
def dayOfCycle (days : Int) : Nat := (days % cycleDays).toNat

/-- The year within its 400-year cycle. -/
def yearOfCycle (days : Int) : Nat :=
  Nat.findGreatest (fun y => yearStart y ≤ dayOfCycle days) 399

/-- The day within its year. -/
def dayOfYear (days : Int) : Nat := dayOfCycle days - yearStart (yearOfCycle days)

/-- The month within its year, from 0. -/
def monthOfYear (days : Int) : Nat :=
  Nat.findGreatest (fun m => monthStart (isLeap (yearOfCycle days)) m ≤ dayOfYear days) 11

/-- The days since the first day of year 0. -/
def daysOf (t : Int) : Int := t / 86400 + epochDays

/-- The fields of a time in seconds since the epoch. -/
def fields (t : Int) : Tm where
  year := 400 * (daysOf t / cycleDays) + yearOfCycle (daysOf t)
  mon := monthOfYear (daysOf t) + 1
  mday := dayOfYear (daysOf t) - monthStart (isLeap (yearOfCycle (daysOf t)))
    (monthOfYear (daysOf t)) + 1
  hour := t % 86400 / 3600
  min := t % 3600 / 60
  sec := t % 60

/-- `gmtime_r`: it fails when the year does not fit the `int` of `tm_year`. -/
def gmtimeR (t : Int) : Option Tm :=
  if -2 ^ 31 ≤ (fields t).year - 1900 ∧ (fields t).year - 1900 < 2 ^ 31 then some (fields t)
  else none

/-- The fields `gmtime_r` fills in. -/
theorem gmtimeR_eq_some {t : Int} {tm : Tm} (h : gmtimeR t = some tm) : fields t = tm := by
  unfold gmtimeR at h
  split at h
  · exact Option.some.inj h
  · cases h

/-! ## Texts of fixed width -/

/-- `%0*d`: the number in decimal, padded with zeros after its sign. -/
def padded (width : Nat) (n : Int) : List Char :=
  if n < 0 then '-' :: (Nat.toDigits 10 n.natAbs).leftpad (width - 1) '0'
  else (Nat.toDigits 10 n.toNat).leftpad width '0'

/-- `%04d-%02d-%02dT%02d:%02d:%02d.%03ldZ`. -/
def text (tm : Tm) (millis : Int) : String :=
  String.ofList (padded 4 tm.year ++ '-' :: (padded 2 tm.mon ++ '-' :: (padded 2 tm.mday ++
    'T' :: (padded 2 tm.hour ++ ':' :: (padded 2 tm.min ++ ':' :: (padded 2 tm.sec ++
      '.' :: (padded 3 millis ++ ['Z'])))))))

/-- What the text shows, most significant first. -/
def key (tm : Tm) (millis : Int) : List Int :=
  [tm.year, tm.mon, tm.mday, tm.hour, tm.min, tm.sec, millis]

/-- Fields that fill the widths of the text and no more. -/
structure Tm.Fits (tm : Tm) : Prop where
  year : 0 ≤ tm.year ∧ tm.year < 10 ^ 4
  mon : 0 ≤ tm.mon ∧ tm.mon < 10 ^ 2
  mday : 0 ≤ tm.mday ∧ tm.mday < 10 ^ 2
  hour : 0 ≤ tm.hour ∧ tm.hour < 10 ^ 2
  min : 0 ≤ tm.min ∧ tm.min < 10 ^ 2
  sec : 0 ≤ tm.sec ∧ tm.sec < 10 ^ 2

/-- The order of texts with heads of one length. -/
theorem append_lt_append_iff {α : Type*} [LinearOrder α] {p q s t : List α}
    (h : p.length = q.length) : p ++ s < q ++ t ↔ p < q ∨ p = q ∧ s < t := by
  induction p generalizing q with
  | nil =>
    cases q with
    | nil => simp
    | cons b q => cases h
  | cons a p ih =>
    cases q with
    | nil => cases h
    | cons b q =>
      have hlen : p.length = q.length := by simpa using h
      rw [List.cons_append, List.cons_append, List.cons_lt_cons_iff, List.cons_lt_cons_iff, ih hlen]
      simp only [List.cons.injEq]
      tauto

/-- A padded number is its padded tens and its last digit. -/
theorem leftpad_toDigits {w n : Nat} (hw : 1 ≤ w) :
    (Nat.toDigits 10 n).leftpad (w + 1) '0' =
      (Nat.toDigits 10 (n / 10)).leftpad w '0' ++ [(n % 10).digitChar] := by
  by_cases hn : n < 10
  · have hz : n / 10 = 0 := Nat.div_eq_of_lt hn
    rw [Nat.toDigits_of_lt_base hn, hz, Nat.toDigits_zero, Nat.mod_eq_of_lt hn]
    obtain ⟨v, rfl⟩ : ∃ v, w = v + 1 := ⟨w - 1, by omega⟩
    simp [List.leftpad, List.replicate_succ']
  · rw [Nat.toDigits_of_base_le (by decide) (by omega)]
    simp [List.leftpad]

/-- Digits compare as the numbers they show. -/
theorem digitChar_lt_iff {a b : Nat} (ha : a < 10) (hb : b < 10) :
    a.digitChar < b.digitChar ↔ a < b := by
  have h := Nat.toNat_digitChar_of_lt_ten ha
  have h' := Nat.toNat_digitChar_of_lt_ten hb
  rw [Char.lt_def, UInt32.lt_iff_toNat_lt]
  change a.digitChar.toNat < b.digitChar.toNat ↔ a < b
  omega

/-- A number that fits its width fills it. -/
theorem length_leftpad {w : Nat} (hw : 1 ≤ w) {a : Nat} (ha : a < 10 ^ w) :
    ((Nat.toDigits 10 a).leftpad w '0').length = w := by
  induction w, hw using Nat.le_induction generalizing a with
  | base =>
    rw [pow_one] at ha
    simp [Nat.toDigits_of_lt_base ha, List.leftpad]
  | succ w hw ih =>
    rw [pow_succ] at ha
    rw [leftpad_toDigits hw, List.length_append, ih (by omega)]
    rfl

/-- Numbers of one width compare as their texts. -/
theorem leftpad_lt_iff {w : Nat} (hw : 1 ≤ w) {a b : Nat} (ha : a < 10 ^ w) (hb : b < 10 ^ w) :
    (Nat.toDigits 10 a).leftpad w '0' < (Nat.toDigits 10 b).leftpad w '0' ↔ a < b := by
  induction w, hw using Nat.le_induction generalizing a b with
  | base =>
    rw [pow_one] at ha hb
    simp [Nat.toDigits_of_lt_base ha, Nat.toDigits_of_lt_base hb, List.leftpad,
      List.cons_lt_cons_iff, digitChar_lt_iff ha hb]
  | succ w hw ih =>
    rw [pow_succ] at ha hb
    have ha' : a / 10 < 10 ^ w := by omega
    have hb' : b / 10 < 10 ^ w := by omega
    have hlt := ih ha' hb'
    have hgt := ih hb' ha'
    have heq : (Nat.toDigits 10 (a / 10)).leftpad w '0' =
        (Nat.toDigits 10 (b / 10)).leftpad w '0' ↔ a / 10 = b / 10 := by
      refine ⟨fun h => ?_, fun h => by rw [h]⟩
      rw [h] at hlt hgt
      have hirrefl := List.lt_irrefl ((Nat.toDigits 10 (b / 10)).leftpad w '0')
      have h1 := mt hlt.mpr hirrefl
      have h2 := mt hgt.mpr hirrefl
      omega
    have hlast := digitChar_lt_iff (a := a % 10) (b := b % 10) (by omega) (by omega)
    rw [leftpad_toDigits hw, leftpad_toDigits hw, append_lt_append_iff
      (by rw [length_leftpad hw ha', length_leftpad hw hb']), hlt, heq, List.cons_lt_cons_iff,
      hlast]
    simp only [List.lt_irrefl, and_false, or_false]
    omega

/-- A number that fits its width, under the name the texts use. -/
theorem padded_of_nonneg {w : Nat} {n : Int} (h : 0 ≤ n) :
    padded w n = (Nat.toDigits 10 n.toNat).leftpad w '0' := by
  rw [padded, if_neg (by omega)]

/-- One field of a text: it decides, or what follows it does. -/
theorem padded_append_lt_iff {w : Nat} (hw : 1 ≤ w) {a b : Int} (ha : 0 ≤ a ∧ a < 10 ^ w)
    (hb : 0 ≤ b ∧ b < 10 ^ w) {s t : List Char} {x y : List Int} (h : s < t ↔ x < y) :
    padded w a ++ s < padded w b ++ t ↔ a :: x < b :: y := by
  have ha' : a.toNat < 10 ^ w := by
    have : ((10 ^ w : Nat) : Int) = 10 ^ w := by push_cast; rfl
    omega
  have hb' : b.toNat < 10 ^ w := by
    have : ((10 ^ w : Nat) : Int) = 10 ^ w := by push_cast; rfl
    omega
  have hlt := leftpad_lt_iff hw ha' hb'
  have hgt := leftpad_lt_iff hw hb' ha'
  rw [padded_of_nonneg ha.1, padded_of_nonneg hb.1, append_lt_append_iff
    (by rw [length_leftpad hw ha', length_leftpad hw hb']), hlt, List.cons_lt_cons_iff, h]
  constructor
  · rintro (hab | ⟨heq, hst⟩)
    · exact Or.inl (by omega)
    · rw [heq] at hlt hgt
      have hirrefl := List.lt_irrefl ((Nat.toDigits 10 b.toNat).leftpad w '0')
      have h1 := mt hlt.mpr hirrefl
      have h2 := mt hgt.mpr hirrefl
      exact Or.inr ⟨by omega, hst⟩
  · rintro (hab | ⟨rfl, hst⟩)
    · exact Or.inl (by omega)
    · exact Or.inr ⟨rfl, hst⟩

/-- Texts whose fields fit their widths compare as the fields do. -/
theorem text_lt_iff {a b : Tm} (ha : a.Fits) (hb : b.Fits) {m n : Int} (hm : 0 ≤ m ∧ m < 10 ^ 3)
    (hn : 0 ≤ n ∧ n < 10 ^ 3) : text a m < text b n ↔ key a m < key b n := by
  have hcons (c : Char) {s t : List Char} : c :: s < c :: t ↔ s < t := by
    simp
  rw [String.lt_iff_toList_lt]
  simp only [text, String.toList_ofList, key]
  refine padded_append_lt_iff (by decide) ha.year hb.year ((hcons _).trans ?_)
  refine padded_append_lt_iff (by decide) ha.mon hb.mon ((hcons _).trans ?_)
  refine padded_append_lt_iff (by decide) ha.mday hb.mday ((hcons _).trans ?_)
  refine padded_append_lt_iff (by decide) ha.hour hb.hour ((hcons _).trans ?_)
  refine padded_append_lt_iff (by decide) ha.min hb.min ((hcons _).trans ?_)
  refine padded_append_lt_iff (by decide) ha.sec hb.sec ((hcons _).trans ?_)
  exact padded_append_lt_iff (by decide) hm hn (by simp)

/-! ## The order of dates -/

/-- The day of the cycle is one. -/
theorem dayOfCycle_lt (days : Int) : dayOfCycle days < 146097 := by
  unfold dayOfCycle cycleDays
  omega

/-- The year of the cycle starts on or before the day. -/
theorem yearStart_le (days : Int) : yearStart (yearOfCycle days) ≤ dayOfCycle days :=
  Nat.findGreatest_spec (P := fun y => yearStart y ≤ dayOfCycle days) (Nat.zero_le 399)
    (by simp [yearStart])

/-- The month starts on or before the day. -/
theorem monthStart_le (days : Int) :
    monthStart (isLeap (yearOfCycle days)) (monthOfYear days) ≤ dayOfYear days :=
  Nat.findGreatest_spec
    (P := fun m => monthStart (isLeap (yearOfCycle days)) m ≤ dayOfYear days) (Nat.zero_le 11)
    (by simp [monthStart])

/-- Later days have later dates. -/
theorem date_lt {d e : Int} (h : d < e) :
    (400 * (d / cycleDays) + yearOfCycle d : Int) < 400 * (e / cycleDays) + yearOfCycle e ∨
      (400 * (d / cycleDays) + yearOfCycle d : Int) = 400 * (e / cycleDays) + yearOfCycle e ∧
        isLeap (yearOfCycle d) = isLeap (yearOfCycle e) ∧
        (monthOfYear d < monthOfYear e ∨
          monthOfYear d = monthOfYear e ∧ dayOfYear d < dayOfYear e) := by
  have hd : yearOfCycle d ≤ 399 := Nat.findGreatest_le _
  have hcycle : d / cycleDays ≤ e / cycleDays := Int.ediv_le_ediv (by decide) h.le
  rcases hcycle.lt_or_eq with hlt | heq
  · exact Or.inl (by omega)
  have hday : dayOfCycle d < dayOfCycle e := by
    unfold dayOfCycle cycleDays at *
    omega
  have hyear : yearOfCycle d ≤ yearOfCycle e :=
    Nat.findGreatest_mono_left (fun y hy => le_trans hy hday.le) 399
  rcases hyear.lt_or_eq with hlt | hsame
  · exact Or.inl (by omega)
  have hdoy : dayOfYear d < dayOfYear e := by
    have h1 := yearStart_le d
    unfold dayOfYear
    rw [← hsame]
    omega
  have hmonth : monthOfYear d ≤ monthOfYear e := by
    unfold monthOfYear
    rw [hsame]
    exact Nat.findGreatest_mono_left (fun m hm => le_trans hm hdoy.le) 11
  refine Or.inr ⟨by rw [heq, hsame], by rw [hsame], ?_⟩
  rcases hmonth.lt_or_eq with hlt | heqm
  · exact Or.inl hlt
  · exact Or.inr ⟨heqm, hdoy⟩

/-- Later times have later fields. -/
theorem key_lt {t u : Int} (h : t < u) (m n : Int) : key (fields t) m < key (fields u) n := by
  have hdays : daysOf t ≤ daysOf u := by
    unfold daysOf
    omega
  simp only [key, fields, List.cons_lt_cons_iff]
  rcases hdays.lt_or_eq with hlt | heq
  · have hmt := monthStart_le (daysOf t)
    rcases date_lt hlt with hy | ⟨hy, hleap, hm | ⟨hm, hday⟩⟩
    · exact Or.inl hy
    · exact Or.inr ⟨hy, Or.inl (by omega)⟩
    · refine Or.inr ⟨hy, Or.inr ⟨by omega, Or.inl ?_⟩⟩
      rw [← hleap, ← hm]
      omega
  · rw [heq]
    refine Or.inr ⟨rfl, Or.inr ⟨rfl, Or.inr ⟨rfl, ?_⟩⟩⟩
    unfold daysOf at heq
    omega

/-- No year is longer than 366 days. -/
theorem yearStart_succ_le (y : Nat) : yearStart (y + 1) ≤ yearStart y + 366 := by
  have hfour : (y + 1 + 3) / 4 ≤ (y + 3) / 4 + 1 := by omega
  have hcentury : (y + 1 + 399) / 400 + (y + 99) / 100 ≤ (y + 399) / 400 + (y + 1 + 99) / 100 := by
    omega
  have hle : (y + 99) / 100 ≤ (y + 3) / 4 := by omega
  unfold yearStart
  omega

/-- The day of the year is one of a leap year. -/
theorem dayOfYear_lt (days : Int) : dayOfYear days < 366 := by
  have hle : yearOfCycle days ≤ 399 := Nat.findGreatest_le _
  have hday := dayOfCycle_lt days
  unfold dayOfYear
  rcases hle.lt_or_eq with hlt | heq
  · have hnext : ¬ yearStart (yearOfCycle days + 1) ≤ dayOfCycle days :=
      Nat.findGreatest_is_greatest (P := fun y => yearStart y ≤ dayOfCycle days)
        (Nat.lt_succ_self _) hlt
    have := yearStart_succ_le (yearOfCycle days)
    omega
  · rw [heq]
    have : yearStart 399 = 145732 := rfl
    omega

/-- No month is longer than 31 days. -/
theorem monthStart_succ_le (leap : Bool) {m : Nat} (h : m < 11) :
    monthStart leap (m + 1) ≤ monthStart leap m + 31 := by
  cases leap <;> interval_cases m <;> decide

/-- The day of the month has two digits. -/
theorem dayOfMonth_lt (days : Int) :
    dayOfYear days < monthStart (isLeap (yearOfCycle days)) (monthOfYear days) + 32 := by
  have hle : monthOfYear days ≤ 11 := Nat.findGreatest_le _
  have hday := dayOfYear_lt days
  rcases hle.lt_or_eq with hlt | heq
  · have hnext : ¬ monthStart (isLeap (yearOfCycle days)) (monthOfYear days + 1) ≤ dayOfYear days :=
      Nat.findGreatest_is_greatest
        (P := fun m => monthStart (isLeap (yearOfCycle days)) m ≤ dayOfYear days)
        (Nat.lt_succ_self _) hlt
    have := monthStart_succ_le (isLeap (yearOfCycle days)) hlt
    omega
  · have : 334 ≤ monthStart (isLeap (yearOfCycle days)) 11 := by simp [monthStart]
    rw [heq]
    omega

/-- The fields other than the year always fit their widths. -/
theorem fits_fields {t : Int} (h : 0 ≤ (fields t).year ∧ (fields t).year < 10 ^ 4) :
    (fields t).Fits where
  year := h
  mon := by
    have : monthOfYear (daysOf t) ≤ 11 := Nat.findGreatest_le _
    simp only [fields]
    omega
  mday := by
    have := dayOfMonth_lt (daysOf t)
    have := monthStart_le (daysOf t)
    simp only [fields]
    omega
  hour := by
    simp only [fields]
    omega
  min := by
    simp only [fields]
    omega
  sec := by
    simp only [fields]
    omega

/-- As long as years have four digits, a text before another shows an earlier time. -/
theorem lt_or_of_text_lt {t u : Int} (ht : 0 ≤ (fields t).year ∧ (fields t).year < 10 ^ 4)
    (hu : 0 ≤ (fields u).year ∧ (fields u).year < 10 ^ 4) {m n : Int} (hm : 0 ≤ m ∧ m < 10 ^ 3)
    (hn : 0 ≤ n ∧ n < 10 ^ 3) (h : text (fields t) m < text (fields u) n) :
    t < u ∨ t = u ∧ m < n := by
  rw [text_lt_iff (fits_fields ht) (fits_fields hu) hm hn] at h
  rcases lt_trichotomy t u with hlt | rfl | hgt
  · exact Or.inl hlt
  · refine Or.inr ⟨rfl, ?_⟩
    simpa [key, List.cons_lt_cons_iff] using h
  · exact absurd (List.lt_trans h (key_lt hgt n m)) (List.lt_irrefl _)

/-- A text with a negative year comes before those with a year of four digits. -/
theorem text_lt_of_neg {a b : Tm} (ha : a.year < 0) (hb : b.Fits) (m n : Int) :
    text a m < text b n := by
  have hb' : b.year.toNat < 10 ^ 4 := by
    have := hb.year
    omega
  have hlen := length_leftpad (by decide) hb'
  rw [String.lt_iff_toList_lt]
  simp only [text, String.toList_ofList]
  rw [padded, if_pos ha, padded_of_nonneg hb.year.1]
  cases hdigits : (Nat.toDigits 10 b.year.toNat).leftpad 4 '0' with
  | nil =>
    rw [hdigits] at hlen
    cases hlen
  | cons c rest =>
    refine List.cons_lt_cons_iff.mpr (Or.inl ?_)
    have hdigit : c.isDigit = true := by
      have hmem : c ∈ (Nat.toDigits 10 b.year.toNat).leftpad 4 '0' := by
        rw [hdigits]
        exact List.mem_cons_self
      rw [List.leftpad, List.mem_append] at hmem
      rcases hmem with hzero | hdig
      · rw [List.eq_of_mem_replicate hzero]
        rfl
      · exact Nat.isDigit_of_mem_toDigits (by decide) (by decide) hdig
    rw [Char.lt_def, UInt32.lt_iff_toNat_lt]
    have : 48 ≤ c.toNat ∧ c.toNat ≤ 57 := by
      simpa [Char.isDigit, UInt32.le_iff_toNat_le] using hdigit
    exact lt_of_lt_of_le (by decide : '-'.val.toNat < 48) this.1

example : text (fields 1709210096) 7 = "2024-02-29T12:34:56.007Z" := by decide +kernel

end Calendar
